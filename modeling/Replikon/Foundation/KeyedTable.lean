import Mathlib.Data.List.Basic

/-!
# Tables that are written by upserts

An upsert gives a present key a new value in place and appends an absent one.
What a list of upserts leaves is told by two things: the last value given to
each key and the order in which the absent keys first occur. A list whose keys
begin with those of another one therefore makes that one superfluous.
-/

namespace Replikon.Foundation

universe u v w x

/-- A table: its keys in order, the value under each and the columns that no
upsert writes. An absent key counts as having the columns it would be given. -/
structure KeyedTable (τ : Type u) (κ : Type v) (ν : Type w) (ω : Type x) [DecidableEq κ] where
  upsert : τ → κ → ν → τ
  keys : τ → List κ
  value : τ → κ → Option ν
  others : τ → κ → ω
  mem_keys : ∀ table key, key ∈ keys table ↔ (value table key).isSome
  keys_upsert : ∀ table key given,
    keys (upsert table key given) = if key ∈ keys table then keys table else keys table ++ [key]
  value_upsert : ∀ table key given query,
    value (upsert table key given) query = if query = key then some given else value table query
  others_upsert : ∀ table key given query,
    others (upsert table key given) query = others table query
  ext : ∀ left right, keys left = keys right → (∀ key, value left key = value right key) →
    (∀ key, others left key = others right key) → left = right

section Keys

variable {κ : Type v} [DecidableEq κ]

/-- Keys with the absent ones among others appended where they first occur. -/
def addNew (keys added : List κ) : List κ :=
  added.foldl (fun keys key => if key ∈ keys then keys else keys ++ [key]) keys

theorem add_new_append (keys first second : List κ) :
    addNew keys (first ++ second) = addNew (addNew keys first) second :=
  List.foldl_append

theorem mem_add_new (keys added : List κ) (key : κ) :
    key ∈ addNew keys added ↔ key ∈ keys ∨ key ∈ added := by
  induction added generalizing keys with
  | nil => simp [addNew]
  | cons first rest inductionHypothesis =>
    have continued : addNew keys (first :: rest) =
        addNew (if first ∈ keys then keys else keys ++ [first]) rest := rfl
    rw [continued, inductionHypothesis]
    by_cases present : first ∈ keys
    · rw [if_pos present, List.mem_cons]
      constructor
      · rintro (member | member)
        · exact .inl member
        · exact .inr (.inr member)
      · rintro (member | rfl | member)
        · exact .inl member
        · exact .inl present
        · exact .inr member
    · rw [if_neg present]
      simp [or_assoc]

/-- Present keys add nothing. -/
theorem add_new_present (keys added : List κ) (present : ∀ key ∈ added, key ∈ keys) :
    addNew keys added = keys := by
  induction added with
  | nil => rfl
  | cons first rest inductionHypothesis =>
    have continued : addNew keys (first :: rest) =
        addNew (if first ∈ keys then keys else keys ++ [first]) rest := rfl
    rw [continued, if_pos (present first List.mem_cons_self)]
    exact inductionHypothesis fun key member => present key (List.mem_cons_of_mem _ member)

end Keys

section Entries

variable {κ : Type v} {ν : Type w} [DecidableEq κ]

/-- The last value that a list of entries gives to a key. -/
def lastGiven (entries : List (κ × ν)) (key : κ) : Option ν :=
  ((entries.filter fun entry => entry.1 = key).map (·.2)).getLast?

/-- A later entry for the key prevails. -/
theorem last_given_cons (entry : κ × ν) (rest : List (κ × ν)) (key : κ) :
    lastGiven (entry :: rest) key =
      (lastGiven rest key).or (if key = entry.1 then some entry.2 else none) := by
  by_cases same : entry.1 = key
  · subst same
    simp [lastGiven, List.getLast?_cons, Option.or_some]
  · have other : ¬ key = entry.1 := fun equal => same equal.symm
    simp [lastGiven, same, other]

/-- A key is given a value exactly when an entry names it. -/
theorem last_given_eq_none_iff (entries : List (κ × ν)) (key : κ) :
    lastGiven entries key = none ↔ key ∉ entries.map Prod.fst := by
  simp only [lastGiven, List.getLast?_eq_none_iff, List.map_eq_nil_iff, List.filter_eq_nil_iff,
    List.mem_map, decide_eq_true_eq]
  constructor
  · rintro unnamed ⟨entry, member, named⟩
    exact unnamed entry member named
  · intro unnamed entry member named
    exact unnamed ⟨entry, member, named⟩

/-- The later list is asked first. -/
theorem last_given_append (earlier later : List (κ × ν)) (key : κ) :
    lastGiven (earlier ++ later) key = (lastGiven later key).or (lastGiven earlier key) := by
  simp [lastGiven, List.getLast?_append]

end Entries

namespace KeyedTable

variable {τ : Type u} {κ : Type v} {ν : Type w} {ω : Type x} [DecidableEq κ]
  (shape : KeyedTable τ κ ν ω) (table : τ)

/-- Upsert the entries one after another. -/
def upsertAll (entries : List (κ × ν)) : τ :=
  entries.foldl (fun table entry => shape.upsert table entry.1 entry.2) table

theorem keys_upsert_all (entries : List (κ × ν)) :
    shape.keys (shape.upsertAll table entries) =
      addNew (shape.keys table) (entries.map Prod.fst) := by
  induction entries generalizing table with
  | nil => rfl
  | cons entry rest inductionHypothesis =>
    have continued := inductionHypothesis (shape.upsert table entry.1 entry.2)
    rw [shape.keys_upsert] at continued
    exact continued

theorem value_upsert_all (entries : List (κ × ν)) (key : κ) :
    shape.value (shape.upsertAll table entries) key =
      (lastGiven entries key).or (shape.value table key) := by
  induction entries generalizing table with
  | nil => rfl
  | cons entry rest inductionHypothesis =>
    have continued := inductionHypothesis (shape.upsert table entry.1 entry.2)
    rw [shape.value_upsert] at continued
    refine continued.trans ?_
    rw [last_given_cons, Option.or_assoc]
    by_cases same : key = entry.1 <;> simp [same]

theorem others_upsert_all (entries : List (κ × ν)) (key : κ) :
    shape.others (shape.upsertAll table entries) key = shape.others table key := by
  induction entries generalizing table with
  | nil => rfl
  | cons entry rest inductionHypothesis =>
    have continued := inductionHypothesis (shape.upsert table entry.1 entry.2)
    rw [shape.others_upsert] at continued
    exact continued

/-- Two lists of entries leave the same table exactly when they leave each key
the same value and add the absent keys in the same order. -/
theorem upsert_all_eq_iff (entries instead : List (κ × ν)) :
    shape.upsertAll table entries = shape.upsertAll table instead ↔
      (∀ key, (lastGiven entries key).or (shape.value table key) =
        (lastGiven instead key).or (shape.value table key)) ∧
      addNew (shape.keys table) (entries.map Prod.fst) =
        addNew (shape.keys table) (instead.map Prod.fst) := by
  constructor
  · intro same
    refine ⟨fun key => ?_, ?_⟩
    · rw [← value_upsert_all, same, value_upsert_all]
    · rw [← keys_upsert_all, same, keys_upsert_all]
  · rintro ⟨values, keys⟩
    apply shape.ext
    · rw [keys_upsert_all, keys_upsert_all, keys]
    · intro key
      rw [value_upsert_all, value_upsert_all, values]
    · intro key
      rw [others_upsert_all, others_upsert_all]

/-- Entries leave a table as it is exactly when the last value they give to a
key is the one it has. -/
theorem upsert_all_eq_self_iff (entries : List (κ × ν)) :
    shape.upsertAll table entries = table ↔
      ∀ key given, lastGiven entries key = some given → shape.value table key = some given := by
  constructor
  · intro same key given last
    have value := shape.value_upsert_all table entries key
    rw [same, last, Option.some_or] at value
    exact value
  · intro held
    refine (shape.upsert_all_eq_iff table entries []).mpr ⟨fun key => ?_, ?_⟩
    · cases last : lastGiven entries key with
      | none => rfl
      | some given => exact (held key given last).symm
    · refine add_new_present _ _ fun key member => ?_
      rw [shape.mem_keys]
      cases last : lastGiven entries key with
      | none => exact absurd member ((last_given_eq_none_iff entries key).mp last)
      | some given => rw [held key given last]; rfl

/-- Entries whose keys begin with those of an earlier list leave what they
would have left without it. -/
theorem upsert_all_again (earlier later : List (κ × ν))
    (extended : earlier.map Prod.fst <+: later.map Prod.fst) :
    shape.upsertAll (shape.upsertAll table earlier) later = shape.upsertAll table later := by
  have appended : shape.upsertAll (shape.upsertAll table earlier) later =
      shape.upsertAll table (earlier ++ later) := List.foldl_append.symm
  rw [appended, upsert_all_eq_iff]
  constructor
  · intro key
    cases last : lastGiven later key with
    | some given => simp [last_given_append, last]
    | none =>
      have unnamed := (last_given_eq_none_iff later key).mp last
      have absent := (last_given_eq_none_iff earlier key).mpr
        fun named => unnamed (extended.subset named)
      simp [last_given_append, last, absent]
  · obtain ⟨rest, split⟩ := extended
    have repeated : addNew (addNew (shape.keys table) (earlier.map Prod.fst))
        (earlier.map Prod.fst) = addNew (shape.keys table) (earlier.map Prod.fst) :=
      add_new_present _ _ fun key member => (mem_add_new _ _ key).mpr (.inr member)
    rw [List.map_append, ← split, add_new_append, add_new_append, repeated, add_new_append]

end KeyedTable

end Replikon.Foundation
