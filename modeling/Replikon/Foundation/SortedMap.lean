import Mathlib.Data.List.Basic
import Mathlib.Order.Lattice

/-!
# Ordered maps as their ascending entries

A map over a linearly ordered key type is the list of its entries in strictly
ascending key order; the order is a field, so a key cannot occur twice.
Iteration visits the entries in that order. Assignment overwrites the value of
a present key and otherwise inserts at the key's place. Two maps with the same
lookups are the same map.
-/

namespace Replikon.Foundation

universe u v w

/-- Entries in strictly ascending key order. -/
structure SortedMap (κ : Type u) (ν : Type v) [LinearOrder κ] where
  entries : List (κ × ν)
  ascending : entries.Pairwise (fun left right => left.1 < right.1)

namespace SortedMap

variable {κ : Type u} {ν : Type v} {μ : Type w} [LinearOrder κ]

/-- The first value filed under a key. -/
def lookup (key : κ) : List (κ × ν) → Option ν
  | [] => none
  | (other, value) :: rest => if key = other then some value else lookup key rest

/-- Place an entry in an ascending list, overwriting the entry of an equal key. -/
def place (key : κ) (value : ν) : List (κ × ν) → List (κ × ν)
  | [] => [(key, value)]
  | (other, present) :: rest =>
    if key < other then (key, value) :: (other, present) :: rest
    else if key = other then (key, value) :: rest
    else (other, present) :: place key value rest

/-- Every placed entry is the new one or an old one. -/
theorem mem_place (key : κ) (value : ν) (entries : List (κ × ν)) (entry : κ × ν)
    (member : entry ∈ place key value entries) : entry = (key, value) ∨ entry ∈ entries := by
  induction entries with
  | nil => simpa [place] using member
  | cons head rest inductionHypothesis =>
    obtain ⟨other, present⟩ := head
    unfold place at member
    split at member
    · simpa using member
    · split at member
      · rcases List.mem_cons.mp member with same | old
        · exact Or.inl same
        · exact Or.inr (List.mem_cons_of_mem _ old)
      · rcases List.mem_cons.mp member with same | old
        · exact Or.inr (same ▸ List.mem_cons_self)
        · exact (inductionHypothesis old).imp id (List.mem_cons_of_mem _)

/-- Placing keeps the ascending order. Only the last case recurses: there the
head is below the new key and below every old entry. -/
theorem place_ascending (key : κ) (value : ν) (entries : List (κ × ν))
    (ascending : entries.Pairwise (fun left right => left.1 < right.1)) :
    (place key value entries).Pairwise (fun left right => left.1 < right.1) := by
  induction entries with
  | nil => simp [place]
  | cons head rest inductionHypothesis =>
    obtain ⟨other, present⟩ := head
    obtain ⟨above, restAscending⟩ := List.pairwise_cons.mp ascending
    unfold place
    split
    · rename_i below
      refine List.pairwise_cons.mpr ⟨?_, ascending⟩
      intro entry member
      rcases List.mem_cons.mp member with rfl | member
      · exact below
      · exact below.trans (above entry member)
    · split
      · rename_i same
        exact List.pairwise_cons.mpr ⟨fun entry member => same ▸ above entry member, restAscending⟩
      · rename_i notBelow different
        have beyond : other < key := lt_of_le_of_ne (not_lt.mp notBelow) (Ne.symm different)
        refine List.pairwise_cons.mpr ⟨?_, inductionHypothesis restAscending⟩
        intro entry member
        rcases mem_place key value rest entry member with rfl | old
        · exact beyond
        · exact above entry old

/-- The map without entries. -/
def empty : SortedMap κ ν := ⟨[], List.Pairwise.nil⟩

/-- The value of a key, if present. -/
def find (map : SortedMap κ ν) (key : κ) : Option ν := lookup key map.entries

/-- Assign a value to a key. -/
def insert (map : SortedMap κ ν) (key : κ) (value : ν) : SortedMap κ ν :=
  ⟨place key value map.entries, place_ascending key value map.entries map.ascending⟩

/-- Replace every value, keeping the keys. -/
def mapValues (map : SortedMap κ ν) (change : κ → ν → μ) : SortedMap κ μ where
  entries := map.entries.map fun entry => (entry.1, change entry.1 entry.2)
  ascending := List.pairwise_map.mpr map.ascending

/-- Looking up after placing sees the new value at its key and the old ones elsewhere. -/
theorem lookup_place (key query : κ) (value : ν) (entries : List (κ × ν)) :
    lookup query (place key value entries) =
      if query = key then some value else lookup query entries := by
  induction entries with
  | nil => simp [place, lookup]
  | cons head rest inductionHypothesis =>
    obtain ⟨other, present⟩ := head
    unfold place
    split
    · rfl
    · split
      · rename_i same
        subst same
        by_cases asked : query = key <;> simp [lookup, asked]
      · rename_i different
        by_cases asked : query = other
        · have distinct : query ≠ key := fun equal => different (equal.symm.trans asked)
          simp [lookup, asked, Ne.symm different]
        · simp [lookup, asked, inductionHypothesis]

@[simp] theorem find_empty (key : κ) : (empty : SortedMap κ ν).find key = none := rfl

@[simp] theorem find_insert (map : SortedMap κ ν) (key query : κ) (value : ν) :
    (map.insert key value).find query = if query = key then some value else map.find query :=
  lookup_place key query value map.entries

/-- In an ascending list, looking a key up finds exactly its entry. -/
theorem lookup_eq_some_iff (entries : List (κ × ν))
    (ascending : entries.Pairwise (fun left right => left.1 < right.1)) (key : κ) (value : ν) :
    lookup key entries = some value ↔ (key, value) ∈ entries := by
  induction entries with
  | nil => simp [lookup]
  | cons head rest inductionHypothesis =>
    obtain ⟨other, present⟩ := head
    obtain ⟨above, restAscending⟩ := List.pairwise_cons.mp ascending
    by_cases same : key = other
    · subst same
      have absent : (key, value) ∉ rest := fun member => lt_irrefl key (above (key, value) member)
      simp [lookup, absent, eq_comm]
    · simp [lookup, same, inductionHypothesis restAscending]

/-- A map's lookups are its entries. -/
theorem find_eq_some_iff (map : SortedMap κ ν) (key : κ) (value : ν) :
    map.find key = some value ↔ (key, value) ∈ map.entries :=
  lookup_eq_some_iff map.entries map.ascending key value

/-- When the items spread from an entry can be told by its key, the items of
one key are those of its entry. -/
theorem filter_flat_map {α : Type w} (map : SortedMap κ ν) (spread : κ → ν → List α) (owner : α → κ)
    (owned : ∀ entry ∈ map.entries, ∀ item ∈ spread entry.1 entry.2, owner item = entry.1)
    (wanted : κ) [DecidablePred fun item => owner item = wanted] :
    (map.entries.flatMap fun entry => spread entry.1 entry.2).filter
        (fun item => owner item = wanted) =
      ((map.find wanted).map (spread wanted)).getD [] := by
  obtain ⟨entries, ascending⟩ := map
  rw [find]
  simp only at owned ⊢
  induction entries with
  | nil => rfl
  | cons head rest inductionHypothesis =>
    obtain ⟨before, later⟩ := List.pairwise_cons.mp ascending
    have tail := inductionHypothesis later
      fun entry member => owned entry (List.mem_cons_of_mem _ member)
    have headOwned := owned head List.mem_cons_self
    rw [List.flatMap_cons, List.filter_append, tail, lookup]
    by_cases same : wanted = head.1
    · have absent : lookup wanted rest = none := by
        apply Option.eq_none_iff_forall_not_mem.mpr
        intro value found
        have member := (lookup_eq_some_iff rest later wanted value).mp found
        exact absurd (before _ member) (by simp [same])
      have whole : (spread head.1 head.2).filter (fun item => owner item = wanted) =
          spread head.1 head.2 := by
        apply List.filter_eq_self.mpr
        intro item member
        simp [headOwned item member, same]
      rw [absent, whole, if_pos same, same]
      simp
    · have none : (spread head.1 head.2).filter (fun item => owner item = wanted) = [] := by
        apply List.filter_eq_nil_iff.mpr
        intro item member
        simpa [headOwned item member] using fun equal : head.1 = wanted => same equal.symm
      rw [none, if_neg same, List.nil_append]

/-- Two maps with the same lookups are equal: their entries are ascending lists
with the same members. -/
theorem ext_find {left right : SortedMap κ ν} (same : ∀ key, left.find key = right.find key) :
    left = right := by
  have members : ∀ entry, entry ∈ left.entries ↔ entry ∈ right.entries := by
    intro entry
    rw [← find_eq_some_iff left entry.1 entry.2, ← find_eq_some_iff right entry.1 entry.2,
      same entry.1]
  have distinct : ∀ map : SortedMap κ ν, map.entries.Nodup := by
    intro map
    refine List.Pairwise.imp ?_ map.ascending
    rintro first second below rfl
    exact lt_irrefl _ below
  have permuted : left.entries.Perm right.entries :=
    (List.perm_ext_iff_of_nodup (distinct left) (distinct right)).mpr members
  have entries : left.entries = right.entries := by
    refine permuted.eq_of_pairwise ?_ left.ascending right.ascending
    intro first second _ _ below above
    exact absurd below (lt_asymm above)
  cases left
  cases right
  simpa using entries

/-- Replacing values replaces the result of each lookup. -/
theorem find_map_values (map : SortedMap κ ν) (change : κ → ν → μ) (key : κ) :
    (map.mapValues change).find key = (map.find key).map (change key) := by
  have entriesLookup : ∀ entries : List (κ × ν),
      lookup key (entries.map fun entry => (entry.1, change entry.1 entry.2)) =
        (lookup key entries).map (change key) := by
    intro entries
    induction entries with
    | nil => rfl
    | cons head rest inductionHypothesis =>
      by_cases same : key = head.1
      · subst same
        simp [lookup]
      · simp [lookup, same, inductionHypothesis]
  exact entriesLookup map.entries

/-- Assign the image of every listed entry, one after another. -/
def assignAll (change : κ → ν → μ) : List (κ × ν) → SortedMap κ μ → SortedMap κ μ
  | [], map => map
  | (key, value) :: rest, map => assignAll change rest (map.insert key (change key value))

/-- Assigning ascending entries leaves every other key as it was: a later entry
never has the key of an earlier one, so no assignment is overwritten. -/
theorem find_assign_all (change : κ → ν → μ) (entries : List (κ × ν)) (map : SortedMap κ μ)
    (ascending : entries.Pairwise (fun left right => left.1 < right.1)) (query : κ) :
    (assignAll change entries map).find query =
      ((lookup query entries).map (change query)).or (map.find query) := by
  induction entries generalizing map with
  | nil => simp [assignAll, lookup]
  | cons head rest inductionHypothesis =>
    obtain ⟨key, value⟩ := head
    obtain ⟨above, restAscending⟩ := List.pairwise_cons.mp ascending
    simp only [assignAll]
    rw [inductionHypothesis (map.insert key (change key value)) restAscending]
    by_cases asked : query = key
    · subst asked
      have absent : lookup query rest = none := by
        cases found : lookup query rest with
        | none => rfl
        | some other =>
          have member := (lookup_eq_some_iff rest restAscending query other).mp found
          exact absurd (above (query, other) member) (lt_irrefl query)
      simp [absent, lookup]
    · simp [asked, lookup]

/-- Assigning the images of a whole map's entries to the empty map is replacing
its values. -/
theorem assign_all_entries (map : SortedMap κ ν) (change : κ → ν → μ) :
    assignAll change map.entries empty = map.mapValues change := by
  apply ext_find
  intro key
  rw [find_assign_all change map.entries empty map.ascending key, find_map_values]
  simp [find, empty, lookup]

end SortedMap

end Replikon.Foundation
