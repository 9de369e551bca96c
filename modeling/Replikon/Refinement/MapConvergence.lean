import Replikon.Model.MapCrdt

/-!
# When `MapCRDT` converges

A merge of the map is, at each key, the merges of that key's updates in their
order, so the map converges wherever its value type does. `Register` assigns:
what a key holds in the end is the last value delivered for it. Two orders of
delivery therefore agree exactly when the updates agree on every key.
-/

namespace Replikon.MapCRDT

open Foundation

universe u v

variable {K : Type v} [LinearOrder K]

section Pointwise

variable {crdt : ValueCRDT.{u}}

/-- The updates of one key in an update of the map. -/
def updatesOf (key : K) (update : List (K × crdt.Update)) : List crdt.Update :=
  (update.filter fun entry => entry.1 = key).map (·.2)

/-- What a key holds after the updates: an absent key stays absent without
updates and otherwise starts from the default. -/
def absorb (present : Option crdt.State) (updates : List crdt.Update) : Option crdt.State :=
  if updates.isEmpty then present
  else some (updates.foldl (fun state update => (crdt.merge state update).1)
    (present.getD crdt.initial))

/-- Absorbing two lists is absorbing one after the other. -/
theorem absorb_append (present : Option crdt.State) (first second : List crdt.Update) :
    absorb (absorb present first) second = absorb present (first ++ second) := by
  cases first with
  | nil => simp [absorb]
  | cons _ _ =>
    cases second with
    | nil => simp [absorb]
    | cons _ _ => simp [absorb]

/-- The loop of `merge` acts on each key through that key's own updates. -/
theorem find_merge_entries (values : MapCRDT K crdt) (status : MergeStatus)
    (update : List (K × crdt.Update)) (key : K) :
    (mergeEntries values status update).1.find key =
      absorb (values.find key) (updatesOf key update) := by
  induction update generalizing values status with
  | nil => simp [mergeEntries, updatesOf, absorb]
  | cons entry rest inductionHypothesis =>
    obtain ⟨k, upd⟩ := entry
    simp only [mergeEntries, inductionHypothesis, SortedMap.find_insert]
    by_cases same : k = key
    · subst same
      have here : absorb (values.find k) [upd] =
          some (crdt.merge (valueAt values k) upd).1 := rfl
      have first : updatesOf k ((k, upd) :: rest) = [upd] ++ updatesOf k rest := by
        simp [updatesOf]
      rw [if_pos rfl, ← here, absorb_append, first]
    · have skipped : updatesOf key ((k, upd) :: rest) = updatesOf key rest := by
        simp [updatesOf, same]
      rw [if_neg (Ne.symm same), skipped]

/-- Merging a list of updates acts on each key through that key's own updates,
in the order of their delivery. -/
theorem find_merge_all (values : MapCRDT K crdt) (updates : List (List (K × crdt.Update)))
    (key : K) :
    (mergeAll values updates).find key =
      absorb (values.find key) (updates.flatMap (updatesOf key)) := by
  induction updates generalizing values with
  | nil => simp [mergeAll, absorb]
  | cons first rest inductionHypothesis =>
    have continued := inductionHypothesis (merge values first).1
    rw [merge, find_merge_entries, absorb_append] at continued
    simpa [mergeAll, merge] using continued

/-- A map converges in any order of delivery if the merges of its value type commute. -/
theorem converges_of_commutes
    (commutes : ∀ state first second,
      (crdt.merge (crdt.merge state first).1 second).1 =
        (crdt.merge (crdt.merge state second).1 first).1)
    (start : MapCRDT K crdt) {first second : List (List (K × crdt.Update))}
    (permuted : first.Perm second) : mergeAll start first = mergeAll start second := by
  apply SortedMap.ext_find
  intro key
  have keyed : (first.flatMap (updatesOf key)).Perm (second.flatMap (updatesOf key)) :=
    permuted.flatMap_right _
  have folded := keyed.foldl_eq' (f := fun state update => (crdt.merge state update).1)
    (fun left _ right _ state => commutes state left right)
    ((start.find key).getD crdt.initial)
  have nothing : (first.flatMap (updatesOf key)).isEmpty =
      (second.flatMap (updatesOf key)).isEmpty := by
    rw [Bool.eq_iff_iff, List.isEmpty_iff_length_eq_zero, List.isEmpty_iff_length_eq_zero,
      keyed.length_eq]
  rw [find_merge_all, find_merge_all, absorb, absorb, nothing, folded]

end Pointwise

section Register

variable {V : Type u} [Inhabited V]

/-- The value an update leaves in the register of a key: its last one for it. -/
def lastValue (key : K) (update : List (K × V)) : Option V :=
  (@updatesOf K _ (Register V) key update).getLast?

/-- All updates that write a key leave the same value in it. -/
def Agree (updates : List (List (K × V))) : Prop :=
  ∀ key, ∀ left ∈ updates, ∀ right ∈ updates, ∀ value other,
    lastValue key left = some value → lastValue key right = some other → value = other

/-- A register holds the last value it absorbed. -/
theorem absorb_register (present : Option V) (updates : List V) :
    @absorb (Register V) present updates = updates.getLast?.or present := by
  have assigned : ∀ (values : List V) (start : V),
      values.foldl (fun state update => ((Register V).merge state update).1) start =
        values.getLast?.getD start := by
    intro values
    induction values with
    | nil => exact fun start => rfl
    | cons value rest inductionHypothesis =>
      intro start
      rw [List.foldl_cons, inductionHypothesis, List.getLast?_cons]
      rfl
  cases updates with
  | nil => rfl
  | cons value rest =>
    rw [absorb, assigned]
    simp [List.getLast?_cons]

/-- What a key holds after a list of updates: the value left by the last update
that writes it. -/
theorem find_merge_all_register (start : MapCRDT K (Register V))
    (updates : List (List (K × V))) (key : K) :
    (mergeAll start updates).find key =
      (updates.filterMap (lastValue key)).getLast?.or (start.find key) := by
  rw [find_merge_all, absorb_register]
  congr 1
  induction updates using List.reverseRecOn with
  | nil => rfl
  | append_singleton earlier last inductionHypothesis =>
    rw [List.flatMap_append, List.filterMap_append, List.getLast?_append, List.getLast?_append,
      inductionHypothesis]
    cases written : lastValue key last with
    | none => simp_all [lastValue]
    | some value => simp_all [lastValue]

/-- The last value written to a key was left there by one of the updates. -/
theorem find_last_written {updates : List (List (K × V))} {key : K} {value : V}
    (found : (updates.filterMap (lastValue key)).getLast? = some value) :
    ∃ update ∈ updates, lastValue key update = some value :=
  List.mem_filterMap.mp (List.mem_of_getLast? found)

/-- Whatever the last delivery writes to a key is found there. -/
theorem find_delivered_last (start : MapCRDT K (Register V)) (earlier : List (List (K × V)))
    (last : List (K × V)) (key : K) (value : V) (written : lastValue key last = some value) :
    (mergeAll start (earlier ++ [last])).find key = some value := by
  rw [find_merge_all_register, List.filterMap_append, List.getLast?_append]
  simp [written]

/-- Two replicas that merge the same updates from the same map end with equal
maps in every order exactly when the updates agree on every key they write. If
they do not, delivering one disagreeing update last on one replica and the other
last on the other tells the maps apart. -/
theorem register_map_converges_iff (start : MapCRDT K (Register V))
    (updates : List (List (K × V))) :
    (∀ first second, first.Perm updates → second.Perm updates →
      mergeAll start first = mergeAll start second) ↔ Agree updates := by
  constructor
  · intro converges key left leftMember right rightMember value other leftValue rightValue
    obtain ⟨beforeLeft, afterLeft, leftSplit⟩ := List.append_of_mem leftMember
    obtain ⟨beforeRight, afterRight, rightSplit⟩ := List.append_of_mem rightMember
    have leftLast : (beforeLeft ++ afterLeft ++ [left]).Perm updates := by
      rw [leftSplit, List.append_assoc]
      exact (List.perm_append_singleton left afterLeft).append_left beforeLeft
    have rightLast : (beforeRight ++ afterRight ++ [right]).Perm updates := by
      rw [rightSplit, List.append_assoc]
      exact (List.perm_append_singleton right afterRight).append_left beforeRight
    have same := congrArg (fun map => SortedMap.find map key)
      (converges _ _ leftLast rightLast)
    simp only [find_delivered_last start _ left key value leftValue,
      find_delivered_last start _ right key other rightValue] at same
    exact Option.some.inj same
  · intro agree first second firstOrder secondOrder
    apply SortedMap.ext_find
    intro key
    have permuted := (firstOrder.trans secondOrder.symm).filterMap (lastValue key)
    rw [find_merge_all_register, find_merge_all_register]
    cases firstEnd : (first.filterMap (lastValue key)).getLast? with
    | none =>
      have nothing : first.filterMap (lastValue key) = [] := List.getLast?_eq_none_iff.mp firstEnd
      have nothingElse : second.filterMap (lastValue key) = [] := by
        rw [nothing] at permuted
        exact permuted.nil_eq.symm
      rw [nothingElse]
      rfl
    | some value =>
      cases secondEnd : (second.filterMap (lastValue key)).getLast? with
      | none =>
        have nothing : second.filterMap (lastValue key) = [] :=
          List.getLast?_eq_none_iff.mp secondEnd
        rw [nothing, List.perm_nil] at permuted
        simp [permuted] at firstEnd
      | some other =>
        obtain ⟨left, leftMember, leftValue⟩ := find_last_written firstEnd
        obtain ⟨right, rightMember, rightValue⟩ := find_last_written secondEnd
        have same : value = other := agree key left (firstOrder.subset leftMember) right
          (secondOrder.subset rightMember) value other leftValue rightValue
        rw [same]

/-- Two updates that write different values to one key, in both orders. -/
theorem register_map_diverges :
    ¬ ∀ (start : MapCRDT Nat (Register Nat)) (updates first second : List (List (Nat × Nat))),
      first.Perm updates → second.Perm updates →
        mergeAll start first = mergeAll start second := by
  intro converges
  have same := converges SortedMap.empty [[(0, 1)], [(0, 2)]] [[(0, 1)], [(0, 2)]]
    [[(0, 2)], [(0, 1)]] (List.Perm.refl _) (List.Perm.swap _ _ _)
  have values := congrArg (fun map => SortedMap.find map 0) same
  revert values
  decide

end Register

end Replikon.MapCRDT
