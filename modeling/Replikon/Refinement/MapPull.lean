import Replikon.Refinement.MapConvergence
import Replikon.Refinement.MapReads

/-!
# A complete pull of `MapCRDT` is the pull of its values

The header of the source lists each of its keys once, so the request, the update
and the merge process each key once. What they insert along the way under one key
is not seen by another: the pull acts on each key as the pull of the value type,
and it skips exactly when one of those skips.
-/

namespace Replikon

open Foundation

universe u v w

/-- `puller.merge(source.getUpdate(puller.getRequest(source.getHeader())))` of two values. -/
def ValueCRDT.pull (crdt : ValueCRDT.{u}) (source puller : crdt.State) :
    crdt.State × MergeStatus :=
  crdt.merge puller (crdt.getUpdate source (crdt.getRequest puller (crdt.getHeader source)))

namespace MapCRDT

/-- Both maps after a complete pull, and what its merge returned. -/
structure Pulled (K : Type v) [LinearOrder K] (crdt : ValueCRDT.{u}) where
  source : MapCRDT K crdt
  puller : MapCRDT K crdt
  status : MergeStatus

variable {K : Type v} [LinearOrder K] {crdt : ValueCRDT.{u}}

/-- `puller.merge(source.getUpdate(puller.getRequest(source.getHeader())))` of two maps. -/
def pull (source puller : MapCRDT K crdt) : Pulled K crdt :=
  let (asked, request) := getRequest puller (getHeader source)
  let (answered, update) := getUpdate source request
  let (merged, status) := merge asked update
  ⟨answered, merged, status⟩

/-- The update that the source sends for one of its values. -/
def pulledUpdate (puller : MapCRDT K crdt) (key : K) (value : crdt.State) : crdt.Update :=
  crdt.getUpdate value (crdt.getRequest (valueAt puller key) (crdt.getHeader value))

/-- An update with one entry for each entry of a map has one for each of its keys. -/
theorem updates_of_entries {α : Type w} (map : SortedMap K α) (change : K → α → crdt.Update)
    (key : K) :
    updatesOf key (map.entries.map fun entry => (entry.1, change entry.1 entry.2)) =
      ((map.find key).map fun value => [change key value]).getD [] := by
  have single := SortedMap.filter_flat_map map (fun k value => [(k, change k value)])
    (fun item => item.1) (fun entry _ item member => by rw [List.mem_singleton.mp member]) key
  rw [← List.map_eq_flatMap] at single
  rw [updatesOf, single]
  cases map.find key with
  | none => rfl
  | some value => rfl

/-- A merge whose entries are ascending merges each key once, from the value that
the key had before. -/
theorem merge_entries_status (update : List (K × crdt.Update))
    (ascending : update.Pairwise fun left right => left.1 < right.1)
    (values : MapCRDT K crdt) (status : MergeStatus) :
    (mergeEntries values status update).2 = .merged ↔
      status = .merged ∧
        ∀ entry ∈ update, (crdt.merge (valueAt values entry.1) entry.2).2 = .merged := by
  induction update generalizing values status with
  | nil => simp [mergeEntries]
  | cons head rest inductionHypothesis =>
    obtain ⟨key, upd⟩ := head
    obtain ⟨above, restAscending⟩ := List.pairwise_cons.mp ascending
    have undisturbed : ∀ entry ∈ rest,
        valueAt (values.insert key (crdt.merge (valueAt values key) upd).1) entry.1 =
          valueAt values entry.1 := by
      intro entry member
      rw [value_at_insert, if_neg (above entry member).ne']
    have both : (if (crdt.merge (valueAt values key) upd).2 = .skipped then .skipped else status) =
          MergeStatus.merged ↔
        status = .merged ∧ (crdt.merge (valueAt values key) upd).2 = .merged := by
      cases (crdt.merge (valueAt values key) upd).2 <;> simp
    rw [mergeEntries, inductionHypothesis restAscending, both, List.forall_mem_cons, and_assoc]
    refine and_congr_right fun _ => and_congr_right fun _ => ?_
    exact forall₂_congr fun entry member => by rw [undisturbed entry member]

/-- The pull leaves the source as it was: it is asked for its own keys. The puller
files them and merges one update for each. -/
theorem pull_eq (source puller : MapCRDT K crdt) :
    pull source puller =
      let merged := merge (filed puller (source.entries.map (·.1)))
        (source.entries.map fun entry => (entry.1, pulledUpdate puller entry.1 entry.2))
      ⟨source, merged.1, merged.2⟩ := by
  have keys : (getHeader source).map (·.1) = source.entries.map (·.1) := by
    simp [getHeader]
  have held : Holds source (getRequest puller (getHeader source)).2 := by
    rw [get_request_eq, Holds, List.forall_mem_map]
    exact holds_get_header source
  have kept : filed source ((getRequest puller (getHeader source)).2.map (·.1)) = source :=
    (filed_asked_iff source _).mpr held
  have answers : (getRequest puller (getHeader source)).2.map
        (fun entry => (entry.1, crdt.getUpdate (valueAt source entry.1) entry.2)) =
      source.entries.map fun entry => (entry.1, pulledUpdate puller entry.1 entry.2) := by
    rw [get_request_eq, getHeader, List.map_map, List.map_map]
    refine List.map_congr_left ?_
    rintro ⟨key, value⟩ member
    have found := (SortedMap.find_eq_some_iff source key value).mpr member
    simp only [Function.comp_apply, value_at_of_find found, pulledUpdate]
  have asked : (getRequest puller (getHeader source)).1 = filed puller (source.entries.map (·.1)) := by
    rw [get_request_eq, keys]
  simp only [pull, get_update_eq, kept, answers, asked]

/-- What a key holds at the puller after the pull: with a value at the source, the
pull of that value into the one the puller had. -/
theorem find_pulled (source puller : MapCRDT K crdt) (key : K) :
    (pull source puller).puller.find key =
      ((source.find key).map fun value => (crdt.pull value (valueAt puller key)).1).or
        (puller.find key) := by
  have listed : key ∈ source.entries.map (·.1) ↔ (source.find key).isSome := by
    simp only [List.mem_map, Option.isSome_iff_exists, SortedMap.find_eq_some_iff]
    constructor
    · rintro ⟨⟨_, value⟩, member, rfl⟩
      exact ⟨value, member⟩
    · rintro ⟨value, member⟩
      exact ⟨(key, value), member, rfl⟩
  rw [pull_eq, merge, find_merge_entries, updates_of_entries, find_filed]
  cases found : source.find key with
  | none =>
    rw [if_neg (by simp [listed, found])]
    rfl
  | some value =>
    rw [if_pos (by simp [listed, found])]
    rfl

/-- The pull is merged exactly when the pull of every value of the source is. -/
theorem pull_status (source puller : MapCRDT K crdt) :
    (pull source puller).status = .merged ↔
      ∀ key value, source.find key = some value →
        (crdt.pull value (valueAt puller key)).2 = .merged := by
  have ascending : (source.entries.map fun entry =>
      (entry.1, pulledUpdate puller entry.1 entry.2)).Pairwise fun left right => left.1 < right.1 :=
    List.pairwise_map.mpr source.ascending
  rw [pull_eq, merge, merge_entries_status _ ascending, List.forall_mem_map, value_at_filed]
  constructor
  · rintro ⟨_, all⟩ key value found
    exact all (key, value) ((SortedMap.find_eq_some_iff source key value).mp found)
  · intro all
    refine ⟨rfl, ?_⟩
    rintro ⟨key, value⟩ member
    exact all key value ((SortedMap.find_eq_some_iff source key value).mpr member)

/-- A complete pull lifts the pull of the value type to maps: the puller ends with
the keys of both; every key of the source holds there what the pull of its value
gives from the puller's previous one, or from the default if there was none; the
other keys keep their values; the source is unchanged; and the pull is merged
exactly when the pull of every value is. -/
theorem pull_pointwise (source puller : MapCRDT K crdt) :
    (∀ key, ((pull source puller).puller.find key).isSome ↔
      (source.find key).isSome ∨ (puller.find key).isSome) ∧
    (∀ key value, source.find key = some value →
      (pull source puller).puller.find key = some (crdt.pull value (valueAt puller key)).1) ∧
    (∀ key, source.find key = none →
      (pull source puller).puller.find key = puller.find key) ∧
    (pull source puller).source = source ∧
    ((pull source puller).status = .merged ↔ ∀ key value, source.find key = some value →
      (crdt.pull value (valueAt puller key)).2 = .merged) := by
  refine ⟨?_, ?_, ?_, ?_, pull_status source puller⟩
  · intro key
    rw [find_pulled]
    cases source.find key with
    | none => simp
    | some value => simp
  · intro key value found
    rw [find_pulled, found]
    rfl
  · intro key absent
    rw [find_pulled, absent]
    rfl
  · rw [pull_eq]

/-- A pull between maps of registers with one key in common. -/
example :
    (@pull Nat _ (Register Nat) (SortedMap.empty.insert 0 7 |>.insert 1 8)
      (SortedMap.empty.insert 1 5 |>.insert 2 6)).puller.entries = [(0, 7), (1, 8), (2, 6)] := by
  decide

end MapCRDT

end Replikon
