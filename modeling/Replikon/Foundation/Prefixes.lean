import Mathlib.Data.List.Nodup
import Mathlib.Data.List.Perm.Subperm
import Mathlib.Data.List.TakeDrop

/-!
# Completing a part of a list

Prefixes of a list whose items are told apart by a key differ by a segment. What
one prefix has and the other lacks, put after the other, gives the longer of the
two: a set difference is all that is needed to complete a prefix. Up to order it
completes any part of the list.
-/

namespace Replikon.Foundation

universe u v
variable {α : Type u} {β : Type v} [DecidableEq β] (key : α → β)

/-- The items of one prefix that are missing from another are those behind it. -/
theorem prefix_difference (whole : List α) (distinct : (whole.map key).Nodup) (first second : Nat) :
    (whole.take first).filter (fun item => key item ∉ (whole.take second).map key) =
      (whole.take first).drop second := by
  have halves : whole.take first =
      (whole.take first).take second ++ (whole.take first).drop second :=
    (List.take_append_drop _ _).symm
  have shared : ((whole.take first).take second).filter
      (fun item => key item ∉ (whole.take second).map key) = [] := by
    apply List.filter_eq_nil_iff.mpr
    intro item member
    have held : item ∈ whole.take second := by
      rw [List.take_take] at member
      exact List.take_subset_take_left whole (Nat.min_le_left _ _) member
    simpa using List.mem_map_of_mem held
  have missing : ((whole.take first).drop second).filter
      (fun item => key item ∉ (whole.take second).map key) = (whole.take first).drop second := by
    apply List.filter_eq_self.mpr
    intro item member
    have behind : item ∈ whole.drop second := by
      rw [List.drop_take] at member
      exact List.take_subset _ _ member
    have apart : ((whole.take second).map key).Disjoint ((whole.drop second).map key) := by
      rw [← List.take_append_drop second whole, List.map_append] at distinct
      exact (List.nodup_append'.mp distinct).2.2
    have absent : key item ∉ (whole.take second).map key :=
      fun held => apart held (List.mem_map_of_mem behind)
    simpa using absent
  rw [halves, List.filter_append, ← halves, shared, missing, List.nil_append]

/-- A prefix completed by what another has beyond it is the longer of the two. -/
theorem prefix_completed (whole : List α) (first second : Nat) :
    whole.take second ++ (whole.take first).drop second = whole.take (max first second) := by
  rcases Nat.le_total first second with shorter | longer
  · have none : (whole.take first).drop second = [] := by
      apply List.drop_eq_nil_iff.mpr
      exact Nat.le_trans (List.length_take_le _ _) shorter
    rw [none, List.append_nil, Nat.max_eq_right shorter]
  · rw [Nat.max_eq_left longer]
    have same : whole.take second = (whole.take first).take second := by
      rw [List.take_take, Nat.min_eq_left longer]
    rw [same, List.take_append_drop]

omit [DecidableEq β] in
/-- A part of a list, completed by the items whose keys it lacks, is the whole. -/
theorem part_completed {whole part : List α} {missing : α → Bool}
    (distinct : (whole.map key).Nodup) (inside : part.Subperm whole)
    (exactly : ∀ item ∈ whole, missing item = true ↔ key item ∉ part.map key) :
    (part ++ whole.filter missing).Perm whole := by
  have partDistinct : part.Nodup := by
    obtain ⟨same, permuted, sublist⟩ := inside
    exact permuted.nodup_iff.mp (distinct.of_map.sublist sublist)
  have apart : part.Disjoint (whole.filter missing) := by
    intro item held lacked
    obtain ⟨present, absent⟩ := List.mem_filter.mp lacked
    exact (exactly item present).mp absent (List.mem_map_of_mem held)
  have together : (part ++ whole.filter missing).Nodup :=
    List.nodup_append'.mpr ⟨partDistinct, distinct.of_map.filter _, apart⟩
  refine (List.perm_ext_iff_of_nodup together distinct.of_map).mpr fun item => ?_
  rw [List.mem_append, List.mem_filter]
  constructor
  · rintro (held | ⟨present, _⟩)
    · exact inside.subset held
    · exact present
  · intro present
    by_cases held : key item ∈ part.map key
    · obtain ⟨other, member, same⟩ := List.mem_map.mp held
      have equal := List.inj_on_of_nodup_map distinct (inside.subset member) present same
      exact .inl (equal ▸ member)
    · exact .inr ⟨present, (exactly item present).mpr held⟩

end Replikon.Foundation
