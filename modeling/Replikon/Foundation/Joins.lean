import Mathlib.Data.List.Perm.Basic

/-!
# Nested loops in either order

A join of two lists visits one of them in an outer and the other in an inner
loop. Which is the outer one decides the order of the result and nothing else:
every row comes once for each partner it meets.
-/

namespace Replikon.Foundation

universe u v
variable {σ : Type u} {α : Type v} (meets : σ → α → Bool)

/-- The rows that meet each of some partners, the partners in the outer loop. -/
def joined (partners : List σ) (rows : List α) : List α :=
  partners.flatMap fun partner => rows.filter (meets partner)

/-- A delivered row is one of the given rows and meets a partner. -/
theorem mem_joined (partners : List σ) (rows : List α) (row : α) :
    row ∈ joined meets partners rows ↔ row ∈ rows ∧ ∃ partner ∈ partners, meets partner row := by
  rw [joined, List.mem_flatMap]
  constructor
  · rintro ⟨partner, present, delivered⟩
    obtain ⟨member, met⟩ := List.mem_filter.mp delivered
    exact ⟨member, partner, present, met⟩
  · rintro ⟨member, partner, present, met⟩
    exact ⟨partner, present, List.mem_filter.mpr ⟨member, met⟩⟩

/-- Reordered rows are delivered in another order. -/
theorem joined_perm (partners : List σ) {left right : List α} (permuted : left.Perm right) :
    (joined meets partners left).Perm (joined meets partners right) :=
  List.Perm.flatMap_left partners fun partner _ => permuted.filter (meets partner)

/-- A selection keeps each row once or not at all. -/
theorem filter_replicates (rows : List α) (wanted : α → Bool) :
    (rows.flatMap fun row => List.replicate (if wanted row then 1 else 0) row) =
      rows.filter wanted := by
  induction rows with
  | nil => rfl
  | cons row rest inductionHypothesis =>
    rw [List.flatMap_cons, inductionHypothesis, List.filter_cons]
    cases wanted row <;> rfl

/-- With the rows in the outer loop each row is repeated for its partners. -/
theorem joined_by_rows (partners : List σ) (rows : List α) :
    (joined meets partners rows).Perm
      (rows.flatMap fun row => List.replicate (partners.countP (meets · row)) row) := by
  induction partners with
  | nil => simp [joined]
  | cons partner rest inductionHypothesis =>
    have split : ∀ row, List.replicate ((partner :: rest).countP (meets · row)) row =
        List.replicate (if meets partner row then 1 else 0) row ++
          List.replicate (rest.countP (meets · row)) row := by
      intro row
      rw [List.replicate_append_replicate, List.countP_cons, Nat.add_comm]
    simp only [split]
    refine List.Perm.trans ?_ (List.flatMap_append_perm rows _ _)
    rw [filter_replicates]
    exact inductionHypothesis.append_left _

/-- When every row meets one partner or none, the join selects the rows that
meet one. -/
theorem joined_once (partners : List σ) (rows : List α) (wanted : α → Bool)
    (once : ∀ row ∈ rows, partners.countP (meets · row) = if wanted row then 1 else 0) :
    (joined meets partners rows).Perm (rows.filter wanted) := by
  refine (joined_by_rows meets partners rows).trans ?_
  rw [← filter_replicates, List.flatMap_def, List.flatMap_def,
    List.map_congr_left fun row member => by rw [once row member]]

end Replikon.Foundation
