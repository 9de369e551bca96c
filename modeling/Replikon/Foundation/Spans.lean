import Mathlib.Data.Set.Basic
import Mathlib.Order.Defs.LinearOrder
import Mathlib.Order.Basic

/-!
# Ascending spans and their difference

A span is a pair of bounds, the lower one included and the upper one not. A
list of spans covers the points of its spans. It is ascending when every span
is nonempty and ends no later than the next one starts; touching spans are
allowed.

The difference laws say what becomes of the covered difference of two ascending
lists when their heads are compared. There is one law for each way two spans can
lie, and each moves points to the result, drops a head or cuts the left head;
a sweep over both lists is a repeated use of them.
-/

namespace Replikon.Foundation.Spans

universe u
variable {α : Type u} [LinearOrder α]

/-- The points of one span. -/
def Within (span : α × α) (point : α) : Prop := span.1 ≤ point ∧ point < span.2

/-- The points of some span of a list. -/
def cover (spans : List (α × α)) : Set α := {point | ∃ span ∈ spans, Within span point}

/-- Nonempty spans, each ending no later than every later one starts. -/
structure Ascending (spans : List (α × α)) : Prop where
  nonempty : ∀ span ∈ spans, span.1 < span.2
  separate : spans.Pairwise (fun left right => left.2 ≤ right.1)

theorem cover_nil : cover ([] : List (α × α)) = ∅ := by
  simp [cover]

theorem mem_cover_cons (span : α × α) (rest : List (α × α)) (point : α) :
    point ∈ cover (span :: rest) ↔ Within span point ∨ point ∈ cover rest := by
  simp [cover]

theorem cover_append (left right : List (α × α)) :
    cover (left ++ right) = cover left ∪ cover right := by
  ext point
  simp [cover, or_and_right, exists_or]

theorem ascending_nil : Ascending ([] : List (α × α)) := ⟨by simp, List.Pairwise.nil⟩

/-- A head may be put before an ascending list that starts where it ends or later. -/
theorem ascending_cons (span : α × α) (rest : List (α × α)) :
    Ascending (span :: rest) ↔
      span.1 < span.2 ∧ (∀ later ∈ rest, span.2 ≤ later.1) ∧ Ascending rest := by
  constructor
  · intro ascending
    obtain ⟨before, separate⟩ := List.pairwise_cons.mp ascending.separate
    exact ⟨ascending.nonempty span List.mem_cons_self, before,
      fun later member => ascending.nonempty later (List.mem_cons_of_mem _ member), separate⟩
  · rintro ⟨nonempty, before, rest⟩
    refine ⟨?_, List.pairwise_cons.mpr ⟨before, rest.separate⟩⟩
    intro later member
    rcases List.mem_cons.mp member with rfl | member
    · exact nonempty
    · exact rest.nonempty later member

/-- Every point of the tail lies at or after the end of the head. -/
theorem tail_after (span : α × α) (rest : List (α × α)) (ascending : Ascending (span :: rest))
    (point : α) (covered : point ∈ cover rest) : span.2 ≤ point := by
  obtain ⟨later, member, inside⟩ := covered
  exact (((ascending_cons span rest).mp ascending).2.1 later member).trans inside.1

/-- A covered point of an ascending list lies in one of its spans, once. -/
theorem within_once (spans : List (α × α)) (ascending : Ascending spans) (point : α)
    (covered : point ∈ cover spans) :
    (spans.filter fun span => span.1 ≤ point ∧ point < span.2).length = 1 := by
  induction spans with
  | nil => simp [cover_nil] at covered
  | cons span rest inductionHypothesis =>
    obtain ⟨_, _, later⟩ := (ascending_cons span rest).mp ascending
    by_cases inside : Within span point
    · have none : rest.filter (fun other => other.1 ≤ point ∧ point < other.2) = [] := by
        apply List.filter_eq_nil_iff.mpr
        intro other member within
        have after := tail_after span rest ascending point ⟨other, member, by simpa [Within] using within⟩
        exact absurd inside.2 (not_lt.mpr after)
      rw [List.filter_cons_of_pos (by simpa [Within] using inside), none]
      rfl
    · have restCovered := ((mem_cover_cons span rest point).mp covered).resolve_left inside
      rw [List.filter_cons_of_neg (by simpa [Within] using inside)]
      exact inductionHypothesis later restCovered

/-- A point that is not covered lies in no span. -/
theorem within_never (spans : List (α × α)) (point : α) (uncovered : point ∉ cover spans) :
    (spans.filter fun span => span.1 ≤ point ∧ point < span.2).length = 0 := by
  rw [List.length_eq_zero_iff, List.filter_eq_nil_iff]
  intro span member within
  exact uncovered ⟨span, member, by simpa [Within] using within⟩

/-- A span of an ascending list may be replaced by ascending spans inside it. -/
theorem ascending_replace (before pieces after : List (α × α)) (span : α × α)
    (ascending : Ascending (before ++ span :: after)) (inside : Ascending pieces)
    (bounded : ∀ piece ∈ pieces, span.1 ≤ piece.1 ∧ piece.2 ≤ span.2) :
    Ascending (before ++ (pieces ++ after)) := by
  obtain ⟨separateBefore, separateRest, across⟩ := List.pairwise_append.mp ascending.separate
  obtain ⟨separateHead, separateAfter⟩ := List.pairwise_cons.mp separateRest
  constructor
  · intro member found
    rcases List.mem_append.mp found with old | found
    · exact ascending.nonempty member (List.mem_append_left _ old)
    · rcases List.mem_append.mp found with piece | old
      · exact inside.nonempty member piece
      · exact ascending.nonempty member (List.mem_append_right _ (List.mem_cons_of_mem _ old))
  · refine List.pairwise_append.mpr ⟨separateBefore, ?_, ?_⟩
    · refine List.pairwise_append.mpr ⟨inside.separate, separateAfter, ?_⟩
      intro piece found later member
      exact (bounded piece found).2.trans (separateHead later member)
    · intro earlier member later found
      rcases List.mem_append.mp found with piece | old
      · exact (across earlier member span List.mem_cons_self).trans (bounded later piece).1
      · exact across earlier member later (List.mem_cons_of_mem _ old)

section Difference

variable {left right : α × α} {lefts rights : List (α × α)}
  (leftAscending : Ascending (left :: lefts)) (rightAscending : Ascending (right :: rights))

include rightAscending in
/-- A left head that ends before the right head starts survives whole. -/
theorem keep_head (before : left.2 ≤ right.1) :
    cover (left :: lefts) \ cover (right :: rights) =
      {point | Within left point} ∪ (cover lefts \ cover (right :: rights)) := by
  have nonempty := ((ascending_cons right rights).mp rightAscending).1
  ext point
  have after := tail_after right rights rightAscending point
  simp only [Set.mem_sdiff, Set.mem_union, Set.mem_ofPred_eq, mem_cover_cons, Within]
  grind

include leftAscending in
/-- A right head that ends before the left head starts removes nothing more. -/
theorem skip_right (before : right.2 ≤ left.1) :
    cover (left :: lefts) \ cover (right :: rights) = cover (left :: lefts) \ cover rights := by
  have nonempty := ((ascending_cons left lefts).mp leftAscending).1
  ext point
  have after := tail_after left lefts leftAscending point
  simp only [Set.mem_sdiff, mem_cover_cons, Within]
  grind

include leftAscending rightAscending in
/-- A right head inside the left head leaves a piece on each side of it. -/
theorem cut_middle (starts : left.1 < right.1) (ends : right.2 < left.2) :
    cover (left :: lefts) \ cover (right :: rights) =
      {point | Within (left.1, right.1) point} ∪ (cover ((right.2, left.2) :: lefts) \ cover rights) := by
  have nonempty := ((ascending_cons right rights).mp rightAscending).1
  ext point
  have afterLeft := tail_after left lefts leftAscending point
  have afterRight := tail_after right rights rightAscending point
  simp only [Set.mem_sdiff, Set.mem_union, Set.mem_ofPred_eq, mem_cover_cons, Within]
  grind

include rightAscending in
/-- A right head over the end of the left head leaves the piece before it. -/
theorem cut_end (meets : right.1 < left.2) (ends : left.2 ≤ right.2) :
    cover (left :: lefts) \ cover (right :: rights) =
      {point | Within (left.1, right.1) point} ∪ (cover lefts \ cover (right :: rights)) := by
  ext point
  have afterRight := tail_after right rights rightAscending point
  simp only [Set.mem_sdiff, Set.mem_union, Set.mem_ofPred_eq, mem_cover_cons, Within]
  grind

/-- A left head inside the right head is removed whole. -/
theorem drop_head (starts : right.1 ≤ left.1) (ends : left.2 ≤ right.2) :
    cover (left :: lefts) \ cover (right :: rights) = cover lefts \ cover (right :: rights) := by
  ext point
  simp only [Set.mem_sdiff, mem_cover_cons, Within]
  grind

include leftAscending in
/-- A right head over the start of the left head leaves the piece after it. -/
theorem cut_start (starts : right.1 ≤ left.1) (meets : left.1 < right.2) (ends : right.2 < left.2) :
    cover (left :: lefts) \ cover (right :: rights) =
      cover ((right.2, left.2) :: lefts) \ cover rights := by
  ext point
  have afterLeft := tail_after left lefts leftAscending point
  simp only [Set.mem_sdiff, mem_cover_cons, Within]
  grind

end Difference

end Replikon.Foundation.Spans
