import Replikon.Foundation.Spans
import Replikon.Model.Intervals

/-!
# The interval sweep computes the set difference

An interval is read as a span of natural numbers. On well-formed lists, whose
intervals are nonempty, ascending and inside the 64-bit range, no sum or
difference of the sweep wraps, and each iteration is one of the difference laws
for spans. The loop invariant says that the numbers already in the result
together with those still to be separated are those of the wanted difference.
-/

namespace Replikon

open Foundation

/-- The numbers of an interval as a span. -/
def Interval.span (interval : Interval) : Nat × Nat :=
  (interval.start.toNat, interval.start.toNat + interval.len.toNat)

/-- The numbers of a list of intervals. -/
def covered (intervals : List Interval) : Set Nat := Spans.cover (intervals.map Interval.span)

/-- Nonempty, ascending and non-overlapping intervals that end at `2^64` or before. -/
structure WellFormed (intervals : List Interval) : Prop where
  bounded : ∀ interval ∈ intervals, interval.start.toNat + interval.len.toNat ≤ 2 ^ 64
  ascending : Spans.Ascending (intervals.map Interval.span)

theorem well_formed_nil : WellFormed [] := ⟨by simp, Spans.ascending_nil⟩

/-- The tail of a well-formed list is well-formed. -/
theorem WellFormed.tail {head : Interval} {rest : List Interval}
    (wellFormed : WellFormed (head :: rest)) : WellFormed rest :=
  ⟨fun interval member => wellFormed.bounded interval (List.mem_cons_of_mem _ member),
    ((Spans.ascending_cons _ _).mp wellFormed.ascending).2.2⟩

/-- A part of a well-formed list is well-formed. -/
theorem WellFormed.sublist {part whole : List Interval} (wellFormed : WellFormed whole)
    (sublist : part.Sublist whole) : WellFormed part :=
  ⟨fun interval member => wellFormed.bounded interval (sublist.subset member),
    fun span member => wellFormed.ascending.nonempty span ((sublist.map _).subset member),
    wellFormed.ascending.separate.sublist (sublist.map _)⟩

/-- The intervals of a well-formed list are nonempty. -/
theorem WellFormed.len_pos {intervals : List Interval} (wellFormed : WellFormed intervals)
    (interval : Interval) (member : interval ∈ intervals) : 0 < interval.len.toNat := by
  have nonempty := wellFormed.ascending.nonempty interval.span (List.mem_map_of_mem member)
  simp only [Interval.span] at nonempty
  omega

/-- The computed last number of an interval, with both of its wraps. -/
theorem Interval.last_value (interval : Interval) :
    interval.last.toNat =
      (2 ^ 64 - 1 + (interval.start.toNat + interval.len.toNat) % 2 ^ 64) % 2 ^ 64 := by
  simp [Interval.last, UInt64.toNat_sub, UInt64.toNat_add]

/-- The computed last number of a nonempty interval inside the range is the one
before its end. -/
theorem Interval.last_exact (interval : Interval) (nonempty : 0 < interval.len.toNat)
    (bounded : interval.start.toNat + interval.len.toNat ≤ 2 ^ 64) :
    interval.last.toNat + 1 = interval.start.toNat + interval.len.toNat := by
  have wrapped := interval.last_value
  omega

/-- A well-formed list passes the guard. -/
theorem WellFormed.monotonic {intervals : List Interval} (wellFormed : WellFormed intervals) :
    isMonotonicNonColliding intervals = true := by
  induction intervals with
  | nil => rfl
  | cons current rest inductionHypothesis =>
    cases rest with
    | nil => rfl
    | cons next rest =>
      have nonempty := wellFormed.len_pos current List.mem_cons_self
      have last := current.last_exact nonempty (wellFormed.bounded current List.mem_cons_self)
      have before : current.span.2 ≤ next.span.1 :=
        ((Spans.ascending_cons _ _).mp wellFormed.ascending).2.1 next.span (by simp)
      have lenNonzero : current.len ≠ 0 := by
        intro zero
        simp [zero] at nonempty
      have apart : ¬ next.start ≤ current.last := by
        simp only [Interval.span] at before
        rw [UInt64.le_iff_toNat_le]
        omega
      simp only [isMonotonicNonColliding, lenNonzero, apart, if_false]
      exact inductionHypothesis wellFormed.tail

section Pieces

variable {a b : Interval} (aLast : a.last.toNat + 1 = a.start.toNat + a.len.toNat)
  (bLast : b.last.toNat + 1 = b.start.toNat + b.len.toNat)

/-- The piece of `a` before `b`. -/
theorem left_piece_span (starts : a.start.toNat < b.start.toNat) :
    (Interval.mk a.start (b.start - a.start)).span = (a.span.1, b.span.1) := by
  have length : (b.start - a.start).toNat = b.start.toNat - a.start.toNat :=
    UInt64.toNat_sub_of_le _ _ (UInt64.le_iff_toNat_le.mpr (by omega))
  simp only [Interval.span, length, Prod.mk.injEq, true_and]
  omega

include aLast bLast in
/-- The piece of `a` after `b`. -/
theorem right_piece_span (ends : b.last.toNat < a.last.toNat) :
    (Interval.mk (b.last + 1) (a.last - b.last)).span = (b.span.2, a.span.2) := by
  have bound := a.last.toNat_lt
  have start : (b.last + 1).toNat = b.last.toNat + 1 := by
    rw [UInt64.toNat_add]
    simp only [UInt64.toNat_one]
    omega
  have length : (a.last - b.last).toNat = a.last.toNat - b.last.toNat :=
    UInt64.toNat_sub_of_le _ _ (UInt64.le_iff_toNat_le.mpr (by omega))
  simp only [Interval.span, start, length, Prod.mk.injEq]
  omega

end Pieces

/-- What holds whenever the loop condition is tested: both remainders are
well-formed, the result so far lies in order before the remainder of `a`, and
nothing has been lost. -/
structure Sweep.Invariant (a b : List Interval) (sweep : Sweep) : Prop where
  done : WellFormed (sweep.result ++ sweep.a)
  right : WellFormed sweep.b
  exact : covered sweep.result ∪ (covered sweep.a \ covered sweep.b) = covered a \ covered b
  count : sweep.result.length + sweep.a.length + sweep.b.length ≤ a.length + b.length

/-- The remainder of `a` is well-formed. -/
theorem Sweep.Invariant.left {a b : List Interval} {sweep : Sweep}
    (invariant : sweep.Invariant a b) : WellFormed sweep.a :=
  invariant.done.sublist (List.sublist_append_right _ _)

theorem covered_cons (interval : Interval) (rest : List Interval) :
    covered (interval :: rest) = {point | Spans.Within interval.span point} ∪ covered rest := by
  ext point
  simp [covered, Spans.mem_cover_cons]

theorem covered_append (left right : List Interval) :
    covered (left ++ right) = covered left ∪ covered right := by
  simp [covered, Spans.cover_append]

theorem covered_nil : covered [] = ∅ := by
  simp [covered, Spans.cover_nil]

/-- Replacing the head of the remainder by pieces of it, some of them moved to
the result, keeps the whole in order. -/
theorem replace_head {result pieces rest : List Interval} {head : Interval}
    (done : WellFormed (result ++ head :: rest)) (inside : WellFormed pieces)
    (bounded : ∀ piece ∈ pieces, head.span.1 ≤ piece.span.1 ∧ piece.span.2 ≤ head.span.2) :
    WellFormed (result ++ (pieces ++ rest)) := by
  constructor
  · intro interval member
    rcases List.mem_append.mp member with old | member
    · exact done.bounded interval (List.mem_append_left _ old)
    · rcases List.mem_append.mp member with piece | old
      · exact inside.bounded interval piece
      · exact done.bounded interval (List.mem_append_right _ (List.mem_cons_of_mem _ old))
  · have ascending := done.ascending
    simp only [List.map_append, List.map_cons] at ascending ⊢
    refine Spans.ascending_replace _ _ _ _ ascending inside.ascending ?_
    intro piece member
    obtain ⟨interval, found, rfl⟩ := List.mem_map.mp member
    exact bounded interval found

/-- A nonempty interval inside the range is well-formed by itself. -/
theorem well_formed_singleton (interval : Interval) (span : interval.span.1 < interval.span.2)
    (bounded : interval.span.2 ≤ 2 ^ 64) : WellFormed [interval] :=
  ⟨by simpa [Interval.span] using bounded, by simpa using span, by simp⟩

/-- Two nonempty intervals in order inside the range are well-formed. -/
theorem well_formed_pair (first second : Interval) (firstSpan : first.span.1 < first.span.2)
    (order : first.span.2 ≤ second.span.1) (secondSpan : second.span.1 < second.span.2)
    (bounded : second.span.2 ≤ 2 ^ 64) : WellFormed [first, second] := by
  refine ⟨?_, ?_, by simpa using order⟩
  · simp only [List.mem_cons, List.not_mem_nil, or_false, forall_eq_or_imp, forall_eq]
    simp only [Interval.span] at *
    omega
  · simp only [List.map_cons, List.map_nil, List.mem_cons, List.not_mem_nil, or_false,
      forall_eq_or_imp, forall_eq]
    exact ⟨firstSpan, secondSpan⟩

/-- One iteration replaces the first interval of `a` by pieces of it, moves some
of them to the result and may pass intervals of `b`. The invariant is kept when
no number changes sides and the pieces are not too many. -/
theorem Sweep.Invariant.move {a b result as bs bs' : List Interval} {head : Interval}
    (invariant : Sweep.Invariant a b ⟨head :: as, bs, result⟩) (moved kept : List Interval)
    (passed : bs'.Sublist bs) (pieces : WellFormed (moved ++ kept))
    (inside : ∀ piece ∈ moved ++ kept, head.span.1 ≤ piece.span.1 ∧ piece.span.2 ≤ head.span.2)
    (law : covered (head :: as) \ covered bs =
      covered moved ∪ (covered (kept ++ as) \ covered bs'))
    (few : moved.length + kept.length + bs'.length ≤ bs.length + 1) :
    Sweep.Invariant a b ⟨kept ++ as, bs', result ++ moved⟩ := by
  obtain ⟨done, right, exactly, count⟩ := invariant
  refine ⟨?_, right.sublist passed, ?_, ?_⟩
  · have replaced := replace_head done pieces inside
    simpa only [List.append_assoc] using replaced
  · rw [← exactly, law, covered_append, Set.union_assoc]
  · simp only [List.length_append, List.length_cons] at count ⊢
    omega

/-- Every iteration keeps the invariant. The cases are those of the source; each
uses the difference law of the same shape. -/
theorem Sweep.step_keeps (a b : List Interval) (sweep : Sweep)
    (invariant : sweep.Invariant a b) : sweep.step.Invariant a b := by
  obtain ⟨as, bs, result⟩ := sweep
  cases as with
  | nil => exact invariant
  | cons head as =>
    have left : WellFormed (head :: as) := invariant.left
    have headSpan := left.ascending.nonempty head.span (by simp)
    have headBound := left.bounded head List.mem_cons_self
    have whole : WellFormed [head] := well_formed_singleton head headSpan headBound
    cases bs with
    | nil =>
      refine invariant.move [head] [] (List.Sublist.refl _) (by simpa using whole) (by simp) ?_
        (by simp)
      simp [covered_cons, covered_nil]
    | cons other bs =>
      have right : WellFormed (other :: bs) := invariant.right
      have otherSpan := right.ascending.nonempty other.span (by simp)
      have otherBound := right.bounded other List.mem_cons_self
      have headLast := head.last_exact (left.len_pos head List.mem_cons_self) headBound
      have otherLast := other.last_exact (right.len_pos other List.mem_cons_self) otherBound
      have same : List.Sublist (other :: bs) (other :: bs) := List.Sublist.refl _
      have passed : List.Sublist bs (other :: bs) := List.sublist_cons_self _ _
      have headEnd : head.span.2 = head.last.toNat + 1 := headLast.symm
      have otherEnd : other.span.2 = other.last.toNat + 1 := otherLast.symm
      have headStart : head.span.1 = head.start.toNat := rfl
      have otherStart : other.span.1 = other.start.toNat := rfl
      simp only [Sweep.step, UInt64.lt_iff_toNat_lt, UInt64.le_iff_toNat_le]
      split
      next before =>
        refine invariant.move [head] [] same (by simpa using whole) (by simp) ?_
          (by simp only [List.length_cons, List.length_nil]; omega)
        rw [covered_cons head [], covered_nil, Set.union_empty]
        exact Spans.keep_head right.ascending (by omega)
      split
      next notBefore after =>
        have moved := invariant.move [] [head] passed whole (by simp) ?_
          (by simp only [List.length_cons, List.length_nil]; omega)
        · simpa using moved
        · rw [covered_nil, Set.empty_union]
          exact Spans.skip_right left.ascending (by omega)
      split
      next notBefore notAfter starts =>
        have leftPiece := left_piece_span starts
        split
        next ends =>
          have rightPiece := right_piece_span headLast otherLast ends
          refine invariant.move [_] [_] passed ?_ ?_ ?_
            (by simp only [List.length_cons, List.length_nil]; omega)
          · refine well_formed_pair _ _ ?_ ?_ ?_ ?_ <;> simp only [leftPiece, rightPiece]
            all_goals omega
          · simp only [List.cons_append, List.nil_append, List.mem_cons, List.not_mem_nil,
              or_false, forall_eq_or_imp, forall_eq, leftPiece, rightPiece]
            omega
          · rw [covered_cons _ [], covered_nil, Set.union_empty, leftPiece]
            simp only [covered, List.cons_append, List.nil_append, List.map_cons, rightPiece]
            exact Spans.cut_middle left.ascending right.ascending (by omega) (by omega)
        next ends =>
          refine invariant.move [_] [] same ?_ ?_ ?_
            (by simp only [List.length_cons, List.length_nil]; omega)
          · refine well_formed_singleton _ ?_ ?_ <;> simp only [leftPiece]
            all_goals omega
          · simp only [List.append_nil, List.mem_cons, List.not_mem_nil, or_false, forall_eq,
              leftPiece]
            omega
          · rw [covered_cons _ [], covered_nil, Set.union_empty, leftPiece]
            exact Spans.cut_end right.ascending (by omega) (by omega)
      next notBefore notAfter starts =>
        split
        next ends =>
          have moved := invariant.move [] [] same well_formed_nil (by simp) ?_
            (by simp only [List.length_cons, List.length_nil]; omega)
          · simpa using moved
          · rw [covered_nil, Set.empty_union]
            exact Spans.drop_head (by omega) (by omega)
        next ends =>
          have rightPiece := right_piece_span headLast otherLast (by omega)
          have moved := invariant.move [] [⟨other.last + 1, head.last - other.last⟩] passed ?_ ?_
            ?_ (by simp only [List.length_cons, List.length_nil]; omega)
          · simpa using moved
          · refine well_formed_singleton _ ?_ ?_ <;> simp only [rightPiece]
            all_goals omega
          · simp only [List.nil_append, List.mem_cons, List.not_mem_nil, or_false, forall_eq,
              rightPiece]
            omega
          · rw [covered_nil, Set.empty_union]
            simp only [covered, List.cons_append, List.nil_append, List.map_cons, rightPiece]
            exact Spans.cut_start left.ascending (by omega) (by omega) (by omega)

/-- Every iteration that runs passes one interval of `a` or of `b`, on any input. -/
theorem Sweep.step_measure (sweep : Sweep) (running : sweep.a ≠ []) :
    sweep.step.a.length + sweep.step.b.length + 1 = sweep.a.length + sweep.b.length := by
  obtain ⟨as, bs, result⟩ := sweep
  cases as with
  | nil => exact absurd rfl running
  | cons head as =>
    cases bs with
    | nil => simp [Sweep.step]
    | cons other bs =>
      simp only [Sweep.step]
      split_ifs <;> simp only [List.length_cons] <;> omega

/-- An ended loop stays as it is. -/
theorem Sweep.step_ended (sweep : Sweep) (ended : sweep.a = []) : sweep.step = sweep := by
  obtain ⟨as, bs, result⟩ := sweep
  simp only at ended
  subst ended
  rfl

/-- The loop ends within its bound, on any input. -/
theorem Sweep.loop_ends (count : Nat) (sweep : Sweep)
    (enough : sweep.a.length + sweep.b.length ≤ count) : (Sweep.step^[count] sweep).a = [] := by
  induction count generalizing sweep with
  | zero =>
    apply List.length_eq_zero_iff.mp
    simp only [Function.iterate_zero, id_eq]
    omega
  | succ count inductionHypothesis =>
    by_cases ended : sweep.a = []
    · rw [Function.iterate_fixed (sweep.step_ended ended) (count + 1)]
      exact ended
    · have measure := sweep.step_measure ended
      rw [Function.iterate_succ_apply]
      exact inductionHypothesis sweep.step (by omega)

/-- The loop keeps the invariant. -/
theorem Sweep.loop_keeps (a b : List Interval) (count : Nat) (sweep : Sweep)
    (invariant : sweep.Invariant a b) : (Sweep.step^[count] sweep).Invariant a b := by
  induction count generalizing sweep with
  | zero => exact invariant
  | succ count inductionHypothesis =>
    rw [Function.iterate_succ_apply]
    exact inductionHypothesis sweep.step (sweep.step_keeps a b invariant)

/-- On well-formed lists the sweep returns the exact difference, as a well-formed
list of no more intervals than both lists have together. -/
theorem sweep_all_exact (a b : List Interval) (left : WellFormed a) (right : WellFormed b) :
    WellFormed (sweepAll a b) ∧ covered (sweepAll a b) = covered a \ covered b ∧
      (sweepAll a b).length ≤ a.length + b.length := by
  have start : Sweep.Invariant a b ⟨a, b, []⟩ :=
    ⟨by simpa using left, right, by simp [covered_nil], by simp⟩
  have final := Sweep.loop_keeps a b (a.length + b.length) _ start
  have ended := Sweep.loop_ends (a.length + b.length) ⟨a, b, []⟩ le_rfl
  obtain ⟨done, _, exactly, count⟩ := final
  rw [ended] at done exactly count
  simp only [List.length_nil] at count
  unfold sweepAll
  exact ⟨by simpa using done, by simpa [covered_nil] using exactly, by omega⟩

end Replikon
