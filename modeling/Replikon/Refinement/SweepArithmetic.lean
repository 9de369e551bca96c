import Replikon.Refinement.IntervalDifference

/-!
# The arithmetic of the interval sweep

The unsigned operations that the iterations evaluate on well-formed lists. The
only ones that wrap are the two of `start + len - 1`, for an interval that ends
at `2^64` exactly: the sum wraps to zero and the difference back to `2^64 - 1`,
so the computed end is the right one all the same.
-/

namespace Replikon

open Foundation

/-- The lists under the iterators stay well-formed through every iteration. -/
theorem sweep_well_formed (a b : List Interval) (left : WellFormed a) (right : WellFormed b)
    (count : Nat) :
    WellFormed (Sweep.step^[count] ⟨a, b, []⟩).a ∧ WellFormed (Sweep.step^[count] ⟨a, b, []⟩).b := by
  have start : Sweep.Invariant a b ⟨a, b, []⟩ :=
    ⟨by simpa using left, right, by simp [covered_nil], by simp⟩
  have kept := Sweep.loop_keeps a b count _ start
  exact ⟨kept.left, kept.right⟩

/-- The compared intervals are nonempty and end at `2^64` or before. -/
theorem compared_bounds (sweep : Sweep) (left : WellFormed sweep.a) (right : WellFormed sweep.b)
    (interval : Interval) (member : interval ∈ sweep.compared) :
    0 < interval.len.toNat ∧ interval.start.toNat + interval.len.toNat ≤ 2 ^ 64 := by
  have listed : interval ∈ sweep.a ∨ interval ∈ sweep.b := by
    obtain ⟨as, bs, result⟩ := sweep
    cases as with
    | nil => simp [Sweep.compared] at member
    | cons a as =>
      cases bs with
      | nil => simp [Sweep.compared] at member
      | cons b bs =>
        simp only [Sweep.compared, List.mem_cons, List.not_mem_nil, or_false] at member
        exact member.imp (fun same => by simp [same]) (fun same => by simp [same])
  rcases listed with inside | inside
  · exact ⟨left.len_pos interval inside, left.bounded interval inside⟩
  · exact ⟨right.len_pos interval inside, right.bounded interval inside⟩

/-- Both operations of an end wrap when the interval ends at `2^64`; otherwise
neither does. -/
theorem last_operations_wrap_iff (interval : Interval) (nonempty : 0 < interval.len.toNat)
    (bounded : interval.start.toNat + interval.len.toNat ≤ 2 ^ 64) (operation : Operation)
    (member : operation ∈ interval.lastOperations) :
    operation.Wraps ↔ interval.start.toNat + interval.len.toNat = 2 ^ 64 := by
  have sum : (interval.start + interval.len).toNat =
      (interval.start.toNat + interval.len.toNat) % 2 ^ 64 := UInt64.toNat_add _ _
  simp only [Interval.lastOperations, List.mem_cons, List.not_mem_nil, or_false] at member
  rcases member with rfl | rfl
  · simp only [Operation.Wraps]
    omega
  · simp only [Operation.Wraps, sum, UInt64.toNat_one]
    omega

/-- The pieces are computed without wrapping: every branch has compared the
operands the right way round, and an end below another one has a successor. -/
theorem piece_operations_exact (sweep : Sweep) (operation : Operation)
    (member : operation ∈ sweep.pieceOperations) : ¬ operation.Wraps := by
  have cut : ∀ a b : Interval, b.last.toNat < a.last.toNat →
      operation ∈ [Operation.sum b.last 1, .difference a.last b.last] → ¬ operation.Wraps := by
    intro a b ends listed
    have bound := a.last.toNat_lt
    simp only [List.mem_cons, List.not_mem_nil, or_false] at listed
    rcases listed with rfl | rfl <;> simp only [Operation.Wraps, UInt64.toNat_one] <;> omega
  have before : ∀ a b : Interval, a.start.toNat < b.start.toNat →
      ¬ (Operation.difference b.start a.start).Wraps := by
    intro a b starts
    simp only [Operation.Wraps]
    omega
  obtain ⟨as, bs, result⟩ := sweep
  cases as with
  | nil => simp [Sweep.pieceOperations] at member
  | cons a as =>
    cases bs with
    | nil => simp [Sweep.pieceOperations] at member
    | cons b bs =>
      simp only [Sweep.pieceOperations, UInt64.lt_iff_toNat_lt, UInt64.le_iff_toNat_le] at member
      split at member
      · simp at member
      split at member
      · simp at member
      split at member
      next starts =>
        split at member
        next ends =>
          rcases List.mem_cons.mp member with rfl | cutting
          · exact before a b starts
          · exact cut a b ends cutting
        next ends =>
          rw [List.mem_singleton.mp member]
          exact before a b starts
      next starts =>
        split at member
        · simp at member
        next ends => exact cut a b (by omega) member

/-- Exactly the operations behind an end at `2^64` wrap in an iteration. -/
theorem operations_wrap_iff (sweep : Sweep) (left : WellFormed sweep.a)
    (right : WellFormed sweep.b) (operation : Operation) (member : operation ∈ sweep.operations) :
    operation.Wraps ↔ ∃ interval ∈ sweep.compared, operation ∈ interval.lastOperations ∧
      interval.start.toNat + interval.len.toNat = 2 ^ 64 := by
  constructor
  · intro wraps
    rcases List.mem_append.mp member with ending | piece
    · obtain ⟨interval, compared, listed⟩ := List.mem_flatMap.mp ending
      obtain ⟨nonempty, bounded⟩ := compared_bounds sweep left right interval compared
      exact ⟨interval, compared, listed,
        (last_operations_wrap_iff interval nonempty bounded operation listed).mp wraps⟩
    · exact absurd wraps (piece_operations_exact sweep operation piece)
  · rintro ⟨interval, compared, listed, ends⟩
    obtain ⟨nonempty, bounded⟩ := compared_bounds sweep left right interval compared
    exact (last_operations_wrap_iff interval nonempty bounded operation listed).mpr ends

/-- On well-formed lists `intervalsDifference` returns, after a bounded number of
iterations, the exact difference as a well-formed list of no more intervals than
both lists have together. The only operations that wrap on the way are the two
that compute the end of an interval ending at `2^64`, and every computed end is
the exact one. -/
theorem intervals_difference_exact (replica : Replica) (a b : List Interval)
    (left : WellFormed a) (right : WellFormed b) :
    ∃ result, (intervalsDifference a b).run replica = .ok result replica ∧
      (Sweep.step^[a.length + b.length] ⟨a, b, []⟩).a = [] ∧
      covered result = covered a \ covered b ∧ WellFormed result ∧
      result.length ≤ a.length + b.length ∧
      ∀ count,
        (∀ operation ∈ (Sweep.step^[count] ⟨a, b, []⟩).operations,
          operation.Wraps ↔ ∃ interval ∈ (Sweep.step^[count] ⟨a, b, []⟩).compared,
            operation ∈ interval.lastOperations ∧
              interval.start.toNat + interval.len.toNat = 2 ^ 64) ∧
        ∀ interval ∈ (Sweep.step^[count] ⟨a, b, []⟩).compared,
          interval.last.toNat + 1 = interval.start.toNat + interval.len.toNat := by
  obtain ⟨wellFormed, exactly, few⟩ := sweep_all_exact a b left right
  refine ⟨sweepAll a b, ?_, Sweep.loop_ends _ _ le_rfl, exactly, wellFormed, few, ?_⟩
  · rw [intervals_difference_run, left.monotonic, right.monotonic]
    simp
  · intro count
    obtain ⟨leftNow, rightNow⟩ := sweep_well_formed a b left right count
    refine ⟨operations_wrap_iff _ leftNow rightNow, ?_⟩
    intro interval compared
    obtain ⟨nonempty, bounded⟩ := compared_bounds _ leftNow rightNow interval compared
    exact interval.last_exact nonempty bounded

/-- The interval of the last number alone. -/
def lastNumber : Interval := ⟨0xFFFFFFFFFFFFFFFF, 1⟩

theorem last_number_well_formed : WellFormed [lastNumber] :=
  well_formed_singleton _ (by decide) (by decide)

/-- The interval of the first number alone. -/
def firstNumber : Interval := ⟨0, 1⟩

theorem first_number_well_formed : WellFormed [firstNumber] :=
  well_formed_singleton _ (by decide) (by decide)

/-- A replica for runs that do not depend on it. -/
def plainReplica : Replica :=
  Replica.fresh false [] (List.Vector.replicate 32 0) (List.Vector.replicate 64 0) []

/-- Three intervals, the last of which ends with the last number. -/
def threeIntervals : List Interval := [⟨1, 5⟩, ⟨10, 10⟩, ⟨0xFFFFFFFFFFFFFFF0, 16⟩]

/-- Intervals that begin before, inside and behind the end of these. -/
def fourIntervals : List Interval := [⟨0, 3⟩, ⟨12, 2⟩, ⟨18, 100⟩, ⟨0xFFFFFFFFFFFFFFF8, 2⟩]

/-- What the first leave when the second are taken away. -/
def leftIntervals : List Interval :=
  [⟨3, 3⟩, ⟨10, 2⟩, ⟨14, 4⟩, ⟨0xFFFFFFFFFFFFFFF0, 8⟩, ⟨0xFFFFFFFFFFFFFFFA, 6⟩]

theorem intervals_difference_exact_sample :
    (intervalsDifference threeIntervals fourIntervals).run plainReplica =
        .ok leftIntervals plainReplica ∧
      covered leftIntervals = covered threeIntervals \ covered fourIntervals ∧
      WellFormed leftIntervals := by
  obtain ⟨result, returned, _, exactly, wellFormed, _⟩ := intervals_difference_exact plainReplica
    threeIntervals fourIntervals ⟨by decide, by decide, by decide⟩
    ⟨by decide, by decide, by decide⟩
  have computed : (intervalsDifference threeIntervals fourIntervals).run plainReplica =
      .ok leftIntervals plainReplica := rfl
  rw [computed] at returned
  injection returned with same
  subst same
  exact ⟨computed, exactly, wellFormed⟩

/-- The sum in the end of the last number's interval wraps in the first iteration. -/
theorem last_number_wraps :
    ¬ ∀ a b : List Interval, WellFormed a → WellFormed b →
      (Sweep.step^[a.length + b.length] ⟨a, b, []⟩).a = [] ∧
      (∀ count, ∀ operation ∈ (Sweep.step^[count] ⟨a, b, []⟩).operations, ¬ operation.Wraps) ∧
      covered (sweepAll a b) = covered a \ covered b ∧ WellFormed (sweepAll a b) ∧
      (sweepAll a b).length ≤ a.length + b.length := by
  intro claimed
  obtain ⟨_, never, _⟩ := claimed [lastNumber] [firstNumber] last_number_well_formed
    first_number_well_formed
  have unwrapped := never 0 (.sum lastNumber.start lastNumber.len) (by decide)
  exact unwrapped (by simp only [Operation.Wraps]; decide)

end Replikon
