import Mathlib.Data.List.Chain
import Replikon.Refinement.SweepArithmetic

/-!
# What the guard of the interval sweep accepts

`isMonotonicNonColliding` looks at each interval with the one after it. It
never looks at the length of the last one, and it compares an end that is
computed with wrapping. Two faults of a list have no test of their own: an empty
last interval, and an interval that reaches past the 64-bit range. A list with
such a fault is accepted unless some neighbours in it are refused for their own
sake.
-/

namespace Replikon

open Foundation

/-- Two neighbours that are refused: the first is empty, or ends inside the range
but after the second starts, or passes the range by more than that start. -/
def Refused (first second : Interval) : Prop :=
  first.len = 0 ∨ (second.span.1 < first.span.2 ∧ first.span.2 ≤ 2 ^ 64) ∨
    2 ^ 64 + second.span.1 < first.span.2

/-- The faults without a test of their own: an empty last interval, and an
interval that reaches past the range. -/
def Untested (intervals : List Interval) : Prop :=
  (∃ last ∈ intervals.getLast?, last.len = 0) ∨ ∃ interval ∈ intervals, 2 ^ 64 < interval.span.2

/-- If the list has such a fault, then some neighbours in it are refused. -/
def FaultsRefused (intervals : List Interval) : Prop :=
  Untested intervals → ∃ before first second after,
    intervals = before ++ first :: second :: after ∧ Refused first second

/-- The comparison of the source, without the wrapping: an empty first interval
is refused before its end is looked at. -/
theorem refused_iff (first second : Interval) :
    Refused first second ↔ first.len = 0 ∨ second.start ≤ first.last := by
  have startBound := first.start.toNat_lt
  have lenBound := first.len.toNat_lt
  have secondBound := second.start.toNat_lt
  have last := first.last_value
  rw [Refused, UInt64.le_iff_toNat_le]
  by_cases empty : first.len = 0
  · exact iff_of_true (.inl empty) (.inl empty)
  · have nonempty : first.len.toNat ≠ 0 := fun zero => empty (UInt64.toNat_inj.mp zero)
    refine or_congr Iff.rfl ?_
    simp only [Interval.span]
    omega

/-- The guard accepts a list exactly when no neighbours in it are refused. -/
theorem monotonic_iff (intervals : List Interval) :
    isMonotonicNonColliding intervals = true ↔
      intervals.IsChain fun first second => ¬ Refused first second := by
  induction intervals with
  | nil => simp [isMonotonicNonColliding]
  | cons current rest inductionHypothesis =>
    cases rest with
    | nil => simp [isMonotonicNonColliding]
    | cons next rest =>
      rw [List.isChain_cons_cons, ← inductionHypothesis, refused_iff, isMonotonicNonColliding]
      by_cases empty : current.len = 0
      · simp [empty]
      · by_cases collides : next.start ≤ current.last
        · simp [empty, collides]
        · simp [empty, collides]

/-- A refused list has refused neighbours at some place. -/
theorem not_monotonic_iff (intervals : List Interval) :
    ¬ isMonotonicNonColliding intervals = true ↔ ∃ before first second after,
      intervals = before ++ first :: second :: after ∧ Refused first second := by
  rw [monotonic_iff, List.isChain_iff_forall_rel_of_append_cons_cons]
  constructor
  · intro broken
    by_contra none
    refine broken ?_
    intro first second before after split refused
    exact none ⟨before, first, second, after, split, refused⟩
  · rintro ⟨before, first, second, after, split, refused⟩ accepted
    exact accepted split refused

/-- A well-formed list may be extended in front by a nonempty interval that ends
before the list starts. -/
theorem WellFormed.cons {current next : Interval} {rest : List Interval}
    (wellFormed : WellFormed (next :: rest)) (nonempty : current.span.1 < current.span.2)
    (before : current.span.2 ≤ next.span.1) : WellFormed (current :: next :: rest) := by
  obtain ⟨nextSpan, later, _⟩ := (Spans.ascending_cons _ _).mp wellFormed.ascending
  constructor
  · intro interval member
    rcases List.mem_cons.mp member with rfl | member
    · exact before.trans next.start.toNat_lt.le
    · exact wellFormed.bounded interval member
  · refine (Spans.ascending_cons _ _).mpr ⟨nonempty, ?_, wellFormed.ascending⟩
    intro span member
    rcases List.mem_cons.mp member with rfl | member
    · exact before
    · exact (before.trans nextSpan.le).trans (later span member)

/-- An interval with a length has a nonempty span. -/
theorem Interval.span_of_len (interval : Interval) (nonzero : interval.len ≠ 0) :
    interval.span.1 < interval.span.2 := by
  have length : interval.len.toNat ≠ 0 := fun zero => nonzero (UInt64.toNat_inj.mp zero)
  simp only [Interval.span]
  omega

/-- A fault behind the first interval is one of the whole list. -/
theorem Untested.cons {current next : Interval} {rest : List Interval}
    (untested : Untested (next :: rest)) : Untested (current :: next :: rest) := by
  rcases untested with ⟨last, isLast, empty⟩ | ⟨interval, member, past⟩
  · exact .inl ⟨last, by simpa using isLast, empty⟩
  · exact .inr ⟨interval, List.mem_cons_of_mem _ member, past⟩

/-- A well-formed list has no fault. -/
theorem WellFormed.tested {intervals : List Interval} (wellFormed : WellFormed intervals) :
    ¬ Untested intervals := by
  rintro (⟨last, isLast, empty⟩ | ⟨interval, member, past⟩)
  · have nonempty := wellFormed.len_pos last (List.mem_of_getLast? isLast)
    simp [empty] at nonempty
  · exact absurd past (not_lt.mpr (wellFormed.bounded interval member))

/-- The well-formed lists are the accepted ones without an untested fault. An
interval with one after it is judged by the guard, the last one by its lack of
faults. -/
theorem well_formed_iff (intervals : List Interval) :
    WellFormed intervals ↔ isMonotonicNonColliding intervals = true ∧ ¬ Untested intervals := by
  constructor
  · intro wellFormed
    exact ⟨wellFormed.monotonic, wellFormed.tested⟩
  · rintro ⟨accepted, tested⟩
    induction intervals with
    | nil => exact well_formed_nil
    | cons current rest inductionHypothesis =>
      have bounded : current.span.2 ≤ 2 ^ 64 := by
        by_contra past
        exact tested (.inr ⟨current, List.mem_cons_self, not_le.mp past⟩)
      cases rest with
      | nil =>
        have nonzero : current.len ≠ 0 := fun empty => tested (.inl ⟨current, rfl, empty⟩)
        exact well_formed_singleton current (current.span_of_len nonzero) bounded
      | cons next rest =>
        obtain ⟨apart, acceptedRest⟩ := List.isChain_cons_cons.mp ((monotonic_iff _).mp accepted)
        have nonzero : current.len ≠ 0 := fun empty => apart (.inl empty)
        have before : current.span.2 ≤ next.span.1 := by
          by_contra collides
          exact apart (.inr (.inl ⟨not_le.mp collides, bounded⟩))
        have wellFormed := inductionHypothesis ((monotonic_iff _).mpr acceptedRest)
          fun untested => tested untested.cons
        exact wellFormed.cons (current.span_of_len nonzero) before

/-- The guard tells the well-formed lists from the others exactly where every
list with an untested fault has refused neighbours. -/
theorem guard_exact_iff (intervals : List Interval) :
    (isMonotonicNonColliding intervals = true ↔ WellFormed intervals) ↔
      FaultsRefused intervals := by
  rw [well_formed_iff, FaultsRefused, ← not_monotonic_iff]
  constructor
  · intro same untested accepted
    exact (same.mp accepted).2 untested
  · intro refused
    exact ⟨fun accepted => ⟨accepted, fun untested => refused untested accepted⟩, And.left⟩

/-- What the sweep relies on its guard for: both lists are accepted exactly if
they are well-formed, and of accepted lists the difference is exact. -/
structure Guarded (replica : Replica) (a b : List Interval) : Prop where
  left : isMonotonicNonColliding a = true ↔ WellFormed a
  right : isMonotonicNonColliding b = true ↔ WellFormed b
  exact : isMonotonicNonColliding a = true → isMonotonicNonColliding b = true →
    ∃ result, (intervalsDifference a b).run replica = .ok result replica ∧
      covered result = covered a \ covered b

/-- The guard serves the sweep exactly on the lists whose untested faults come
with refused neighbours. -/
theorem guarded_iff (replica : Replica) (a b : List Interval) :
    Guarded replica a b ↔ FaultsRefused a ∧ FaultsRefused b := by
  rw [← guard_exact_iff, ← guard_exact_iff]
  constructor
  · intro guarded
    exact ⟨guarded.left, guarded.right⟩
  · rintro ⟨left, right⟩
    refine ⟨left, right, ?_⟩
    intro leftAccepted rightAccepted
    obtain ⟨result, returned, _, difference, _⟩ := intervals_difference_exact replica a b
      (left.mp leftAccepted) (right.mp rightAccepted)
    exact ⟨result, returned, difference⟩

/-- A list of one empty interval is accepted. Its computed end is the last
number, so the sweep removes ten numbers that it does not cover. -/
theorem empty_interval_accepted :
    (¬ ∀ intervals : List Interval,
      isMonotonicNonColliding intervals = true ↔ WellFormed intervals) ∧
    ¬ ∀ (replica : Replica) (a b : List Interval),
      isMonotonicNonColliding a = true → isMonotonicNonColliding b = true →
        ∃ result, (intervalsDifference a b).run replica = .ok result replica ∧
          covered result = covered a \ covered b := by
  constructor
  · intro claimed
    have nonempty := ((claimed [⟨0, 0⟩]).mp rfl).len_pos ⟨0, 0⟩ List.mem_cons_self
    exact absurd nonempty (by decide)
  · intro claimed
    obtain ⟨result, returned, difference⟩ := claimed plainReplica [⟨0, 10⟩] [⟨0, 0⟩] rfl rfl
    have nothing : sweepAll [⟨0, 10⟩] [⟨0, 0⟩] = [] := by decide
    rw [intervals_difference_run, nothing] at returned
    have removed : result = [] := by
      simpa [isMonotonicNonColliding] using returned.symm
    rw [removed, covered_nil] at difference
    have survives : 0 ∈ covered [⟨0, 10⟩] \ covered [⟨0, 0⟩] := by
      simp [covered, Spans.cover, Spans.Within, Interval.span]
    rw [← difference] at survives
    exact survives

end Replikon
