import Mathlib.Logic.Function.Iterate
import Replikon.Model.Program

/-!
# `isMonotonicNonColliding` and `intervalsDifference`

The interval functions of `utils.h`, on wrapping 64-bit arithmetic. The loop of
`intervalsDifference` is a step on its state: the intervals of both lists that
are still ahead of the iterators, the first of `a` possibly rewritten in place,
and the result so far.
-/

namespace Replikon

/-- The last number of an interval, as the source computes it. -/
def Interval.last (interval : Interval) : UInt64 := interval.start + interval.len - 1

def isMonotonicNonColliding : List Interval → Bool
  | [] => true
  | [_] => true
  | current :: next :: rest =>
    if current.len = 0 then false
    else if next.start ≤ current.last then false
    else isMonotonicNonColliding (next :: rest)

/-- The state of the loop of `intervalsDifference`. -/
structure Sweep where
  a : List Interval
  b : List Interval
  result : List Interval
  deriving DecidableEq

/-- One iteration. The comments are those of the source. -/
def Sweep.step (sweep : Sweep) : Sweep :=
  match sweep.a, sweep.b with
  | [], _ => sweep
  | a :: as, [] => ⟨as, [], sweep.result ++ [a]⟩
  | a :: as, b :: bs =>
    -- [a] .. [b]
    if a.last < b.start then ⟨as, b :: bs, sweep.result ++ [a]⟩
    -- [b] .. [a]
    else if b.last < a.start then ⟨a :: as, bs, sweep.result⟩
    else if a.start < b.start then
      if b.last < a.last then
        -- [ a  [b] ]
        ⟨⟨b.last + 1, a.last - b.last⟩ :: as, bs,
          sweep.result ++ [⟨a.start, b.start - a.start⟩]⟩
      else
        -- [a [_]_b_]
        ⟨as, b :: bs, sweep.result ++ [⟨a.start, b.start - a.start⟩]⟩
    else if a.last ≤ b.last then
      -- [ b  [a]]
      ⟨as, b :: bs, sweep.result⟩
    else
      -- [b [_]_a_]
      ⟨⟨b.last + 1, a.last - b.last⟩ :: as, bs, sweep.result⟩

/-- An unsigned addition or subtraction with its operands. -/
inductive Operation where
  | sum (left right : UInt64)
  | difference (left right : UInt64)
  deriving DecidableEq

/-- The exact result is not a 64-bit number. -/
def Operation.Wraps : Operation → Prop
  | .sum left right => 2 ^ 64 ≤ left.toNat + right.toNat
  | .difference left right => left.toNat < right.toNat

/-- The operations behind `start + len - 1`. -/
def Interval.lastOperations (interval : Interval) : List Operation :=
  [.sum interval.start interval.len, .difference (interval.start + interval.len) 1]

/-- The intervals under both iterators, when neither is at its end. -/
def Sweep.compared (sweep : Sweep) : List Interval :=
  match sweep.a, sweep.b with
  | a :: _, b :: _ => [a, b]
  | _, _ => []

/-- The operations an iteration evaluates besides the ends of the intervals
under the iterators. -/
def Sweep.pieceOperations (sweep : Sweep) : List Operation :=
  match sweep.a, sweep.b with
  | a :: _, b :: _ =>
    if a.last < b.start then []
    else if b.last < a.start then []
    else if a.start < b.start then
      if b.last < a.last then
        [.difference b.start a.start, .sum b.last 1, .difference a.last b.last]
      else [.difference b.start a.start]
    else if a.last ≤ b.last then []
    else [.sum b.last 1, .difference a.last b.last]
  | _, _ => []

/-- The unsigned operations an iteration evaluates. -/
def Sweep.operations (sweep : Sweep) : List Operation :=
  sweep.compared.flatMap Interval.lastOperations ++ sweep.pieceOperations

/-- The loop: every iteration passes one interval, so this many end it. -/
def sweepAll (a b : List Interval) : List Interval :=
  (Sweep.step^[a.length + b.length] ⟨a, b, []⟩).result

def intervalsDifference (a b : List Interval) : Program (List Interval) := do
  replikonAssert (isMonotonicNonColliding a)
  replikonAssert (isMonotonicNonColliding b)
  pure (sweepAll a b)

/-- The function returns the difference, unless one of the assertions stops it. -/
theorem intervals_difference_run (replica : Replica) (a b : List Interval) :
    (intervalsDifference a b).run replica =
      if replica.ndebug || (isMonotonicNonColliding a && isMonotonicNonColliding b) then
        .ok (sweepAll a b) replica
      else .error .assertion replica := by
  cases build : replica.ndebug
  · cases remote : isMonotonicNonColliding a
    · rw [intervalsDifference, remote, bind_error _ (assert_stops_run false rfl build)]
      rfl
    · rw [intervalsDifference, remote, bind_ok _ (assert_run true rfl)]
      cases stored : isMonotonicNonColliding b
      · rw [bind_error _ (assert_stops_run false rfl build)]
        rfl
      · rw [bind_ok _ (assert_run true rfl)]
        rfl
  · rw [intervalsDifference, bind_ok _ (assert_unmade_run _ build),
      bind_ok _ (assert_unmade_run _ build)]
    rfl

end Replikon
