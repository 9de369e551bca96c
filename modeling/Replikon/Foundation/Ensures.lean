import Mathlib.Init

/-!
# Partial correctness of programs that may stop

A program over a state either returns a value and a state or stops with a
reason. `Ensures` says what holds if it returns; nothing is claimed of a program
that stops. A sequence is reasoned about with a condition between its two parts.
-/

namespace Replikon.Foundation

universe u
variable {ε σ α β : Type u}

/-- If the program returns from the state, its value and final state meet the
condition. -/
def Ensures (program : EStateM ε σ α) (state : σ) (post : α → σ → Prop) : Prop :=
  ∀ value after, program.run state = .ok value after → post value after

variable {program : EStateM ε σ α} {state : σ}

/-- A program whose run is known ensures what its result meets. -/
theorem ensures_of_run {post : α → σ → Prop} (value : α) (after : σ)
    (returned : program.run state = .ok value after) (holds : post value after) :
    Ensures program state post := by
  intro other final ran
  rw [returned] at ran
  injection ran with sameValue sameState
  exact sameValue ▸ sameState ▸ holds

/-- A program after one that returns continues with its value. -/
theorem bind_returned {value : α} {after : σ} (next : α → EStateM ε σ β)
    (returned : program.run state = .ok value after) :
    (program >>= next).run state = (next value).run after := by
  change EStateM.bind program next state = next value after
  have returned' : program state = .ok value after := returned
  simp [EStateM.bind, returned']

/-- A program that stops ensures anything. -/
theorem ensures_of_stop {post : α → σ → Prop} (reason : ε) (after : σ)
    (stopped : program.run state = .error reason after) : Ensures program state post := by
  intro value final ran
  rw [stopped] at ran
  cases ran

/-- The condition may be weakened. -/
theorem Ensures.mono {post weaker : α → σ → Prop} (ensures : Ensures program state post)
    (implies : ∀ value after, post value after → weaker value after) :
    Ensures program state weaker :=
  fun value after ran => implies value after (ensures value after ran)

/-- A sequence ensures what its second part does after the first. -/
theorem Ensures.bind {middle : α → σ → Prop} {post : β → σ → Prop}
    {next : α → EStateM ε σ β} (first : Ensures program state middle)
    (second : ∀ value after, middle value after → Ensures (next value) after post) :
    Ensures (program >>= next) state post := by
  intro value final ran
  have unfolded : (match program.run state with
      | .ok value after => (next value).run after
      | .error reason after => .error reason after) = EStateM.Result.ok value final := ran
  cases ended : program.run state with
  | ok intermediate after =>
    rw [ended] at unfolded
    exact second intermediate after (first intermediate after ended) value final unfolded
  | error reason after =>
    rw [ended] at unfolded
    cases unfolded

theorem ensures_pure {post : α → σ → Prop} (value : α) (holds : post value state) :
    Ensures (pure value : EStateM ε σ α) state post :=
  ensures_of_run value state rfl holds

end Replikon.Foundation
