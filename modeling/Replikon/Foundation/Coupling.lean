import Mathlib.Init

/-!
# Two runs side by side

Two programs, or one program twice, are run from related states. They are coupled
if both return the same value or both stop for the same reason, in related
states. A condition on the two states may depend on the value, so what is learnt
along the way can be used for the rest of a sequence. Where the first run may stop
and the second goes on, only what is returned is compared: the second reproduces
the first.
-/

namespace Replikon.Foundation

universe u
variable {ε σ α β : Type u}

/-- Two results show a caller the same, and their states are related. -/
inductive Alike (post : α → σ → σ → Prop) (halted : σ → σ → Prop) :
    EStateM.Result ε σ α → EStateM.Result ε σ α → Prop where
  | returned (value : α) (left right : σ) (related : post value left right) :
      Alike post halted (.ok value left) (.ok value right)
  | stopped (reason : ε) (left right : σ) (related : halted left right) :
      Alike post halted (.error reason left) (.error reason right)

/-- Both conditions may be weakened. -/
theorem Alike.mono {post weaker : α → σ → σ → Prop} {halted weakerHalted : σ → σ → Prop}
    {one two : EStateM.Result ε σ α} (alike : Alike post halted one two)
    (returns : ∀ value left right, post value left right → weaker value left right)
    (stops : ∀ left right, halted left right → weakerHalted left right) :
    Alike weaker weakerHalted one two := by
  cases alike with
  | returned value left right related => exact .returned value _ _ (returns _ _ _ related)
  | stopped reason left right related => exact .stopped reason _ _ (stops _ _ related)

/-- From related states the programs have results that are alike. -/
def Coupled (pre : σ → σ → Prop) (first second : EStateM ε σ α) (post : α → σ → σ → Prop)
    (halted : σ → σ → Prop) : Prop :=
  ∀ left right, pre left right → Alike post halted (first.run left) (second.run right)

variable {pre halted : σ → σ → Prop} {first second : EStateM ε σ α} {post : α → σ → σ → Prop}

theorem coupled_pure (value : α) (related : ∀ left right, pre left right → post value left right) :
    Coupled pre (pure value : EStateM ε σ α) (pure value) post halted :=
  fun left right given => .returned value left right (related left right given)

/-- A stronger condition before and weaker ones after. -/
theorem Coupled.mono {stronger weakerHalted : σ → σ → Prop} {weaker : α → σ → σ → Prop}
    (coupled : Coupled pre first second post halted)
    (before : ∀ left right, stronger left right → pre left right)
    (returns : ∀ value left right, post value left right → weaker value left right)
    (stops : ∀ left right, halted left right → weakerHalted left right) :
    Coupled stronger first second weaker weakerHalted :=
  fun left right given => (coupled left right (before left right given)).mono returns stops

/-- Sequences are coupled when both parts are. -/
theorem Coupled.bind {final : β → σ → σ → Prop} {next other : α → EStateM ε σ β}
    (coupled : Coupled pre first second post halted)
    (onward : ∀ value, Coupled (post value) (next value) (other value) final halted) :
    Coupled pre (first >>= next) (second >>= other) final halted := by
  intro left right given
  have unfolded : ∀ (program : EStateM ε σ α) (rest : α → EStateM ε σ β) (state : σ),
      (program >>= rest).run state = match program.run state with
        | .ok value after => (rest value).run after
        | .error reason after => .error reason after := fun _ _ _ => rfl
  have alike := coupled left right given
  rw [unfolded, unfolded]
  generalize first.run left = one, second.run right = two at alike ⊢
  cases alike with
  | returned value after otherAfter related => exact onward value after otherAfter related
  | stopped reason after otherAfter related => exact .stopped reason _ _ related

/-- Programs that read their states first are coupled when what follows is, for
the two states that were read. -/
theorem coupled_get_bind {final : β → σ → σ → Prop} {next other : σ → EStateM ε σ β}
    (onward : ∀ left right, pre left right →
      Alike final halted ((next left).run left) ((other right).run right)) :
    Coupled pre (get >>= next) (get >>= other) final halted :=
  fun left right given => onward left right given

/-- A test on a value both runs have. -/
theorem coupled_ite {condition : Prop} [Decidable condition] {third fourth : EStateM ε σ α}
    (holds : Coupled pre first second post halted)
    (fails : Coupled pre third fourth post halted) :
    Coupled pre (if condition then first else third) (if condition then second else fourth) post
      halted := by
  split
  · exact holds
  · exact fails

/-- Whatever the program returns, it also returns from a related state, and the
states stay related. -/
def Reproduces (related : σ → σ → Prop) (program : EStateM ε σ α) : Prop :=
  ∀ left right, related left right → ∀ value after, program.run left = .ok value after →
    ∃ other, program.run right = .ok value other ∧ related after other

section Reproduces

variable {related : σ → σ → Prop} {program : EStateM ε σ α}

theorem reproduces_pure (value : α) : Reproduces related (pure value : EStateM ε σ α) := by
  intro left right given value after returned
  cases returned
  exact ⟨right, rfl, given⟩

/-- A program that never returns has nothing to be reproduced. -/
theorem reproduces_of_never (never : ∀ state value after, program.run state ≠ .ok value after) :
    Reproduces related program :=
  fun left _ _ value after returned => absurd returned (never left value after)

/-- Sequences are reproduced when both parts are. -/
theorem Reproduces.bind {next : α → EStateM ε σ β} (first : Reproduces related program)
    (onward : ∀ value, Reproduces related (next value)) : Reproduces related (program >>= next) := by
  intro left right given value after returned
  have unfolded : ∀ state, (program >>= next).run state = match program.run state with
      | .ok value after => (next value).run after
      | .error reason after => .error reason after := fun _ => rfl
  rw [unfolded] at returned ⊢
  cases ended : program.run left with
  | error reason stopped =>
    rw [ended] at returned
    cases returned
  | ok value middle =>
    rw [ended] at returned
    obtain ⟨other, alsoEnded, kept⟩ := first left right given value middle ended
    rw [alsoEnded]
    exact onward value middle other kept _ after returned

/-- A program that reads its state first is reproduced if it goes on in the same way
from related states. -/
theorem reproduces_get_bind {next : σ → EStateM ε σ β}
    (same : ∀ left right, related left right → next left = next right)
    (onward : ∀ state, Reproduces related (next state)) : Reproduces related (get >>= next) := by
  intro left right given value after returned
  have unfolded : ∀ state, (get >>= next).run state = (next state).run state := fun _ => rfl
  rw [unfolded] at returned ⊢
  rw [← same left right given]
  exact onward left left right given value after returned

theorem reproduces_ite {condition : Prop} [Decidable condition] {other : EStateM ε σ α}
    (holds : Reproduces related program) (fails : Reproduces related other) :
    Reproduces related (if condition then program else other) := by
  split
  · exact holds
  · exact fails

end Reproduces

end Replikon.Foundation
