import Mathlib.Logic.Relation

/-!
# What a program guarantees, whether it returns or stops

A program over a state leaves a state in both of its outcomes. `Guarantees` says
what holds of the outcome, with a condition for each of the two; in contrast to
`Ensures`, nothing is excused for a program that stops. `Keeps` is the case of a
relation between the state a program starts from and the one it leaves: a
reflexive and transitive relation is kept by a sequence whose parts keep it.
-/

namespace Replikon.Foundation

universe u v
variable {ε σ α β : Type u}

/-- If the program returns, its value and state meet the first condition; if it
stops, its state meets the second. -/
def Guarantees (program : EStateM ε σ α) (state : σ) (post : α → σ → Prop) (halted : σ → Prop) :
    Prop :=
  match program.run state with
  | .ok value after => post value after
  | .error _ after => halted after

section Rules

variable {program : EStateM ε σ α} {state : σ} {post : α → σ → Prop} {halted : σ → Prop}

theorem guarantees_pure (value : α) (holds : post value state) :
    Guarantees (pure value : EStateM ε σ α) state post halted := holds

/-- Both conditions may be weakened. -/
theorem Guarantees.mono {weaker : α → σ → Prop} {weakerHalted : σ → Prop}
    (guarantees : Guarantees program state post halted)
    (returns : ∀ value after, post value after → weaker value after)
    (stops : ∀ after, halted after → weakerHalted after) :
    Guarantees program state weaker weakerHalted := by
  unfold Guarantees at guarantees ⊢
  cases ended : program.run state with
  | ok value after =>
    rw [ended] at guarantees
    exact returns value after guarantees
  | error reason after =>
    rw [ended] at guarantees
    exact stops after guarantees

/-- A sequence guarantees what its second part does after the first. -/
theorem Guarantees.bind {middle : α → σ → Prop} {final : β → σ → Prop}
    {next : α → EStateM ε σ β} (first : Guarantees program state middle halted)
    (second : ∀ value after, middle value after → Guarantees (next value) after final halted) :
    Guarantees (program >>= next) state final halted := by
  unfold Guarantees at first ⊢
  have unfolded : (program >>= next).run state = match program.run state with
      | .ok value after => (next value).run after
      | .error reason after => .error reason after := rfl
  rw [unfolded]
  cases ended : program.run state with
  | ok value after =>
    rw [ended] at first
    exact second value after first
  | error reason after =>
    rw [ended] at first
    exact first

/-- A program that reads its state first guarantees what follows does. -/
theorem guarantees_get_bind {final : β → σ → Prop} {next : σ → EStateM ε σ β}
    (second : Guarantees (next state) state final halted) :
    Guarantees (get >>= next) state final halted := second

end Rules

/-- The program keeps a relation to the state it started from. -/
def Keeps (relation : σ → σ → Prop) (program : EStateM ε σ α) : Prop :=
  ∀ state, Guarantees program state (fun _ => relation state) (relation state)

variable {relation : σ → σ → Prop}

/-- What keeps a relation keeps a weaker one. -/
theorem Keeps.mono {weaker : σ → σ → Prop} {program : EStateM ε σ α}
    (keeps : Keeps relation program)
    (implies : ∀ before after, relation before after → weaker before after) :
    Keeps weaker program :=
  fun state => (keeps state).mono (fun _ => implies state) (implies state)

/-- A test keeps what both branches keep. -/
theorem keeps_ite {condition : Prop} [Decidable condition] {left right : EStateM ε σ α}
    (first : Keeps relation left) (second : Keeps relation right) :
    Keeps relation (if condition then left else right) := by
  split
  · exact first
  · exact second

section Preorder

variable [Std.Refl relation]

theorem keeps_pure (value : α) : Keeps relation (pure value : EStateM ε σ α) :=
  fun state => refl_of relation state

theorem keeps_get : Keeps relation (get : EStateM ε σ σ) :=
  fun state => refl_of relation state

variable [IsTrans σ relation]

omit [Std.Refl relation] in
/-- A sequence keeps what both parts keep. -/
theorem Keeps.bind {program : EStateM ε σ α} {next : α → EStateM ε σ β}
    (first : Keeps relation program) (second : ∀ value, Keeps relation (next value)) :
    Keeps relation (program >>= next) := by
  intro state
  refine (first state).bind ?_
  intro value after kept
  exact (second value after).mono (fun _ _ => trans_of relation kept)
    fun _ => trans_of relation kept

/-- A relation that every step keeps holds between the ends of a run. -/
theorem keeps_steps {label : Type v} (step : σ → label → σ)
    (keeps : ∀ state first, relation state (step state first)) (state : σ) (labels : List label) :
    relation state (labels.foldl step state) := by
  induction labels generalizing state with
  | nil => exact refl_of relation state
  | cons first rest inductionHypothesis =>
    exact trans_of relation (keeps state first) (inductionHypothesis _)

end Preorder

end Replikon.Foundation
