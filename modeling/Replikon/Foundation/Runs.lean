import Mathlib.Logic.Basic

/-!
# Runs of a partial transition function

A system takes labelled steps; a step that is not enabled has no result. A run
is a list of labels. `Throughout` says that a property holds in every state a
run visits, and `Along` that a condition holds before every step it takes. A
step lemma that keeps a property, or that keeps it exactly under a condition,
carries over to runs by induction on the labels.
-/

namespace Replikon.Foundation

universe u v
variable {σ : Type u} {label : Type v} (step : σ → label → Option σ)

/-- Take the labelled steps one after another. -/
def run : σ → List label → Option σ
  | state, [] => some state
  | state, first :: rest => (step state first).bind fun next => run next rest

/-- The property holds in every visited state, the first one included. -/
def Throughout (property : σ → Prop) : σ → List label → Prop
  | state, [] => property state
  | state, first :: rest =>
    property state ∧ ∀ next, step state first = some next → Throughout property next rest

/-- The condition holds for every step that is taken, in the state it is taken from. -/
def Along (condition : σ → label → Prop) : σ → List label → Prop
  | _, [] => True
  | state, first :: rest =>
    ∀ next, step state first = some next → condition state first ∧ Along condition next rest

variable {step}

/-- A longer run takes its last steps from where the shorter one ended. -/
theorem run_append (state : σ) (before after : List label) :
    run step state (before ++ after) =
      (run step state before).bind fun middle => run step middle after := by
  induction before generalizing state with
  | nil => rfl
  | cons first rest inductionHypothesis =>
    simp only [List.cons_append, run]
    cases step state first with
    | none => rfl
    | some next => exact inductionHypothesis next

/-- Every visited state is the end of a shorter run. -/
theorem throughout_iff {property : σ → Prop} (state : σ) (labels : List label) :
    Throughout step property state labels ↔
      ∀ taken, taken <+: labels → ∀ final, run step state taken = some final → property final := by
  induction labels generalizing state with
  | nil =>
    simp only [Throughout, List.prefix_nil, forall_eq, run, Option.some.injEq]
    constructor
    · rintro holds final rfl
      exact holds
    · intro holds
      exact holds state rfl
  | cons first rest inductionHypothesis =>
    simp only [Throughout]
    constructor
    · rintro ⟨here, later⟩ taken before final ran
      cases taken with
      | nil =>
        have same : state = final := Option.some.inj ran
        exact same ▸ here
      | cons label taken =>
        obtain ⟨rfl, shorter⟩ := List.cons_prefix_cons.mp before
        obtain ⟨next, stepped, ranRest⟩ := Option.bind_eq_some_iff.mp ran
        exact (inductionHypothesis next).mp (later next stepped) taken shorter final ranRest
    · intro holds
      refine ⟨holds [] (List.nil_prefix) state rfl, ?_⟩
      intro next stepped
      refine (inductionHypothesis next).mpr ?_
      intro taken before final ran
      exact holds (first :: taken) (List.cons_prefix_cons.mpr ⟨rfl, before⟩) final
        (by simp [run, stepped, ran])

/-- A weaker property holds throughout as well. -/
theorem Throughout.imp {property weaker : σ → Prop}
    (weakens : ∀ state, property state → weaker state) (state : σ) (labels : List label)
    (holds : Throughout step property state labels) : Throughout step weaker state labels := by
  refine (throughout_iff state labels).mpr ?_
  intro taken before final ran
  exact weakens final ((throughout_iff state labels).mp holds taken before final ran)

/-- If, from states with an invariant, a step keeps a property exactly when its
condition holds, then a run keeps the property throughout exactly when every
step it takes meets the condition. -/
theorem throughout_iff_along {invariant property : σ → Prop} {condition : σ → label → Prop}
    (keeps : ∀ state first next, invariant state → step state first = some next → invariant next)
    (exact_step : ∀ state first next, invariant state → property state →
      step state first = some next → (property next ↔ condition state first))
    (state : σ) (labels : List label) (start : invariant state) (holds : property state) :
    Throughout step property state labels ↔ Along step condition state labels := by
  induction labels generalizing state with
  | nil => simp [Throughout, Along, holds]
  | cons first rest inductionHypothesis =>
    simp only [Throughout, Along, holds, true_and]
    refine forall_congr' fun next => forall_congr' fun stepped => ?_
    have kept := keeps state first next start stepped
    have same := exact_step state first next start holds stepped
    constructor
    · intro throughout
      have here : property next := by
        cases rest with
        | nil => exact throughout
        | cons _ _ => exact throughout.1
      exact ⟨same.mp here, (inductionHypothesis next kept here).mp throughout⟩
    · rintro ⟨met, along⟩
      exact (inductionHypothesis next kept (same.mpr met)).mpr along

/-- If every step that meets the condition keeps a property, then a run whose
steps all meet it has the property throughout. -/
theorem throughout_of_along {property : σ → Prop} {condition : σ → label → Prop}
    (keeps : ∀ state first next, property state → condition state first →
      step state first = some next → property next)
    (state : σ) (labels : List label) (start : property state)
    (along : Along step condition state labels) : Throughout step property state labels := by
  induction labels generalizing state with
  | nil => exact start
  | cons first rest inductionHypothesis =>
    refine ⟨start, ?_⟩
    intro next stepped
    obtain ⟨met, later⟩ := along next stepped
    exact inductionHypothesis next (keeps state first next start met stepped) later

/-- If every step from a state with a property meets a condition, then a run that
has the property throughout meets it along the way. -/
theorem along_of_throughout {property : σ → Prop} {condition : σ → label → Prop}
    (meets : ∀ state first, property state → condition state first)
    (state : σ) (labels : List label) (holds : Throughout step property state labels) :
    Along step condition state labels := by
  induction labels generalizing state with
  | nil => trivial
  | cons first rest inductionHypothesis =>
    intro next stepped
    exact ⟨meets state first holds.1, inductionHypothesis next (holds.2 next stepped)⟩

/-- Two conditions that agree, for the admitted labels, in the states of an
invariant hold along the same runs. -/
theorem along_congr {invariant : σ → Prop} {admitted : label → Prop}
    {condition other : σ → label → Prop}
    (keeps : ∀ state first next, invariant state → admitted first →
      step state first = some next → invariant next)
    (same : ∀ state first, invariant state → admitted first →
      (condition state first ↔ other state first))
    (state : σ) (labels : List label) (start : invariant state)
    (all : ∀ taken ∈ labels, admitted taken) :
    Along step condition state labels ↔ Along step other state labels := by
  induction labels generalizing state with
  | nil => exact Iff.rfl
  | cons first rest inductionHypothesis =>
    have here := all first List.mem_cons_self
    refine forall_congr' fun next => forall_congr' fun stepped =>
      and_congr (same state first start here) ?_
    exact inductionHypothesis next (keeps state first next start here stepped)
      fun taken member => all taken (List.mem_cons_of_mem _ member)

/-- A condition along a run holds along the rest of it. -/
theorem Along.rest {condition : σ → label → Prop} (state : σ) (before after : List label)
    (along : Along step condition state (before ++ after)) (middle : σ)
    (ran : run step state before = some middle) : Along step condition middle after := by
  induction before generalizing state with
  | nil => exact Option.some.inj ran ▸ along
  | cons first rest inductionHypothesis =>
    obtain ⟨next, stepped, ranRest⟩ := Option.bind_eq_some_iff.mp ran
    exact inductionHypothesis next (along next stepped).2 ranRest

end Replikon.Foundation
