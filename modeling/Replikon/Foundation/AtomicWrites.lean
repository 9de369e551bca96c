import Mathlib.Data.List.Basic

/-!
# A sequence of atomic writes that is interrupted

Each write of the sequence is made, fails without an effect, or is not reached
because everything stops before it. The writes that are made are a sublist of
the sequence, and any sublist can be what is made.
-/

namespace Replikon.Foundation

universe u

/-- How one write of a sequence ends. -/
inductive Fate where
  | made
  | failed
  | stopped
  deriving DecidableEq

/-- The fate of a write whose failure stops the sequence where it is checked. -/
def Fate.checked (fate : Fate) (check : Bool) : Fate :=
  if fate = .failed ∧ check then .stopped else fate

variable {α : Type u}

/-- The writes that are made, in order. -/
def made : List (Fate × α) → List α
  | [] => []
  | (.made, write) :: rest => write :: made rest
  | (.failed, _) :: rest => made rest
  | (.stopped, _) :: _ => []

@[simp] theorem made_cons_made (write : α) (rest : List (Fate × α)) :
    made ((.made, write) :: rest) = write :: made rest := rfl

@[simp] theorem made_cons_failed (write : α) (rest : List (Fate × α)) :
    made ((.failed, write) :: rest) = made rest := rfl

@[simp] theorem made_cons_stopped (write : α) (rest : List (Fate × α)) :
    made ((.stopped, write) :: rest) = [] := rfl

/-- Nothing is made that is not in the sequence. -/
theorem made_sublist (writes : List (Fate × α)) : (made writes).Sublist (writes.map Prod.snd) := by
  induction writes with
  | nil => exact List.Sublist.refl _
  | cons first rest inductionHypothesis =>
    obtain ⟨fate, write⟩ := first
    cases fate with
    | made => exact inductionHypothesis.cons_cons write
    | failed => exact inductionHypothesis.cons write
    | stopped => exact List.nil_sublist _

end Replikon.Foundation
