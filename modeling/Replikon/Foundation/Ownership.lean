import Mathlib.Data.List.Nodup
import Mathlib.Data.List.Perm.Basic
import Mathlib.Data.List.Range
import Replikon.Foundation.Ensures

/-!
# Programs that own handles

A program works on its state and on handles. A handle is acquired, used and
released; one that is not open can neither be used nor released. Next to it runs
a plain program, in which handles do not occur. `Simulates` says that the two
return and stop alike, and which handles the program holds in the end. In every
outcome a handle is either still held, once, or has been released, once.
-/

namespace Replikon.Foundation

variable {ε σ α β γ : Type}

/-- How many handles were acquired, which numbers them, and those released since. -/
structure Handles where
  acquired : Nat
  released : List Nat

namespace Handles

/-- Before any handle is acquired. -/
def start : Handles := ⟨0, []⟩

/-- The handle was acquired and has not been released. -/
def IsOpen (handles : Handles) (handle : Nat) : Prop :=
  handle < handles.acquired ∧ handle ∉ handles.released

instance isOpenDecidable (handles : Handles) (handle : Nat) : Decidable (handles.IsOpen handle) :=
  inferInstanceAs (Decidable (_ ∧ _))

/-- The handle is open, and no other one is. -/
def OnlyOpen (handles : Handles) (handle : Nat) : Prop :=
  ∀ other < handles.acquired, other ∈ handles.released ∨ other = handle

instance onlyOpenDecidable (handles : Handles) (handle : Nat) :
    Decidable (handles.OnlyOpen handle) :=
  inferInstanceAs (Decidable (∀ _ < _, _))

/-- One more handle. -/
def acquire (handles : Handles) : Handles := ⟨handles.acquired + 1, handles.released⟩

/-- A handle is given back. -/
def release (handles : Handles) (handle : Nat) : Handles :=
  ⟨handles.acquired, handles.released ++ [handle]⟩

/-- Every handle has been released or is held, and neither twice. -/
def Held (handles : Handles) (held : List Nat) : Prop :=
  (handles.released ++ held).Perm (List.range handles.acquired)

variable {handles : Handles} {held : List Nat} {handle : Nat}

theorem start_held : start.Held [] := List.Perm.refl []

/-- The order in which handles are held does not matter. -/
theorem Held.perm {other : List Nat} (holds : handles.Held held) (same : held.Perm other) :
    handles.Held other :=
  (List.Perm.append_left _ same).symm.trans holds

/-- What is held is open. -/
theorem Held.is_open (holds : handles.Held held) (member : handle ∈ held) :
    handles.IsOpen handle := by
  constructor
  · exact List.mem_range.mp (holds.subset (List.mem_append_right _ member))
  · intro released
    have distinct : (handles.released ++ held).Nodup := holds.nodup_iff.mpr List.nodup_range
    exact (List.nodup_append.mp distinct).2.2 handle released handle member rfl

/-- An acquired handle is held. -/
theorem Held.acquire (holds : handles.Held held) :
    handles.acquire.Held (handles.acquired :: held) := by
  have moved : (handles.released ++ handles.acquired :: held).Perm
      ((handles.released ++ held) ++ [handles.acquired]) :=
    List.perm_middle.trans (List.perm_append_singleton _ _).symm
  have counted : List.range (handles.acquired + 1) =
      List.range handles.acquired ++ [handles.acquired] := List.range_succ
  unfold Held Handles.acquire
  rw [counted]
  exact moved.trans (List.Perm.append_right _ holds)

/-- A released handle is not held any more. -/
theorem Held.release (holds : handles.Held (handle :: held)) :
    (handles.release handle).Held held := by
  unfold Held Handles.release
  rw [List.append_assoc]
  exact holds

end Handles

/-- A program that owns handles. -/
abbrev Owning (ε σ : Type) := EStateM ε (σ × Handles)

/-- A program in which handles do not occur. -/
def handless (program : EStateM ε σ α) : Owning ε σ α := fun before =>
  match program before.1 with
  | .ok value state => .ok value (state, before.2)
  | .error reason state => .error reason (state, before.2)

/-- Take a new handle. -/
def acquire : Owning ε σ Nat := fun before =>
  .ok before.2.acquired (before.1, before.2.acquire)

/-- Give a handle back. -/
def release (misuse : ε) (handle : Nat) : Owning ε σ Unit := fun before =>
  if before.2.IsOpen handle then .ok () (before.1, before.2.release handle)
  else .error misuse before

/-- Run a program that uses a handle. -/
def withHandle (misuse : ε) (handle : Nat) (program : EStateM ε σ α) : Owning ε σ α := fun before =>
  if before.2.IsOpen handle then handless program before else .error misuse before

/-- Give a handle back if nothing depends on it: it must be the only one that is
open, and stays open otherwise. -/
def releaseLast (misuse : ε) (handle : Nat) : Owning ε σ Unit := fun before =>
  if before.2.IsOpen handle then
    if before.2.OnlyOpen handle then .ok () (before.1, before.2.release handle) else .ok () before
  else .error misuse before

/-- The results are alike, and in both cases it is known what is held. -/
inductive Mirrors (after : α → β → List Nat → Prop) :
    EStateM.Result ε (σ × Handles) α → EStateM.Result ε σ β → Prop where
  | returned (value : α) (other : β) (state : σ) (handles : Handles) (held : List Nat)
      (related : after value other held) (holds : handles.Held held) :
      Mirrors after (.ok value (state, handles)) (.ok other state)
  | stopped (reason : ε) (state : σ) (handles : Handles) (held : List Nat)
      (holds : handles.Held held) :
      Mirrors after (.error reason (state, handles)) (.error reason state)

/-- From a state in which it holds the given handles, the program does what the
plain one does. -/
def Simulates (held : List Nat) (program : Owning ε σ α) (plain : EStateM ε σ β)
    (after : α → β → List Nat → Prop) : Prop :=
  ∀ state handles, handles.Held held →
    Mirrors after (program.run (state, handles)) (plain.run state)

/-- The values are equal, and the handles held are the given ones. -/
def Holding (held : List Nat) (value other : α) (rest : List Nat) : Prop :=
  value = other ∧ rest = held

section Rules

/-- A program after one that stops is not run. -/
theorem bind_stopped {program : EStateM ε σ α} {state after : σ} {reason : ε}
    (next : α → EStateM ε σ β) (stopped : program.run state = .error reason after) :
    (program >>= next).run state = .error reason after := by
  change EStateM.bind program next state = .error reason after
  have stopped' : program state = .error reason after := stopped
  simp [EStateM.bind, stopped']

variable {held : List Nat} {handle : Nat} {misuse : ε} {program : Owning ε σ α}
  {plain : EStateM ε σ β} {after : α → β → List Nat → Prop}

theorem simulates_pure (value : α) (other : β) (related : after value other held) :
    Simulates held (pure value : Owning ε σ α) (pure other) after :=
  fun state handles holds => .returned value other state handles held related holds

/-- The order of the handles does not matter. -/
theorem Simulates.perm {other : List Nat} (simulates : Simulates other program plain after)
    (same : held.Perm other) : Simulates held program plain after :=
  fun state handles holds => simulates state handles (holds.perm same)

/-- Sequences are simulated part by part. -/
theorem Simulates.bind {δ : Type} {next : α → Owning ε σ γ} {plainNext : β → EStateM ε σ δ}
    {final : γ → δ → List Nat → Prop} (first : Simulates held program plain after)
    (onward : ∀ value other rest, after value other rest →
      Simulates rest (next value) (plainNext other) final) :
    Simulates held (program >>= next) (plain >>= plainNext) final := by
  intro state handles holds
  have mirrored := first state handles holds
  generalize ended : program.run (state, handles) = one,
    plainEnded : plain.run state = two at mirrored
  cases mirrored with
  | returned value other state handles rest related holds =>
    rw [bind_returned next ended, bind_returned plainNext plainEnded]
    exact onward value other rest related state handles holds
  | stopped reason state handles rest holds =>
    rw [bind_stopped next ended, bind_stopped plainNext plainEnded]
    exact .stopped reason state handles rest holds

/-- A part that only concerns handles has no counterpart. -/
theorem Simulates.alone {next : α → Owning ε σ γ} {final : γ → β → List Nat → Prop}
    {middle : α → Unit → List Nat → Prop}
    (first : Simulates held program (pure ()) middle)
    (onward : ∀ value rest, middle value () rest → Simulates rest (next value) plain final) :
    Simulates held (program >>= next) plain final :=
  @Simulates.bind ε σ α Unit γ held program (pure ()) middle β next (fun _ => plain) final first
    fun value _ rest related => onward value rest related

/-- Neither has one that follows when the plain program is done. -/
theorem Simulates.ending {next : α → Owning ε σ γ} {final : γ → β → List Nat → Prop}
    (first : Simulates held program plain after)
    (onward : ∀ value other rest, after value other rest →
      Simulates rest (next value) (pure other : EStateM ε σ β) final) :
    Simulates held (program >>= next) plain final := by
  have whole : plain >>= pure = plain := bind_pure plain
  rw [← whole]
  exact first.bind onward

/-- A test that both programs make. -/
theorem simulates_ite {condition : Prop} [Decidable condition] {other : Owning ε σ α}
    {plainOther : EStateM ε σ β} (holds : Simulates held program plain after)
    (fails : Simulates held other plainOther after) :
    Simulates held (if condition then program else other) (if condition then plain else plainOther)
      after := by
  split
  · exact holds
  · exact fails

/-- Where handles do not occur, the programs are the same. -/
theorem simulates_handless (plain : EStateM ε σ α) :
    Simulates held (handless plain) plain (Holding held) := by
  intro state handles holds
  have unfolded : (handless plain).run (state, handles) = match plain.run state with
      | .ok value state => .ok value (state, handles)
      | .error reason state => .error reason (state, handles) := rfl
  rw [unfolded]
  cases plain.run state with
  | ok value after => exact .returned value value after handles held ⟨rfl, rfl⟩ holds
  | error reason after => exact .stopped reason after handles held holds

/-- A handle that is held can be used. -/
theorem simulates_with_handle (plain : EStateM ε σ α) (member : handle ∈ held) :
    Simulates held (withHandle misuse handle plain) plain (Holding held) := by
  intro state handles holds
  have allowed : (withHandle misuse handle plain).run (state, handles) =
      (handless plain).run (state, handles) := if_pos (holds.is_open member)
  rw [allowed]
  exact simulates_handless plain state handles holds

/-- A new handle is held. -/
theorem simulates_acquire :
    Simulates held (acquire : Owning ε σ Nat) (pure () : EStateM ε σ Unit)
      fun value _ rest => rest = value :: held :=
  fun state _ holds => .returned _ () state _ _ rfl holds.acquire

/-- A handle that is held can be released. -/
theorem simulates_release :
    Simulates (handle :: held) (release misuse handle : Owning ε σ Unit) (pure ())
      (Holding held) := by
  intro state handles holds
  have allowed : (release misuse handle : Owning ε σ Unit).run (state, handles) =
      .ok () (state, handles.release handle) :=
    if_pos (holds.is_open List.mem_cons_self)
  rw [allowed]
  exact .returned () () state _ held ⟨rfl, rfl⟩ holds.release

end Rules

end Replikon.Foundation
