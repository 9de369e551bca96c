import Replikon.Foundation.Coupling
import Replikon.Foundation.Guarantees
import Replikon.Foundation.Ownership

/-!
# Clients of an interface

A client makes calls and goes on with their answers. At any time it may look at a
part of the state, its view. What the calls mean is given apart from it, so one
client can be run over several meanings of its calls. A program is walked through
once, to find a client that does the same and makes allowed calls only; what all
these calls have in common then holds of the program.
-/

namespace Replikon.Foundation

variable {ε σ View Call α β : Type} {Result : Call → Type}

/-- A client returns, stops, looks at its view, or makes a call. -/
inductive Client (ε View : Type) {Call : Type} (Result : Call → Type) (α : Type) where
  | returns (value : α)
  | stops (reason : ε)
  | looks (next : View → Client ε View Result α)
  | asks (call : Call) (next : Result call → Client ε View Result α)

namespace Client

/-- One thing after the other. -/
def andThen : Client ε View Result α → (α → Client ε View Result β) → Client ε View Result β
  | .returns value, next => next value
  | .stops reason, _ => .stops reason
  | .looks more, next => .looks fun view => (more view).andThen next
  | .asks call more, next => .asks call fun answer => (more answer).andThen next

/-- Every call that the client can make is allowed. -/
def Asks (allowed : Call → Prop) : Client ε View Result α → Prop
  | .returns _ => True
  | .stops _ => True
  | .looks next => ∀ view, (next view).Asks allowed
  | .asks call next => allowed call ∧ ∀ answer, (next answer).Asks allowed

/-- What the client does, for a meaning of its calls. -/
def interpret (view : σ → View) (meaning : (call : Call) → EStateM ε σ (Result call)) :
    Client ε View Result α → EStateM ε σ α
  | .returns value => pure value
  | .stops reason => fun state => .error reason state
  | .looks next => get >>= fun state => (next (view state)).interpret view meaning
  | .asks call next => meaning call >>= fun answer => (next answer).interpret view meaning

section Rules

variable {view : σ → View} {meaning : (call : Call) → EStateM ε σ (Result call)}
  {allowed : Call → Prop}

/-- More calls may be allowed. -/
theorem Asks.mono {more : Call → Prop} {client : Client ε View Result α}
    (asks : client.Asks allowed) (within : ∀ call, allowed call → more call) :
    client.Asks more := by
  induction client with
  | returns value => trivial
  | stops reason => trivial
  | looks next inductionHypothesis => exact fun view => inductionHypothesis view (asks view)
  | asks call next inductionHypothesis =>
    exact ⟨within call asks.1, fun answer => inductionHypothesis answer (asks.2 answer)⟩

/-- A sequence makes the calls of its parts. -/
theorem and_then_asks {client : Client ε View Result α} {next : α → Client ε View Result β}
    (asks : client.Asks allowed) (onward : ∀ value, (next value).Asks allowed) :
    (client.andThen next).Asks allowed := by
  induction client with
  | returns value => exact onward value
  | stops reason => trivial
  | looks more inductionHypothesis => exact fun view => inductionHypothesis view (asks view)
  | asks call more inductionHypothesis =>
    exact ⟨asks.1, fun answer => inductionHypothesis answer (asks.2 answer)⟩

/-- It does what they do one after the other. -/
theorem and_then_interpret (client : Client ε View Result α)
    (next : α → Client ε View Result β) :
    (client.andThen next).interpret view meaning =
      client.interpret view meaning >>= fun value => (next value).interpret view meaning := by
  induction client with
  | returns value => rfl
  | stops reason => rfl
  | looks more inductionHypothesis =>
    have parts : (fun state => ((more (view state)).andThen next).interpret view meaning) =
        fun state => (more (view state)).interpret view meaning >>=
          fun value => (next value).interpret view meaning :=
      funext fun state => inductionHypothesis (view state)
    exact (congrArg (get >>= ·) parts).trans (bind_assoc _ _ _).symm
  | asks call more inductionHypothesis =>
    have parts : (fun answer => ((more answer).andThen next).interpret view meaning) =
        fun answer => (more answer).interpret view meaning >>=
          fun value => (next value).interpret view meaning :=
      funext inductionHypothesis
    exact (congrArg (meaning call >>= ·) parts).trans (bind_assoc _ _ _).symm

/-- The client keeps a relation that all its calls keep. -/
theorem keeps {relation : σ → σ → Prop} [Std.Refl relation] [IsTrans σ relation]
    {client : Client ε View Result α} (asks : client.Asks allowed)
    (kept : ∀ call, allowed call → Keeps relation (meaning call)) :
    Keeps relation (client.interpret view meaning) := by
  induction client with
  | returns value => exact keeps_pure value
  | stops reason => exact fun state => refl_of relation state
  | looks next inductionHypothesis =>
    exact keeps_get.bind fun state => inductionHypothesis (view state) (asks (view state))
  | asks call next inductionHypothesis =>
    exact (kept call asks.1).bind fun answer => inductionHypothesis answer (asks.2 answer)

/-- Two runs of the client stay side by side if those of its calls do and both see
the same. -/
theorem coupled {related : σ → σ → Prop} {client : Client ε View Result α}
    (asks : client.Asks allowed)
    (seen : ∀ left right, related left right → view left = view right)
    (kept : ∀ call, allowed call →
      Coupled related (meaning call) (meaning call) (fun _ => related) related) :
    Coupled related (client.interpret view meaning) (client.interpret view meaning)
      (fun _ => related) related := by
  induction client with
  | returns value => exact coupled_pure value fun _ _ given => given
  | stops reason => exact fun left right given => .stopped reason left right given
  | looks next inductionHypothesis =>
    refine coupled_get_bind fun left right given => ?_
    rw [seen left right given]
    exact inductionHypothesis (view right) (asks (view right)) left right given
  | asks call next inductionHypothesis =>
    exact (kept call asks.1).bind fun answer => inductionHypothesis answer (asks.2 answer)

/-- What the client returns is reproduced if what its calls return is. -/
theorem reproduces {related : σ → σ → Prop} {client : Client ε View Result α}
    (asks : client.Asks allowed)
    (seen : ∀ left right, related left right → view left = view right)
    (kept : ∀ call, allowed call → Reproduces related (meaning call)) :
    Reproduces related (client.interpret view meaning) := by
  induction client with
  | returns value => exact reproduces_pure value
  | stops reason => exact reproduces_of_never fun _ _ _ returned => by cases returned
  | looks next inductionHypothesis =>
    refine reproduces_get_bind ?_ fun state => inductionHypothesis (view state) (asks (view state))
    intro left right given
    rw [seen left right given]
  | asks call next inductionHypothesis =>
    exact (kept call asks.1).bind fun answer => inductionHypothesis answer (asks.2 answer)

/-- With handles the client does what it does without, if its calls do. -/
theorem simulates {held : List Nat} {owning : (call : Call) → Owning ε σ (Result call)}
    (client : Client ε View Result α)
    (kept : ∀ call, Simulates held (owning call) (meaning call) (Holding held)) :
    Simulates held (client.interpret (fun both => view both.1) owning)
      (client.interpret view meaning) (Holding held) := by
  induction client with
  | returns value => exact simulates_pure value value ⟨rfl, rfl⟩
  | stops reason => exact fun state handles holds => .stopped reason state handles held holds
  | looks next inductionHypothesis =>
    exact fun state handles holds => inductionHypothesis (view state) state handles holds
  | asks call next inductionHypothesis =>
    apply (kept call).bind
    rintro answer _ rest ⟨rfl, rfl⟩
    exact inductionHypothesis answer

end Rules

end Client

/-- A client that does what the program does and makes allowed calls only. -/
structure ClientOf (view : σ → View) (meaning : (call : Call) → EStateM ε σ (Result call))
    (allowed : Call → Prop) (program : EStateM ε σ α) where
  client : Client ε View Result α
  asks : client.Asks allowed
  same : client.interpret view meaning = program

namespace ClientOf

variable {view : σ → View} {meaning : (call : Call) → EStateM ε σ (Result call)}
  {allowed : Call → Prop} {program : EStateM ε σ α}

/-- A program that returns at once. -/
def returns (value : α) :
    ClientOf view meaning allowed (pure value : EStateM ε σ α) where
  client := .returns value
  asks := trivial
  same := rfl

/-- A program that stops at once. -/
def stops (reason : ε) :
    ClientOf view meaning allowed (fun state => .error reason state : EStateM ε σ α) where
  client := .stops reason
  asks := trivial
  same := rfl

/-- A single call. -/
def call (made : Call) (permitted : allowed made) :
    ClientOf view meaning allowed (meaning made) where
  client := .asks made .returns
  asks := ⟨permitted, fun _ => trivial⟩
  same := bind_pure (meaning made)

/-- A program that looks at its view. -/
def looks {next : View → EStateM ε σ α}
    (onward : ∀ seen, ClientOf view meaning allowed (next seen)) :
    ClientOf view meaning allowed (get >>= fun state => next (view state)) where
  client := .looks fun seen => (onward seen).client
  asks := fun seen => (onward seen).asks
  same := congrArg (get >>= ·) (funext fun state => (onward (view state)).same)

/-- A sequence, when both parts are clients. -/
def bind {next : α → EStateM ε σ β} (first : ClientOf view meaning allowed program)
    (onward : ∀ value, ClientOf view meaning allowed (next value)) :
    ClientOf view meaning allowed (program >>= next) where
  client := first.client.andThen fun value => (onward value).client
  asks := Client.and_then_asks first.asks fun value => (onward value).asks
  same := by
    rw [Client.and_then_interpret, first.same]
    exact congrArg (program >>= ·) (funext fun value => (onward value).same)

/-- A test, when both branches are. -/
def ite {condition : Prop} [Decidable condition] {other : EStateM ε σ α}
    (holds : ClientOf view meaning allowed program) (fails : ClientOf view meaning allowed other) :
    ClientOf view meaning allowed (if condition then program else other) where
  client := if condition then holds.client else fails.client
  asks := by
    split
    · exact holds.asks
    · exact fails.asks
  same := by
    by_cases given : condition
    · rw [if_pos given, if_pos given, holds.same]
    · rw [if_neg given, if_neg given, fails.same]

/-- More calls may be allowed. -/
def widen {more : Call → Prop} (within : ∀ call, allowed call → more call)
    (walked : ClientOf view meaning allowed program) : ClientOf view meaning more program where
  client := walked.client
  asks := walked.asks.mono within
  same := walked.same

section Rules

variable (walked : ClientOf view meaning allowed program)
include walked

/-- A relation that all calls of a program keep is kept by the program. -/
theorem keeps {relation : σ → σ → Prop} [Std.Refl relation] [IsTrans σ relation]
    (kept : ∀ call, allowed call → Keeps relation (meaning call)) : Keeps relation program := by
  rw [← walked.same]
  exact Client.keeps walked.asks kept

/-- So are the others. -/
theorem coupled {related : σ → σ → Prop}
    (seen : ∀ left right, related left right → view left = view right)
    (kept : ∀ call, allowed call →
      Coupled related (meaning call) (meaning call) (fun _ => related) related) :
    Coupled related program program (fun _ => related) related := by
  rw [← walked.same]
  exact Client.coupled walked.asks seen kept

theorem reproduces {related : σ → σ → Prop}
    (seen : ∀ left right, related left right → view left = view right)
    (kept : ∀ call, allowed call → Reproduces related (meaning call)) :
    Reproduces related program := by
  rw [← walked.same]
  exact Client.reproduces walked.asks seen kept

end Rules

end ClientOf

end Replikon.Foundation
