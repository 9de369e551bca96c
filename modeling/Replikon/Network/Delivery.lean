import Mathlib.Logic.Function.Basic
import Replikon.Foundation.Runs
import Replikon.Refinement.Lamports

/-!
# Pulls in separate steps, over a network that repeats

Any number of replicas add messages under their own names and pull from each
other. Each of the four steps of a pull is a step of its own, and the headers,
requests and updates between them stay in flight: each may be taken up late, any
number of times and in any order. A replica that stops is started again on the
database it left.

No table holds two rows with the same author and lamport exactly as long as
every merged update brings new messages only: the table itself does not turn
known ones away.
-/

namespace Replikon.Network

open Foundation

variable {ι : Type} [DecidableEq ι] {Signature : Type}

/-- The replicas, and what was sent between them. A header is kept with its
source, a request with its source and its puller, an update with its puller. -/
structure State (ι Signature : Type) where
  replicas : ι → Replica
  headers : List (ι × Log.Header)
  requests : List (ι × ι × Log.Request)
  updates : List (ι × Log.Update Signature)

/-- The steps. What is in flight is named by its place. A message to add comes with
a given lamport, which the log replaces. -/
inductive Action (ι : Type) where
  | add (replica : ι) (given originTs : UInt64) (body : Text)
  | header (source : ι)
  | request (puller : ι) (header : Nat)
  | update (request : Nat)
  | merge (update : Nat)

/-- Run a program on one replica and hand its value on, if it returns one. -/
def State.runAt {α : Type} (state : State ι Signature) (replica : ι) (program : Program α)
    (send : α → State ι Signature → State ι Signature) : State ι Signature :=
  match program.run (state.replicas replica) with
  | .ok value after =>
    send value { state with replicas := Function.update state.replicas replica after }
  | .error _ after => { state with replicas := Function.update state.replicas replica after }

variable (sodium : Sodium Signature) (name : ι → Author)

/-- One step. There is none for a place that holds nothing. -/
def step (state : State ι Signature) : Action ι → Option (State ι Signature)
  | .add replica given originTs body =>
    some (state.runAt replica
      (Log.addNewMessage sodium (name replica) ⟨name replica, given, originTs, body⟩)
      fun _ next => next)
  | .header source =>
    some (state.runAt source Log.getHeader
      fun header next => { next with headers := next.headers ++ [(source, header)] })
  | .request puller place => do
    let (source, header) ← state.headers[place]?
    some (state.runAt puller (Log.getRequest header)
      fun request next => { next with requests := next.requests ++ [(source, puller, request)] })
  | .update place => do
    let (source, puller, request) ← state.requests[place]?
    some (state.runAt source (Log.getUpdate sodium request)
      fun update next => { next with updates := next.updates ++ [(puller, update)] })
  | .merge place => do
    let (puller, update) ← state.updates[place]?
    some (state.runAt puller (Log.merge sodium update) fun _ next => next)

/-- Every replica has an empty table and a database that does not fail, and
nothing is in flight. -/
structure Initial (state : State ι Signature) : Prop where
  reliable : ∀ replica, (state.replicas replica).Reliable
  empty : ∀ replica, (state.replicas replica).messages.columns = []
  headers : state.headers = []
  requests : state.requests = []
  updates : state.updates = []

/-- No table holds two rows with the same author and lamport. -/
def AllDistinct (state : State ι Signature) : Prop :=
  ∀ replica, (state.replicas replica).messages.Distinct

/-- The step adds no message that is there already. A replica that adds one
stores no message of its own with the last lamport; the messages that verify in
a merged update are different ones, and none of them is stored at the puller. -/
def BringsNew (state : State ι Signature) : Action ι → Prop
  | .add replica _ _ _ =>
    ∀ row ∈ (state.replicas replica).messages.columns, row.author = name replica →
      row.lamport ≠ Int64.maxValue
  | .merge place =>
    ∀ puller update, state.updates[place]? = some (puller, update) →
      let accepted := (Log.acceptedRows sodium (state.replicas puller) update).map
        MessageColumns.identity
      accepted.Nodup ∧ ∀ identity ∈ accepted,
        identity ∉ (state.replicas puller).messages.columns.map MessageColumns.identity
  | _ => True

/-- The rows that a step adds at a replica. -/
def addsAt (state : State ι Signature) (other : ι) : Action ι → List MessageColumns
  | .add replica given originTs body =>
    if other = replica then
      [Log.addedRow sodium (state.replicas replica) (name replica)
        ⟨name replica, given, originTs, body⟩]
    else []
  | .merge place =>
    match state.updates[place]? with
    | some (puller, update) =>
      if other = puller then Log.acceptedRows sodium (state.replicas puller) update else []
    | none => []
  | _ => []

/-- The replica has the given further rows, and its database does not fail. -/
def Extends (before after : Replica) (rows : List MessageColumns) : Prop :=
  after.Reliable ∧ after.messages.columns = before.messages.columns ++ rows

section RunAt

variable {α : Type} {state : State ι Signature} (reliable : ∀ other, (state.replicas other).Reliable)
  (replica : ι) (program : Program α) (send : α → State ι Signature → State ι Signature)
  (sends : ∀ value next, (send value next).replicas = next.replicas) (rows : List MessageColumns)
  (extended : Extends (state.replicas replica) (program.leaves (state.replicas replica)) rows)
include reliable sends extended

/-- A program that runs at one replica extends its table; the others stay. -/
theorem run_at_extends (other : ι) :
    Extends (state.replicas other) ((state.runAt replica program send).replicas other)
      (if other = replica then rows else []) := by
  have replicas : (state.runAt replica program send).replicas =
      Function.update state.replicas replica (program.leaves (state.replicas replica)) := by
    unfold State.runAt Program.leaves
    cases program.run (state.replicas replica) with
    | ok value after => exact sends value _
    | error reason after => rfl
  rw [replicas]
  by_cases same : other = replica
  · subst same
    rw [Function.update_self, if_pos rfl]
    exact extended
  · rw [Function.update_of_ne same, if_neg same]
    exact ⟨reliable other, (List.append_nil _).symm⟩

omit extended in
/-- A program that adds no rows leaves every table as it was. -/
theorem run_at_quiet (quiet : Extends (state.replicas replica)
      (program.leaves (state.replicas replica)) []) (other : ι) :
    Extends (state.replicas other) ((state.runAt replica program send).replicas other) [] := by
  have kept := run_at_extends reliable replica program send sends [] quiet other
  rwa [ite_self] at kept

end RunAt

/-- Every table after a step is the table before it with the added rows. -/
theorem step_extends (state next : State ι Signature) (action : Action ι)
    (reliable : ∀ other, (state.replicas other).Reliable)
    (stepped : step sodium name state action = some next) (other : ι) :
    Extends (state.replicas other) (next.replicas other) (addsAt sodium name state other action) := by
  cases action with
  | add replica given originTs body =>
    obtain rfl := Option.some.inj stepped
    refine run_at_extends reliable replica _ _ (fun _ _ => rfl) _ ?_ other
    rw [Log.add_new_message_leaves (reliable replica)]
    exact ⟨(reliable replica).store _, Replica.store_columns _ _⟩
  | header source =>
    obtain rfl := Option.some.inj stepped
    refine run_at_quiet reliable source Log.getHeader _ ?_ ?_ other
    · intro _ _
      rfl
    · rw [Log.get_header_leaves (reliable source)]
      exact ⟨reliable source, (List.append_nil _).symm⟩
  | request puller place =>
    obtain ⟨⟨source, header⟩, _, taken⟩ := Option.bind_eq_some_iff.mp stepped
    obtain rfl := Option.some.inj taken
    refine run_at_quiet reliable puller (Log.getRequest header) _ ?_ ?_ other
    · intro _ _
      rfl
    · rw [Log.get_request_leaves (reliable puller)]
      exact ⟨reliable puller, (List.append_nil _).symm⟩
  | update place =>
    obtain ⟨⟨source, puller, request⟩, _, taken⟩ := Option.bind_eq_some_iff.mp stepped
    obtain rfl := Option.some.inj taken
    refine run_at_quiet reliable source (Log.getUpdate sodium request) _ ?_ ?_ other
    · intro _ _
      rfl
    · obtain ⟨searched, leaves⟩ := Log.get_update_leaves sodium (reliable source) request
      rw [leaves]
      exact ⟨reliable source, (List.append_nil _).symm⟩
  | merge place =>
    obtain ⟨⟨puller, update⟩, found, taken⟩ := Option.bind_eq_some_iff.mp stepped
    obtain rfl := Option.some.inj taken
    simp only [addsAt, found]
    refine run_at_extends reliable puller _ _ (fun _ _ => rfl) _ ?_ other
    rw [Log.merge_leaves (reliable puller)]
    exact ⟨(reliable puller).store _, Replica.store_columns _ _⟩

/-- Rows extend a distinct table to a distinct one exactly when they are
distinct and none of them is there already. -/
theorem distinct_extended (table : MessagesTable) (distinct : table.Distinct)
    (rows : List MessageColumns) :
    ((table.columns ++ rows).map MessageColumns.identity).Nodup ↔
      (rows.map MessageColumns.identity).Nodup ∧ ∀ identity ∈ rows.map MessageColumns.identity,
        identity ∉ table.columns.map MessageColumns.identity := by
  rw [List.map_append, List.nodup_append]
  constructor
  · rintro ⟨_, apart, separate⟩
    exact ⟨apart, fun identity added held => separate identity held identity added rfl⟩
  · rintro ⟨apart, new⟩
    refine ⟨distinct, apart, ?_⟩
    rintro identity held other added rfl
    exact new identity added held

/-- A step brings new messages exactly when each table is extended by new rows. -/
theorem brings_new_iff (state next : State ι Signature) (action : Action ι)
    (stepped : step sodium name state action = some next) :
    BringsNew sodium name state action ↔
      ∀ other, ((addsAt sodium name state other action).map MessageColumns.identity).Nodup ∧
        ∀ identity ∈ (addsAt sodium name state other action).map MessageColumns.identity,
          identity ∉ (state.replicas other).messages.columns.map MessageColumns.identity := by
  cases action with
  | add replica given originTs body =>
    have fresh := Log.added_fresh_iff sodium (state.replicas replica) (name replica)
      ⟨name replica, given, originTs, body⟩ rfl
    rw [BringsNew, ← fresh]
    constructor
    · intro new other
      by_cases same : other = replica
      · subst same
        simpa [addsAt] using new
      · simp [addsAt, same]
    · intro new
      have here := new replica
      simpa [addsAt] using here
  | header source => simp [BringsNew, addsAt]
  | request puller place => simp [BringsNew, addsAt]
  | update place => simp [BringsNew, addsAt]
  | merge place =>
    obtain ⟨⟨puller, update⟩, found, _⟩ := Option.bind_eq_some_iff.mp stepped
    constructor
    · intro new other
      have here := new puller update found
      by_cases same : other = puller
      · subst same
        simpa [addsAt, found] using here
      · simp [addsAt, found, same]
    · intro new someone other sent
      rw [found] at sent
      obtain ⟨rfl, rfl⟩ := Prod.mk.inj (Option.some.inj sent)
      have here := new puller
      simpa [addsAt, found] using here

/-- In every run from empty tables, no table ever holds two rows with the same
author and lamport exactly when every step of the run brings new messages. -/
theorem distinct_throughout_iff (start : State ι Signature) (initial : Initial start)
    (actions : List (Action ι)) :
    Throughout (step sodium name) AllDistinct start actions ↔
      Along (step sodium name) (BringsNew sodium name) start actions := by
  have keeps : ∀ (state : State ι Signature) (action : Action ι) (next : State ι Signature),
      (∀ other, (state.replicas other).Reliable) → step sodium name state action = some next →
        ∀ other, (next.replicas other).Reliable :=
    fun state action next reliable stepped other =>
      (step_extends sodium name state next action reliable stepped other).1
  refine throughout_iff_along keeps ?_ start actions initial.reliable ?_
  · intro state action next reliable distinct stepped
    rw [brings_new_iff sodium name state next action stepped]
    refine forall_congr' fun other => ?_
    have extended := (step_extends sodium name state next action reliable stepped other).2
    rw [MessagesTable.Distinct, extended]
    exact distinct_extended _ (distinct other) _
  · intro replica
    rw [MessagesTable.Distinct, initial.empty replica]
    exact List.nodup_nil

/-- Two new replicas: the author `a`, and one that knows its key. -/
def sampleNetwork : State Bool Buffer where
  replicas author :=
    if author then
      .fresh false (ascii "a") (Sodium.transparent.publicKey (sampleKey 1)) (sampleKey 1) []
    else Log.sampleReplica
  headers := []
  requests := []
  updates := []

/-- The names of the two replicas. -/
def sampleName (author : Bool) : Author := if author then ascii "a" else ascii "b"

theorem sample_network_initial : Initial sampleNetwork := by
  refine ⟨?_, ?_, rfl, rfl, rfl⟩ <;> intro replica <;> cases replica <;> rfl

/-- One message, one pull, and its update delivered twice. -/
def redelivery : List (Action Bool) :=
  [.add true 0 5 (ascii "hi"), .header true, .request false 0, .update 0, .merge 0, .merge 0]

theorem distinct_throughout_iff_sample :
    Throughout (step Sodium.transparent sampleName) AllDistinct sampleNetwork redelivery ↔
      Along (step Sodium.transparent sampleName) (BringsNew Sodium.transparent sampleName)
        sampleNetwork redelivery :=
  distinct_throughout_iff Sodium.transparent sampleName sampleNetwork sample_network_initial
    redelivery

/-- A delivery that is repeated stores its message twice. -/
theorem redelivery_duplicates :
    Initial sampleNetwork ∧ Function.Injective sampleName ∧
      ¬ Throughout (step Sodium.transparent sampleName) AllDistinct sampleNetwork redelivery := by
  refine ⟨sample_network_initial, by decide, ?_⟩
  intro throughout
  have ends : (run (step Sodium.transparent sampleName) sampleNetwork redelivery).map
      (fun state => decide ((state.replicas false).messages.columns.map
        MessageColumns.identity).Nodup) = some false := by
    decide +kernel
  obtain ⟨final, ran, duplicated⟩ := Option.map_eq_some_iff.mp ends
  have distinct := (throughout_iff sampleNetwork redelivery).mp throughout redelivery
    (List.prefix_refl _) final ran false
  exact of_decide_eq_false duplicated distinct

end Replikon.Network
