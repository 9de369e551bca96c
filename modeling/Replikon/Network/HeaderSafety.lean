import Replikon.Network.Delivery
import Replikon.Refinement.HeaderOrder

/-!
# Headers between replicas that merge anything

Replicas add messages and merge updates in any order: updates that other
replicas built, late or again, with signed messages under any lamport. As long
as every step leaves its table well-placed, every header of every replica passes
the guard of every other one. A repeated merge does not: its duplicate rows give
two equal intervals, and the replica that asks with such a header stops.
-/

namespace Replikon.Network

open Foundation

variable {ι : Type} [DecidableEq ι] {Signature : Type} (sodium : Sodium Signature)

/-- A message is added, or an update is merged, whoever built it. -/
inductive Event (ι Signature : Type) where
  | add (replica : ι) (author : Author) (message : ChatMessage)
  | merge (replica : ι) (update : Log.Update Signature)

/-- The replica where something happens. -/
def Event.replica : Event ι Signature → ι
  | .add replica _ _ => replica
  | .merge replica _ => replica

/-- What the replica is left as. -/
def Event.leaves (replica : Replica) : Event ι Signature → Replica
  | .add _ author message => (Log.addNewMessage sodium author message).leaves replica
  | .merge _ update => (Log.merge sodium update).leaves replica

/-- The rows that are added there. -/
def Event.rows (replica : Replica) : Event ι Signature → List MessageColumns
  | .add _ author message => [Log.addedRow sodium replica author message]
  | .merge _ update => Log.acceptedRows sodium replica update

/-- One step. A replica that stops is started again on the database it left. -/
def happen (state : ι → Replica) (event : Event ι Signature) : Option (ι → Replica) :=
  some (Function.update state event.replica (event.leaves sodium (state event.replica)))

omit [DecidableEq ι] in
/-- Every replica starts with an empty table and a database that does not fail. -/
structure Blank (start : ι → Replica) : Prop where
  reliable : ∀ replica, (start replica).Reliable
  empty : ∀ replica, (start replica).messages.columns = []

/-- The rows stored and added at the replica are well-placed. -/
def KeepsPlaces (state : ι → Replica) (event : Event ι Signature) : Prop :=
  WellPlaced ((state event.replica).messages.columns ++ event.rows sodium (state event.replica))

/-- Every list of every header passes the guard, and every replica answers every
header with a request. -/
def HonestHeaders (state : ι → Replica) : Prop :=
  ∀ source puller, ∃ header request,
    Log.getHeader.run (state source) = .ok header (state source) ∧
    (∀ author intervals, header.find author = some intervals →
      isMonotonicNonColliding intervals = true) ∧
    (Log.getRequest header).run (state puller) = .ok request (state puller)

/-- Databases do not fail and tables are well-placed. -/
def Orderly (state : ι → Replica) : Prop :=
  ∀ replica, (state replica).Reliable ∧ WellPlaced (state replica).messages.columns

omit [DecidableEq ι] in
/-- What happens at a replica adds its rows and nothing else. -/
theorem event_leaves {replica : Replica} (reliable : replica.Reliable)
    (event : Event ι Signature) :
    event.leaves sodium replica = replica.store (event.rows sodium replica) := by
  cases event with
  | add _ author message => exact Log.add_new_message_leaves reliable author message
  | merge _ update => exact Log.merge_leaves reliable update

/-- A step extends the table of its replica by the added rows; the others stay. -/
theorem happen_extends (state next : ι → Replica) (event : Event ι Signature)
    (reliable : ∀ replica, (state replica).Reliable)
    (happened : happen sodium state event = some next) (replica : ι) :
    Extends (state replica) (next replica)
      (if replica = event.replica then event.rows sodium (state replica) else []) := by
  obtain rfl := Option.some.inj happened
  by_cases same : replica = event.replica
  · rw [same, Function.update_self, event_leaves sodium (reliable _) event, if_pos rfl]
    exact ⟨(reliable _).store _, Replica.store_columns _ _⟩
  · rw [Function.update_of_ne same, if_neg same]
    exact ⟨reliable replica, (List.append_nil _).symm⟩

/-- A step that keeps the places keeps all tables in order. -/
theorem happen_orderly (state next : ι → Replica) (event : Event ι Signature)
    (orderly : Orderly state) (keeps : KeepsPlaces sodium state event)
    (happened : happen sodium state event = some next) : Orderly next := by
  intro replica
  obtain ⟨reliable, columns⟩ := happen_extends sodium state next event
    (fun other => (orderly other).1) happened replica
  refine ⟨reliable, ?_⟩
  rw [columns]
  by_cases same : replica = event.replica
  · rw [if_pos same, same]
    exact keeps
  · rw [if_neg same, List.append_nil]
    exact (orderly replica).2

omit [DecidableEq ι] in
/-- Tables in order have headers that every replica answers. -/
theorem headers_of_orderly (state : ι → Replica) (orderly : Orderly state) :
    HonestHeaders state := by
  intro source puller
  have remote : ∀ author intervals,
      (tableHeaders (state source).messages).find author = some intervals →
        isMonotonicNonColliding intervals = true := by
    intro author intervals found
    have passes := (orderly source).2.monotonic author
    rwa [found] at passes
  have answered := Log.get_request_run (orderly puller).1 (tableHeaders (state source).messages) ?_
  · exact ⟨_, _, Log.get_header_run (orderly source).1, remote, answered⟩
  · intro entry member
    exact ⟨remote entry.1 entry.2 ((SortedMap.find_eq_some_iff _ _ _).mpr member),
      (orderly puller).2.monotonic entry.1⟩

/-- In a run whose steps all keep the places, every header passes the guard and
every replica answers it, in every state. -/
theorem honest_headers (start : ι → Replica) (blank : Blank start)
    (events : List (Event ι Signature))
    (along : Along (happen sodium) (KeepsPlaces sodium) start events) :
    Throughout (happen sodium) HonestHeaders start events := by
  have initially : Orderly start := by
    intro replica
    refine ⟨blank.reliable replica, ?_⟩
    rw [blank.empty replica]
    exact well_placed_nil
  have throughout := throughout_of_along
    (fun state event next => happen_orderly sodium state next event) start events initially along
  exact throughout.imp headers_of_orderly start events

/-- A message is added at `a` and merged at the other replica. -/
def sampleEvents : List (Event Bool Buffer) :=
  [.add true (ascii "a") Log.sampleMessage, .merge false Log.sampleUpdate]

theorem sample_blank : Blank sampleNetwork.replicas :=
  ⟨sample_network_initial.reliable, sample_network_initial.empty⟩

theorem honest_headers_sample :
    Throughout (happen Sodium.transparent) HonestHeaders sampleNetwork.replicas sampleEvents := by
  refine honest_headers Sodium.transparent sampleNetwork.replicas sample_blank sampleEvents ?_
  intro added happened
  obtain rfl := Option.some.inj happened
  refine ⟨well_placed_single _ (by decide), ?_⟩
  intro merged happenedNext
  refine ⟨?_, trivial⟩
  have rows : Log.acceptedRows Sodium.transparent Log.sampleReplica Log.sampleUpdate =
      [Log.sampleRow] := by
    decide +kernel
  have placed : WellPlaced ([] ++ Log.acceptedRows Sodium.transparent Log.sampleReplica
      Log.sampleUpdate) := by
    rw [rows]
    exact well_placed_single _ (by decide)
  exact placed

/-- The update that `a` built is merged twice. -/
def repeatedEvents : List (Event Bool Buffer) := sampleEvents ++ [.merge false Log.sampleUpdate]

/-- Whether the second replica stops when it asks with the header of the first. -/
def stopsAsking (source puller : Replica) : Bool :=
  match Log.getHeader.run source with
  | .ok header _ =>
    match (Log.getRequest header).run puller with
    | .error .assertion _ => true
    | _ => false
  | .error _ _ => false

/-- An update that `a` built with `getUpdate` is merged twice. The header after it
names the first lamport twice, and `a` stops when it asks with that header. -/
theorem repeated_merge_stops :
    Blank sampleNetwork.replicas ∧
      (∃ request built searched,
        (run (happen Sodium.transparent) sampleNetwork.replicas (sampleEvents.take 1)).map
          (fun state => state true) = some built ∧
        (Log.getUpdate Sodium.transparent request).run built = .ok Log.sampleUpdate searched) ∧
      (run (happen Sodium.transparent) sampleNetwork.replicas repeatedEvents).map
        (fun state => stopsAsking (state false) (state true)) = some true ∧
      ¬ Throughout (happen Sodium.transparent) HonestHeaders sampleNetwork.replicas
        repeatedEvents := by
  have stops : (run (happen Sodium.transparent) sampleNetwork.replicas repeatedEvents).map
      (fun state => stopsAsking (state false) (state true)) = some true := by
    decide +kernel
  refine ⟨sample_blank, ?_, stops, ?_⟩
  · let built := (Log.addNewMessage Sodium.transparent (ascii "a") Log.sampleMessage).leaves
      (sampleNetwork.replicas true)
    let request : Log.Request := SortedMap.empty.insert (ascii "a") [⟨1, 1⟩]
    have reliable : built.Reliable := by
      rw [show built = _ from Log.add_new_message_leaves (sample_network_initial.reliable true) _ _]
      exact (sample_network_initial.reliable true).store _
    obtain ⟨searched, ran⟩ := Log.get_update_run Sodium.transparent reliable request
    have handed : Log.handOutAll Sodium.transparent built.messages request.entries
        SortedMap.empty = some Log.sampleUpdate := by
      rfl
    rw [handed] at ran
    exact ⟨request, built, _, rfl, ran⟩
  · intro throughout
    obtain ⟨final, ran, stopped⟩ := Option.map_eq_some_iff.mp stops
    have honest := (throughout_iff sampleNetwork.replicas repeatedEvents).mp throughout
      repeatedEvents (List.prefix_refl _) final ran
    obtain ⟨header, request, offered, _, answered⟩ := honest false true
    simp only [stopsAsking, offered, answered] at stopped
    exact absurd stopped (by decide)

end Replikon.Network
