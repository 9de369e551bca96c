import Replikon.Refinement.StoredText
import Replikon.Refinement.Versions

/-!
# Which peer input a replica survives

Headers, requests and updates come from peers as they are. In a build with
assertions the guard of the interval sweep and the comparison of the admins stop
the process. Nothing checks the input before: a list of intervals that is not
ascending, or another author than the admin, is enough. The other entry points
return on every input, since every stored signature was written by the replica.
-/

namespace Replikon

open Foundation

variable {Signature : Type} (sodium : Sodium Signature) (layouts : KeysCrdt.Layouts)

/-- What a running instance does besides answering peers. -/
inductive Activity (Signature : Type) where
  | addKey (author : Author) (pubKey : PubKey)
  | addNewMessage (author : Author) (message : ChatMessage)
  | mergeLog (update : Log.Update Signature)
  | mergeKeys (update : KeysCrdt.Update Signature)

/-- What an activity leaves, whether it returns or stops. -/
def Activity.leaves (replica : Replica) : Activity Signature → Replica
  | .addKey author pubKey => (KeysCrdt.addKey sodium layouts author pubKey).leaves replica
  | .addNewMessage author message => (Log.addNewMessage sodium author message).leaves replica
  | .mergeLog update => (Log.merge sodium update).leaves replica
  | .mergeKeys update => (KeysCrdt.merge sodium layouts update).leaves replica

/-- The states of an instance built with assertions, after one `setAdmin` and
any activities. -/
inductive Hosted (admin : Author) : Replica → Prop where
  | start (self : Author) (pubKey : PubKey) (privKey : PrivKey) (stack : List SqliteResult)
      (adminKey : PubKey) :
      Hosted admin ((KeysCrdt.setAdmin admin adminKey).leaves
        (.fresh false self pubKey privKey stack))
  | active (replica : Replica) (activity : Activity Signature) (hosted : Hosted admin replica) :
      Hosted admin (activity.leaves sodium layouts replica)

/-- A call that peers can cause, with the value they send. -/
inductive PeerInput (Signature : Type) where
  | logRequest (header : Log.Header)
  | logUpdate (request : Log.Request)
  | logMerge (update : Log.Update Signature)
  | keysRequest (header : KeysCrdt.Header)
  | keysMerge (update : KeysCrdt.Update Signature)

/-- The program returns to its caller. -/
def Program.Returns {α : Type} (program : Program α) (replica : Replica) : Prop :=
  ∃ value after, program.run replica = .ok value after

/-- The call returns to its caller. -/
def PeerInput.Returns (replica : Replica) : PeerInput Signature → Prop
  | .logRequest header => (Log.getRequest header).Returns replica
  | .logUpdate request => (Log.getUpdate sodium request).Returns replica
  | .logMerge update => (Log.merge sodium update).Returns replica
  | .keysRequest header => (KeysCrdt.getRequest header).Returns replica
  | .keysMerge update => (KeysCrdt.merge sodium layouts update).Returns replica

/-- Every list of a message header, and the replica's own list of the same
author, passes the guard of the sweep; what concerns the key directory names the
admin as it is read. -/
def PeerInput.Acceptable (admin : Author) (replica : Replica) : PeerInput Signature → Prop
  | .logRequest header => ∀ entry ∈ header.entries,
      isMonotonicNonColliding entry.2 = true ∧
        isMonotonicNonColliding (((tableHeaders replica.messages).find entry.1).getD []) = true
  | .logUpdate _ => True
  | .logMerge _ => True
  | .keysRequest header => header.1 = cString admin
  | .keysMerge update => update.author = cString admin

/-- What holds of every hosted instance. -/
structure Ready (admin : Author) (replica : Replica) : Prop where
  reliable : replica.Reliable
  asserting : replica.ndebug = false
  admins : replica.security.adminNames = [admin]
  readable : Log.Readable sodium replica.messages

variable {sodium layouts} {admin : Author} {replica : Replica}

/-- Rows with the bytes of signatures may be stored. -/
theorem Ready.store (ready : Ready sodium admin replica) (rows : List MessageColumns)
    (signed : ∀ row ∈ rows, ∃ signature, row.signature = sodium.toBytes signature) :
    Ready sodium admin (replica.store rows) := by
  refine ⟨ready.reliable, ready.asserting, ready.admins, ?_⟩
  intro row member
  rw [Replica.store_columns] at member
  rcases List.mem_append.mp member with old | new
  · exact ready.readable row old
  · obtain ⟨signature, same⟩ := signed row new
    rw [same, sodium.of_to_bytes]
    rfl

/-- A call on the key directory keeps the messages and the build. -/
theorem KeysCrdt.call_keeps_messages (reliable : replica.Reliable) (call : Call Signature)
    (unset : call.sets = none) :
    (call.leaves sodium layouts replica).messages = replica.messages ∧
      (call.leaves sodium layouts replica).ndebug = replica.ndebug := by
  cases call with
  | setAdmin admin pubKey => simp [Call.sets] at unset
  | addKey author pubKey =>
    rw [Call.leaves, Program.leaves, add_key_run reliable]
    simp
  | merge update =>
    have left := template_merge_leaves reliable (ed25519 sodium layouts) update
    rw [ed25519_merge] at left
    rw [Call.leaves]
    rcases left with same | same | ⟨_, same⟩ <;> rw [same] <;> simp [Provider.installed]

/-- A call on the key directory that sets nobody keeps an instance ready. -/
theorem Ready.call (ready : Ready sodium admin replica) (call : KeysCrdt.Call Signature)
    (unset : call.sets = none) : Ready sodium admin (call.leaves sodium layouts replica) := by
  obtain ⟨reliable, admins⟩ :=
    @KeysCrdt.call_keeps_admins _ sodium layouts _ ready.reliable call unset
  obtain ⟨messages, build⟩ :=
    @KeysCrdt.call_keeps_messages _ sodium layouts _ ready.reliable call unset
  exact ⟨reliable, build.trans ready.asserting, admins.trans ready.admins, messages ▸ ready.readable⟩

/-- Every hosted instance is ready, by induction on its activities. -/
theorem Hosted.ready (hosted : Hosted sodium layouts admin replica) :
    Ready sodium admin replica := by
  induction hosted with
  | start self pubKey privKey stack adminKey =>
    rw [KeysCrdt.set_admin_leaves (show (Replica.fresh false self pubKey privKey stack).Reliable
      from rfl)]
    exact ⟨rfl, rfl, rfl, fun row member => absurd member List.not_mem_nil⟩
  | active replica activity _ ready =>
    cases activity with
    | addKey author pubKey => exact ready.call (.addKey author pubKey) rfl
    | mergeKeys update => exact ready.call (.merge update) rfl
    | addNewMessage author message =>
      rw [Activity.leaves, Log.add_new_message_leaves ready.reliable]
      refine ready.store _ fun row member => ?_
      rw [List.mem_singleton.mp member]
      exact ⟨_, rfl⟩
    | mergeLog update =>
      rw [Activity.leaves, Log.merge_leaves ready.reliable]
      refine ready.store _ fun row member => ?_
      obtain ⟨offer, _, rfl⟩ := List.mem_map.mp member
      exact ⟨_, rfl⟩

/-- A program that is known to stop does not return. -/
theorem not_returns {α : Type} {program : Program α} {reason : Stop} {after : Replica}
    (stopped : program.run replica = .error reason after) : ¬ program.Returns replica := by
  rintro ⟨value, final, ran⟩
  rw [stopped] at ran
  cases ran

/-- A request for messages returns exactly when all lists pass the guard. -/
theorem Ready.log_request (ready : Ready sodium admin replica) (header : Log.Header) :
    (Log.getRequest header).Returns replica ↔
      ∀ entry ∈ header.entries, isMonotonicNonColliding entry.2 = true ∧
        isMonotonicNonColliding (((tableHeaders replica.messages).find entry.1).getD []) = true := by
  have guard : ∀ entry : Text × List Interval,
      Log.Passes replica (tableHeaders replica.messages) entry ↔
        isMonotonicNonColliding entry.2 = true ∧
          isMonotonicNonColliding (((tableHeaders replica.messages).find entry.1).getD []) = true := by
    intro entry
    rw [Log.Passes, ready.asserting, Bool.false_or, Bool.and_eq_true]
  rcases Log.get_request_cases ready.reliable header with ⟨all, ran⟩ | ⟨⟨entry, member, fails⟩, ran⟩
  · exact iff_of_true ⟨_, _, ran⟩ fun entry member => (guard entry).mp (all entry member)
  · refine iff_of_false (not_returns ran) fun all => ?_
    exact fails ((guard entry).mpr (all entry member))

/-- A comparison with the admin stops the instance exactly when it fails. -/
theorem Ready.keys_request (ready : Ready sodium admin replica) (header : KeysCrdt.Header) :
    (KeysCrdt.getRequest header).Returns replica ↔ header.1 = cString admin := by
  have offered := KeysCrdt.get_header_run ready.reliable admin ready.admins
  by_cases same : header.1 = cString admin
  · refine iff_of_true ?_ same
    have passed : (replikonAssert (cString admin == header.1)).run (KeysCrdt.settled replica) =
        .ok () (KeysCrdt.settled replica) := assert_run _ (by simp [same])
    rw [Program.Returns, KeysCrdt.getRequest, bind_ok _ offered]
    simp only
    rw [bind_ok _ passed]
    exact ⟨_, _, rfl⟩
  · refine iff_of_false ?_ same
    have fails : (replikonAssert (cString admin == header.1)).run (KeysCrdt.settled replica) =
        .error .assertion (KeysCrdt.settled replica) := by
      have differs : (cString admin == header.1) = false := beq_eq_false_iff_ne.mpr (Ne.symm same)
      exact assert_stops_run _ differs ((KeysCrdt.settled_ndebug replica).trans ready.asserting)
    have stops : (KeysCrdt.getRequest header).run replica =
        .error .assertion (KeysCrdt.settled replica) := by
      rw [KeysCrdt.getRequest, bind_ok _ offered]
      exact bind_error _ fails
    exact not_returns stops

theorem Ready.keys_merge (ready : Ready sodium admin replica)
    (update : KeysCrdt.Update Signature) :
    (KeysCrdt.merge sodium layouts update).Returns replica ↔ update.author = cString admin := by
  have known := ((KeysCrdt.finds_admin_iff ready.reliable (cString admin)).mpr
    ⟨admin, ready.admins, rfl⟩).2
  have ran := @KeysCrdt.merge_run _ sodium layouts _ ready.reliable _ known update
  by_cases same : update.author = cString admin
  · refine iff_of_true ?_ same
    rw [if_neg (by simp [same])] at ran
    rw [Program.Returns, ran]
    split
    · exact ⟨_, _, rfl⟩
    · split <;> exact ⟨_, _, rfl⟩
  · refine iff_of_false ?_ same
    rw [if_pos ⟨fun equal => same equal.symm, ready.asserting⟩] at ran
    exact not_returns ran

/-- A hosted instance survives a peer's call exactly when its value is acceptable. -/
theorem peer_input_returns_iff (hosted : Hosted sodium layouts admin replica)
    (input : PeerInput Signature) :
    input.Returns sodium layouts replica ↔ input.Acceptable admin replica := by
  have ready := hosted.ready
  cases input with
  | logRequest header => exact ready.log_request header
  | logUpdate request =>
    obtain ⟨after, ran⟩ := Log.get_update_readable ready.reliable ready.readable request
    exact iff_of_true ⟨_, after, ran⟩ trivial
  | logMerge update => exact iff_of_true ⟨_, _, Log.merge_run ready.reliable update⟩ trivial
  | keysRequest header => exact ready.keys_request header
  | keysMerge update => exact ready.keys_merge update

/-- A hosted instance of the build with assertions. -/
def sampleHost : Replica :=
  (KeysCrdt.setAdmin (ascii "r") (Sodium.transparent.publicKey (sampleKey 9))).leaves
    (.fresh false (ascii "b") (Sodium.transparent.publicKey (sampleKey 2)) (sampleKey 2) [])

theorem sample_host_hosted :
    Hosted Sodium.transparent KeysCrdt.sampleLayouts (ascii "r") sampleHost :=
  .start (ascii "b") _ (sampleKey 2) [] _

/-- A header that names the admin is answered. -/
theorem peer_input_returns_iff_sample :
    (PeerInput.keysRequest (ascii "r", 1) : PeerInput Buffer).Returns Sodium.transparent
      KeysCrdt.sampleLayouts sampleHost :=
  (peer_input_returns_iff sample_host_hosted (.keysRequest (ascii "r", 1))).mpr rfl

/-- Two intervals in the wrong order. -/
def unorderedHeader : Log.Header :=
  SortedMap.empty.insert (ascii "a") [⟨5, 1⟩, ⟨1, 1⟩]

/-- A header with unordered intervals stops a hosted instance. -/
theorem unordered_header_stops :
    ¬ ∀ (replica : Replica), Hosted Sodium.transparent KeysCrdt.sampleLayouts (ascii "r") replica →
      ∀ input : PeerInput Buffer,
        input.Returns Sodium.transparent KeysCrdt.sampleLayouts replica := by
  intro survives
  have accepted := (sample_host_hosted.ready.log_request unorderedHeader).mp
    (survives sampleHost sample_host_hosted (.logRequest unorderedHeader))
  have guard := (accepted (ascii "a", [⟨5, 1⟩, ⟨1, 1⟩]) (by decide)).1
  exact absurd guard (by decide)

end Replikon
