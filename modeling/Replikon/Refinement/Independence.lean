import Replikon.Refinement.Durability
import Replikon.Refinement.Merge
import Replikon.Refinement.Views

/-!
# Restarts and the message log are not seen

The only state of an instance that is not in its database file is the temporary
table, which no call sees. A restart under the same identity can therefore be
put anywhere into the life of a database, and no later call answers differently.
The key directory sees neither the messages nor the temporary table: it answers
and develops as if the calls on the log had not been made.
-/

namespace Replikon

open Foundation

section Frames

variable {allowed : Write → Prop} {before after : Replica}

/-- No change touches the build and the identity. -/
theorem changes_identity (changes : Changes allowed before after) :
    after.ndebug = before.ndebug ∧ after.self = before.self ∧
      after.selfPubKey = before.selfPubKey ∧ after.selfPrivKey = before.selfPrivKey := by
  induction changes with
  | refl => exact ⟨rfl, rfl, rfl, rfl⟩
  | tail _ last inductionHypothesis =>
    cases last with
    | called outcome rest script => exact inductionHypothesis
    | read => exact inductionHypothesis
    | wrote write permitted => cases write <;> exact inductionHypothesis

/-- A database that does not fail does not fail later. -/
theorem changes_reliable (changes : Changes allowed before after) (reliable : before.Reliable) :
    after.Reliable := by
  induction changes with
  | refl => exact reliable
  | tail _ last inductionHypothesis =>
    cases last with
    | called outcome rest script =>
      rw [show _ = [] from inductionHypothesis] at script
      cases script
    | read => exact inductionHypothesis
    | wrote write permitted => cases write <;> exact inductionHypothesis

/-- Where no key and no value is written, the directory stays. -/
theorem changes_directory (changes : Changes allowed before after)
    (outside : ∀ write, allowed write → write.OfMessage ∨ write.OfIntervals) :
    after.security = before.security ∧ after.keyValue = before.keyValue := by
  induction changes with
  | refl => exact ⟨rfl, rfl⟩
  | tail _ last inductionHypothesis =>
    cases last with
    | called outcome rest script => exact inductionHypothesis
    | read => exact inductionHypothesis
    | wrote write permitted =>
      rcases outside write permitted with message | intervals
      · cases write <;> first | exact inductionHypothesis | exact message.elim
      · cases write <;> first | exact inductionHypothesis | exact intervals.elim

/-- Where no message is written, the messages stay. -/
theorem changes_messages (changes : Changes allowed before after)
    (outside : ∀ write, allowed write → ¬ write.OfMessage) : after.messages = before.messages := by
  induction changes with
  | refl => rfl
  | tail _ last inductionHypothesis =>
    cases last with
    | called outcome rest script => exact inductionHypothesis
    | read => exact inductionHypothesis
    | wrote write permitted =>
      cases write <;> first | exact inductionHypothesis | exact absurd trivial (outside _ permitted)

end Frames

namespace Instance

variable {Signature : Type} (sodium : Sodium Signature) (layouts : KeysCrdt.Layouts)

/-- The call is one on the key directory. -/
def Call.onKeys : Call Signature → Bool
  | .keysHeader => true
  | .keysRequest _ => true
  | .keysUpdate _ => true
  | .keysMerge _ => true
  | .addKey _ _ => true
  | .setAdmin _ _ => true
  | _ => false

/-- What the caller gets: the answer, or the reason why there is none. -/
def Call.answer (replica : Replica) (call : Call Signature) : Except Stop (Answer Signature) :=
  match (call.program sodium layouts).run replica with
  | .ok answer _ => .ok answer
  | .error reason _ => .error reason

/-- The visit is a call on the key directory. -/
def Visit.onKeys : Visit Signature → Bool
  | .call _ _ made => made.onKeys
  | .restart _ _ _ => false

/-- A call on the log keeps the directory. -/
theorem keeps_log_call (call : Call Signature) (log : call.onKeys = false) :
    Keeps (Changes fun write => write.OfMessage ∨ write.OfIntervals)
      (call.program sodium layouts) := by
  have messages : ∀ {α : Type} {program : Program α}, Keeps (Changes Write.OfMessage) program →
      Keeps (Changes fun write => write.OfMessage ∨ write.OfIntervals) program :=
    fun keeps => keeps.mono fun _ _ => Changes.mono fun _ => .inl
  have intervals : ∀ {α : Type} {program : Program α}, Keeps (Changes Write.OfIntervals) program →
      Keeps (Changes fun write => write.OfMessage ∨ write.OfIntervals) program :=
    fun keeps => keeps.mono fun _ _ => Changes.mono fun _ => .inr
  cases call with
  | logHeader => exact Log.keeps_get_header.bind fun _ => keeps_pure _
  | logRequest header => exact (Log.keeps_get_request header).bind fun _ => keeps_pure _
  | logUpdate request =>
    exact (intervals (Log.keeps_get_update sodium request)).bind fun _ => keeps_pure _
  | logMerge update => exact (messages (Log.keeps_merge sodium update)).bind fun _ => keeps_pure _
  | addNewMessage author v =>
    exact (messages (Log.keeps_add_new_message sodium author v)).bind fun _ => keeps_pure _
  | keysHeader => cases log
  | keysRequest header => cases log
  | keysUpdate request => cases log
  | keysMerge update => cases log
  | addKey author pubKey => cases log
  | setAdmin admin pubKey => cases log

/-- A call on the key directory keeps the messages. -/
theorem keeps_keys_call (call : Call Signature) (keys : call.onKeys = true) :
    Keeps (Changes fun write => write.OfDirectory ∨ write.OfAdminKey)
      (call.program sodium layouts) := by
  have directory : ∀ {α : Type} {program : Program α}, Keeps (Changes Write.OfDirectory) program →
      Keeps (Changes fun write => write.OfDirectory ∨ write.OfAdminKey) program :=
    fun keeps => keeps.mono fun _ _ => Changes.mono fun _ => .inl
  have values : ∀ {α : Type} {program : Program α}, Keeps (Changes Write.OfValue) program →
      Keeps (Changes fun write => write.OfDirectory ∨ write.OfAdminKey) program :=
    fun keeps => directory (KeysCrdt.keeps_values_in_directory keeps)
  cases call with
  | keysHeader => exact (values KeysCrdt.keeps_get_header).bind fun _ => keeps_pure _
  | keysRequest header =>
    exact (values (KeysCrdt.keeps_get_request header)).bind fun _ => keeps_pure _
  | keysUpdate request =>
    exact (values (KeysCrdt.keeps_get_update sodium request)).bind fun _ => keeps_pure _
  | keysMerge update =>
    exact (directory (KeysCrdt.keeps_merge sodium layouts update)).bind fun _ => keeps_pure _
  | addKey author pubKey =>
    exact (directory (KeysCrdt.keeps_add_key sodium layouts author pubKey)).bind
      fun _ => keeps_pure _
  | setAdmin admin pubKey =>
    have flagged : Keeps (Changes fun write => write.OfDirectory ∨ write.OfAdminKey)
        (KeysCrdt.setAdmin admin pubKey) :=
      (KeysCrdt.keeps_set_admin admin pubKey).mono fun _ _ => Changes.mono fun _ => .inr
    exact flagged.bind fun _ => keeps_pure _
  | logHeader => cases keys
  | logRequest header => cases keys
  | logUpdate request => cases keys
  | logMerge update => cases keys
  | addNewMessage author v => cases keys

/-- The statements of the key directory store no message. -/
theorem directory_writes_no_message (write : Write)
    (keys : write.OfDirectory ∨ write.OfAdminKey) : ¬ write.OfMessage := by
  rintro message
  cases write <;> rcases keys with (publicKey | value) | adminKey <;>
    first | exact message.elim | exact publicKey.elim | exact value.elim | exact adminKey.elim

end Instance

end Replikon
