import Replikon.Refinement.Independence
import Replikon.Refinement.Pull

/-!
# What each call brings

On a database that does not fail, every call of an instance comes down to three
things: the messages it adds, the keys it registers and the bytes it signs. Only
`merge` and `addNewMessage` of the log add messages; only `addKey`, `setAdmin`
and an update that `merge` accepts register keys; only `addNewMessage` and
`addKey` sign.
-/

namespace Replikon

open Foundation KeysCrdt

variable {α β : Type}

/-- To turn the value of a program into an answer changes nothing. -/
theorem leaves_answered (program : Program α) (answer : α → β) (replica : Replica) :
    (program >>= fun value => pure (answer value)).leaves replica = program.leaves replica := by
  rw [Program.leaves, Program.leaves]
  cases ended : program.run replica with
  | ok value after => rw [bind_ok _ ended, EStateM.run_pure]
  | error reason after => rw [bind_error _ ended]

/-- Where no key is written, the key table stays. -/
theorem changes_security {allowed : Write → Prop} {before after : Replica}
    (changes : Changes allowed before after)
    (outside : ∀ write, allowed write → ¬ write.OfPublicKey ∧ ¬ write.OfAdminKey) :
    after.security = before.security := by
  induction changes with
  | refl => rfl
  | tail _ last inductionHypothesis =>
    cases last with
    | called outcome rest script => exact inductionHypothesis
    | read => exact inductionHypothesis
    | wrote write permitted =>
      obtain ⟨publicKey, adminKey⟩ := outside write permitted
      cases write <;> first
        | exact inductionHypothesis
        | exact absurd trivial publicKey
        | exact absurd trivial adminKey

/-- A program that writes values only keeps the key table. -/
theorem leaves_security_of_values {program : Program α}
    (keeps : Keeps (Changes Write.OfValue) program) (replica : Replica) :
    (program.leaves replica).security = replica.security := by
  refine changes_security (keeps_leaves keeps replica) fun write value => ?_
  cases write <;> first | exact value.elim | exact ⟨id, id⟩

/-- An update that is not signed as its check demands registers no key. -/
theorem KeysCrdt.merge_refused_security {Signature : Type} {sodium : Sodium Signature}
    {layouts : Layouts} {replica : Replica} (reliable : replica.Reliable)
    (update : KeysCrdt.Update Signature) (refused : checked sodium layouts replica update = false) :
    ((KeysCrdt.merge sodium layouts update).leaves replica).security = replica.security := by
  rw [Program.leaves]
  rcases get_admin_cases reliable with ⟨admin, known⟩ | ⟨reason, unknown⟩
  · rw [KeysCrdt.merge_run reliable known, refused]
    by_cases stops : admin ≠ update.author ∧ replica.ndebug = false
    · rw [if_pos stops]
      exact settled_security replica
    by_cases old : update.version ≤ persistedVersion replica
    · rw [if_neg stops, if_pos old]
      exact settled_security replica
    · rw [if_neg stops, if_neg old, if_neg Bool.false_ne_true]
      exact settled_security replica
  · rw [← ed25519_merge, template_merge_unknown_run _ unknown]

namespace Instance

variable {Signature : Type} (sodium : Sodium Signature) (layouts : Layouts) (replica : Replica)

/-- The messages that a call adds. -/
def brings : Call Signature → List MessageColumns
  | .logMerge update => Log.acceptedRows sodium replica update
  | .addNewMessage author v => [Log.addedRow sodium replica author v]
  | _ => []

/-- The keys that are registered after a call, unless it is a directory update
that was accepted. -/
def registers (known : Text → Option PubKey) : Call Signature → Text → Option PubKey
  | .addKey author pubKey => Function.update known author (some pubKey)
  | .setAdmin admin pubKey => Function.update known admin (some pubKey)
  | _ => known

/-- The bytes that a call signs. -/
def signs : Call Signature → List Buffer
  | .addNewMessage author v => [Serde.chatMessage (Log.assigned replica author v)]
  | .addKey author pubKey =>
    [Serde.vector layouts.tuple
      ((keyInserted replica author pubKey).security.rows.map SecurityDao.publicKey)]
  | _ => []

variable {replica} (reliable : replica.Reliable)
include reliable

/-- A call adds the messages that it brings. -/
theorem call_brings (call : Call Signature) :
    ((call.program sodium layouts).leaves replica).messages.columns =
      replica.messages.columns ++ brings sodium replica call := by
  have quiet : ∀ made : Call Signature, made.onKeys = true →
      ((made.program sodium layouts).leaves replica).messages.columns =
        replica.messages.columns ++ [] := by
    intro made keys
    rw [List.append_nil, changes_messages
      (keeps_leaves (keeps_keys_call sodium layouts made keys) replica) directory_writes_no_message]
  cases call with
  | logHeader =>
    rw [Call.program, leaves_answered, Log.get_header_leaves reliable]
    exact (List.append_nil _).symm
  | logRequest header =>
    rw [Call.program, leaves_answered, Log.get_request_leaves reliable]
    exact (List.append_nil _).symm
  | logUpdate request =>
    obtain ⟨searched, left⟩ := Log.get_update_leaves sodium reliable request
    rw [Call.program, leaves_answered, left]
    exact (List.append_nil _).symm
  | logMerge update =>
    rw [Call.program, leaves_answered, Log.merge_leaves reliable, Replica.store_columns]
    rfl
  | addNewMessage author v =>
    rw [Call.program, leaves_answered, Log.add_new_message_leaves reliable, Replica.store_columns]
    rfl
  | keysHeader => exact quiet _ rfl
  | keysRequest header => exact quiet _ rfl
  | keysUpdate request => exact quiet _ rfl
  | keysMerge update => exact quiet _ rfl
  | addKey author pubKey => exact quiet _ rfl
  | setAdmin admin pubKey => exact quiet _ rfl

/-- A call registers the keys that it is given, if it is no directory update that
passes its check. -/
theorem call_registers (call : Call Signature)
    (refused : ∀ update, call = .keysMerge update → checked sodium layouts replica update = false) :
    ((call.program sodium layouts).leaves replica).registeredKey =
      registers replica.registeredKey call := by
  have same : ∀ {after : Replica}, after.security = replica.security →
      after.registeredKey = replica.registeredKey := by
    intro after security
    funext author
    rw [Replica.registeredKey, Replica.registeredKey, security]
  have quiet : ∀ made : Call Signature, made.onKeys = false →
      ((made.program sodium layouts).leaves replica).registeredKey = replica.registeredKey :=
    fun made log => same
      (changes_directory (keeps_leaves (keeps_log_call sodium layouts made log) replica)
        fun _ => id).1
  cases call with
  | logHeader => exact quiet _ rfl
  | logRequest header => exact quiet _ rfl
  | logUpdate request => exact quiet _ rfl
  | logMerge update => exact quiet _ rfl
  | addNewMessage author v => exact quiet _ rfl
  | keysHeader =>
    rw [Call.program, leaves_answered]
    exact same (leaves_security_of_values KeysCrdt.keeps_get_header replica)
  | keysRequest header =>
    rw [Call.program, leaves_answered]
    exact same (leaves_security_of_values (KeysCrdt.keeps_get_request header) replica)
  | keysUpdate request =>
    rw [Call.program, leaves_answered]
    exact same (leaves_security_of_values (KeysCrdt.keeps_get_update sodium request) replica)
  | keysMerge update =>
    rw [Call.program, leaves_answered]
    exact same (merge_refused_security reliable update (refused update rfl))
  | addKey author pubKey =>
    rw [Call.program, leaves_answered, Program.leaves, add_key_run reliable]
    funext query
    rw [Replica.registeredKey, key_added_security, SecurityTable.find_insert_public_only, registers,
      Function.update_apply]
    split
    · rfl
    · rfl
  | setAdmin admin pubKey =>
    rw [Call.program, leaves_answered, set_admin_leaves reliable]
    funext query
    rw [Replica.registeredKey, SecurityTable.find_insert_admin_public_only, registers,
      Function.update_apply]
    split
    · rfl
    · rfl

end Instance

end Replikon
