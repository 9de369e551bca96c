import Replikon.Model.Statements

/-!
# No handle is lost or used twice

Next to each operation with its statements runs the operation without them. They
return and stop alike, so no statement is used or finalised that is null or was
finalised before. The access objects hold no statement between two calls.
-/

namespace Replikon

open Foundation

variable {σ α : Type} {held : List Nat}

/-- The statement that an object owns. -/
def PreparedStatement.owned (this : PreparedStatement) : List Nat := this.stmt.toList

/-- The statement that the value owns, if there is one. -/
def ExpectedStatement.owned : ExpectedStatement → List Nat
  | .ok value => value.owned
  | .error _ => []

/-- What a preparation leaves: an object with a new statement, or an error. -/
inductive Prepared (held : List Nat) : ExpectedStatement → Expected Unit → List Nat → Prop where
  | prepared (stmt : Nat) : Prepared held (.ok ⟨some stmt⟩) (.ok ()) (stmt :: held)
  | failed (error : SqliteError) : Prepared held (.error error) (.error error) held

section Objects

/-- A destructor gives up what the object owns. -/
theorem PreparedStatement.destroy_simulates (this : PreparedStatement) :
    Simulates (this.owned ++ held) (this.destroy : Owning Stop σ Unit) (pure ())
      (Holding held) := by
  obtain ⟨stmt⟩ := this
  cases stmt with
  | none => exact simulates_pure () () ⟨rfl, rfl⟩
  | some stmt => exact simulates_release

/-- So does that of an `Expected`. -/
theorem ExpectedStatement.destroy_simulates (this : ExpectedStatement) :
    Simulates (this.owned ++ held) (this.destroy : Owning Stop σ Unit) (pure ())
      (Holding held) := by
  cases this with
  | error error => exact simulates_pure () () ⟨rfl, rfl⟩
  | ok value => exact value.destroy_simulates

/-- A statement that is held can be used. -/
theorem PreparedStatement.use_simulates {stmt : Nat} (call : EStateM Stop σ α)
    (member : stmt ∈ held) :
    Simulates held (PreparedStatement.use ⟨some stmt⟩ call) call (Holding held) :=
  simulates_with_handle call member

/-- A preparation adds the new statement to what is held. -/
theorem prepare_owned_simulates (prepare : EStateM Stop σ (Expected Unit)) :
    Simulates held (prepareOwned prepare) prepare (Prepared held) := by
  unfold prepareOwned
  apply (simulates_handless prepare).ending
  rintro value other rest ⟨rfl, rfl⟩
  cases value with
  | error error => exact simulates_pure _ _ (.failed error)
  | ok done =>
    apply simulates_acquire.alone
    rintro stmt rest rfl
    apply (PreparedStatement.destroy_simulates ⟨none⟩).alone
    rintro _ rest ⟨_, rfl⟩
    exact simulates_pure _ _ (.prepared stmt)

/-- Assigning to an `Expected` gives up what it owned before. -/
theorem ExpectedStatement.assign_simulates (this other : ExpectedStatement) :
    Simulates (this.owned ++ held) (this.assign other : Owning Stop σ _) (pure ())
      fun value _ rest => value = other.move ∧ rest = held := by
  unfold ExpectedStatement.assign
  apply this.destroy_simulates.alone
  rintro _ rest ⟨_, rfl⟩
  exact simulates_pure _ _ ⟨rfl, rfl⟩

/-- So a preparation that is assigned replaces a statement. -/
theorem prepare_again_simulates (slot : ExpectedStatement)
    (prepare : EStateM Stop σ (Expected Unit)) :
    Simulates (slot.owned ++ held) (prepareAgain slot prepare) prepare (Prepared held) := by
  unfold prepareAgain
  apply (prepare_owned_simulates prepare).ending
  intro temporary other rest prepared
  cases prepared with
  | failed error =>
    apply (slot.assign_simulates (.error error)).alone
    rintro _ rest ⟨rfl, rfl⟩
    exact simulates_pure _ _ (.failed error)
  | prepared stmt =>
    have assigned := @ExpectedStatement.assign_simulates σ (stmt :: held) slot (.ok ⟨some stmt⟩)
    apply (assigned.perm List.perm_middle.symm).alone
    rintro _ rest ⟨rfl, rfl⟩
    apply (PreparedStatement.destroy_simulates ⟨none⟩).alone
    rintro _ rest ⟨_, rfl⟩
    exact simulates_pure _ _ (.prepared stmt)

end Objects

section Operations

/-- An operation that declares one statement holds none when it returns. -/
theorem with_statement_simulates (failed : α) (body : PreparedStatement → Owning Stop Replica α)
    (next : Expected Unit → Program α) (fails : ∀ error, next (.error error) = pure failed)
    (simulates : ∀ stmt, Simulates (stmt :: held) (body ⟨some stmt⟩) (next (.ok ()))
      (Holding (stmt :: held))) :
    Simulates held (withStatement failed body) (prepareStatement >>= next) (Holding held) := by
  unfold withStatement
  apply (prepare_owned_simulates prepareStatement).bind
  intro statementRes other rest prepared
  cases prepared with
  | failed error =>
    rw [fails error]
    exact simulates_pure _ _ ⟨rfl, rfl⟩
  | prepared stmt =>
    apply (simulates stmt).ending
    rintro result _ rest ⟨rfl, rfl⟩
    apply simulates_release.alone
    rintro _ rest ⟨_, rfl⟩
    apply (PreparedStatement.destroy_simulates ⟨none⟩).alone
    rintro _ rest ⟨_, rfl⟩
    exact simulates_pure _ _ ⟨rfl, rfl⟩

variable {stmt : Nat}

/-- A call on a statement that is held, and what follows. -/
theorem use_bind {β γ : Type} {call : Program β} {next : β → Owning Stop Replica α}
    {plainNext : β → Program γ} {after : α → γ → List Nat → Prop} (member : stmt ∈ held)
    (onward : ∀ value, Simulates held (next value) (plainNext value) after) :
    Simulates held (PreparedStatement.use ⟨some stmt⟩ call >>= next) (call >>= plainNext) after := by
  apply (PreparedStatement.use_simulates call member).bind
  rintro value _ rest ⟨rfl, rfl⟩
  exact onward value

/-- A part without handles, and what follows. -/
theorem handless_bind {β γ : Type} {part : EStateM Stop σ β} {next : β → Owning Stop σ α}
    {plainNext : β → EStateM Stop σ γ} {after : α → γ → List Nat → Prop}
    (onward : ∀ value, Simulates held (next value) (plainNext value) after) :
    Simulates held (handless part >>= next) (part >>= plainNext) after := by
  apply (simulates_handless part).bind
  rintro value _ rest ⟨rfl, rfl⟩
  exact onward value

end Operations

namespace Statements

variable {stmt : Nat}

theorem insert_intervals_simulates (member : stmt ∈ held) (res : SqliteResult)
    (intervals : List Interval) :
    Simulates held (insertIntervals ⟨some stmt⟩ res intervals)
      (MessagesDao.insertIntervals res intervals) (Holding held) := by
  induction intervals generalizing res with
  | nil => exact simulates_pure _ _ ⟨rfl, rfl⟩
  | cons interval rest inductionHypothesis =>
    unfold insertIntervals MessagesDao.insertIntervals
    apply use_bind member
    rintro ⟨startResult, start⟩
    apply use_bind member
    rintro ⟨endResult, finish⟩
    apply use_bind member
    intro stepped
    apply use_bind member
    intro reset
    apply simulates_ite
    · exact inductionHypothesis _
    · exact simulates_pure _ _ ⟨rfl, rfl⟩

/-- `getAllMessages` replaces its first statement by two others and gives up all of
them, wherever it returns. -/
theorem get_all_messages_simulates (author : Text) (intervals : List Interval) :
    Simulates held (getAllMessages author intervals) (MessagesDao.getAllMessages author intervals)
      (Holding held) := by
  unfold getAllMessages MessagesDao.getAllMessages
  apply (prepare_owned_simulates prepareStatement).bind
  intro statementRes other rest prepared
  cases prepared with
  | failed error => exact simulates_pure _ _ ⟨rfl, rfl⟩
  | prepared first =>
    apply use_bind List.mem_cons_self
    intro res
    apply simulates_ite
    · apply (prepare_again_simulates (.ok ⟨some first⟩) prepareStatement).bind
      intro statementRes other rest prepared
      cases prepared with
      | failed error => exact simulates_pure _ _ ⟨rfl, rfl⟩
      | prepared second =>
        apply (insert_intervals_simulates List.mem_cons_self res intervals).bind
        rintro res _ rest ⟨rfl, rfl⟩
        apply simulates_ite
        · apply (prepare_again_simulates (.ok ⟨none⟩) prepareStatement).bind
          intro statementRes other rest prepared
          cases prepared with
          | failed error =>
            apply simulates_release.alone
            rintro _ rest ⟨_, rfl⟩
            exact simulates_pure _ _ ⟨rfl, rfl⟩
          | prepared third =>
            apply use_bind List.mem_cons_self
            rintro ⟨_, bound⟩
            apply handless_bind
            intro replica
            apply use_bind List.mem_cons_self
            intro rows
            apply simulates_release.alone
            rintro _ rest ⟨_, rfl⟩
            apply simulates_release.alone
            rintro _ rest ⟨_, rfl⟩
            exact simulates_pure _ _ ⟨rfl, rfl⟩
        · apply simulates_release.alone
          rintro _ rest ⟨_, rfl⟩
          exact simulates_pure _ _ ⟨rfl, rfl⟩
    · apply simulates_release.alone
      rintro _ rest ⟨_, rfl⟩
      exact simulates_pure _ _ ⟨rfl, rfl⟩

theorem insert_message_simulates (signedMsg : SignedChatMeesage) :
    Simulates held (insertMessage signedMsg) (MessagesDao.insertMessage signedMsg)
      (Holding held) := by
  apply with_statement_simulates
  · exact fun _ => rfl
  · intro stmt
    apply handless_bind
    intro res
    apply use_bind List.mem_cons_self
    rintro ⟨authorResult, author⟩
    apply use_bind List.mem_cons_self
    rintro ⟨bodyResult, body⟩
    apply use_bind List.mem_cons_self
    rintro ⟨originTsResult, originTs⟩
    apply use_bind List.mem_cons_self
    rintro ⟨lamportResult, lamport⟩
    apply use_bind List.mem_cons_self
    rintro ⟨signResult, sign⟩
    apply use_bind List.mem_cons_self
    intro stepped
    exact simulates_pure _ _ ⟨rfl, rfl⟩

theorem get_next_lamport_simulates (author : Author) :
    Simulates held (getNextLamport author) (MessagesDao.getNextLamport author) (Holding held) := by
  apply with_statement_simulates
  · exact fun _ => rfl
  · intro stmt
    apply use_bind List.mem_cons_self
    rintro ⟨_, bound⟩
    apply handless_bind
    intro replica
    apply use_bind List.mem_cons_self
    rintro ⟨res, fetched⟩
    cases fetched with
    | none => exact simulates_pure _ _ ⟨rfl, rfl⟩
    | some lamport => exact simulates_pure _ _ ⟨rfl, rfl⟩

theorem get_headers_simulates :
    Simulates held getHeaders MessagesDao.getHeaders (Holding held) := by
  apply with_statement_simulates
  · exact fun _ => rfl
  · intro stmt
    apply handless_bind
    intro replica
    apply use_bind List.mem_cons_self
    intro rows
    exact simulates_pure _ _ ⟨rfl, rfl⟩

theorem insert_key_simulates (statement : SecurityTable → Text → PubKey → SecurityTable)
    (author : Author) (pubKey : PubKey) :
    Simulates held (insertKey statement author pubKey)
      (SecurityDao.insertKey statement author pubKey) (Holding held) := by
  apply with_statement_simulates
  · exact fun _ => rfl
  · intro stmt
    apply handless_bind
    intro res
    apply use_bind List.mem_cons_self
    rintro ⟨authorResult, author⟩
    apply use_bind List.mem_cons_self
    rintro ⟨keyResult, pubKey⟩
    apply use_bind List.mem_cons_self
    intro stepped
    exact simulates_pure _ _ ⟨rfl, rfl⟩

theorem insert_all_keys_simulates (author : Author) (pubKey : PubKey) (privKey : PrivKey) :
    Simulates held (insertAllKeys author pubKey privKey)
      (SecurityDao.insertAllKeys author pubKey privKey) (Holding held) := by
  apply with_statement_simulates
  · exact fun _ => rfl
  · intro stmt
    apply handless_bind
    intro res
    apply use_bind List.mem_cons_self
    rintro ⟨authorResult, author⟩
    apply use_bind List.mem_cons_self
    rintro ⟨pubResult, pubKey⟩
    apply use_bind List.mem_cons_self
    rintro ⟨privResult, privKey⟩
    apply use_bind List.mem_cons_self
    intro stepped
    exact simulates_pure _ _ ⟨rfl, rfl⟩

theorem get_user_info_simulates (author : Author) :
    Simulates held (getUserInfo author) (SecurityDao.getUserInfo author) (Holding held) := by
  apply with_statement_simulates
  · exact fun _ => rfl
  · intro stmt
    apply use_bind List.mem_cons_self
    rintro ⟨res, bound⟩
    apply simulates_ite
    · apply handless_bind
      intro replica
      apply use_bind List.mem_cons_self
      rintro ⟨stepped, fetched⟩
      cases fetched with
      | none => exact simulates_pure _ _ ⟨rfl, rfl⟩
      | some row => exact simulates_pure _ _ ⟨rfl, rfl⟩
    · exact simulates_pure _ _ ⟨rfl, rfl⟩

theorem get_admins_user_info_simulates :
    Simulates held getAdminsUserInfo SecurityDao.getAdminsUserInfo (Holding held) := by
  apply with_statement_simulates
  · exact fun _ => rfl
  · intro stmt
    apply handless_bind
    intro replica
    apply use_bind List.mem_cons_self
    intro rows
    exact simulates_pure _ _ ⟨rfl, rfl⟩

theorem get_all_public_keys_simulates :
    Simulates held getAllPublicKeys SecurityDao.getAllPublicKeys (Holding held) := by
  apply with_statement_simulates
  · exact fun _ => rfl
  · intro stmt
    apply handless_bind
    intro replica
    apply use_bind List.mem_cons_self
    intro rows
    exact simulates_pure _ _ ⟨rfl, rfl⟩

theorem insert_value_simulates (key : Text) (value : Sql.Value) :
    Simulates held (insertValue key value) (KeyValueDao.insertValue key value) (Holding held) := by
  apply with_statement_simulates
  · exact fun _ => rfl
  · intro stmt
    apply use_bind List.mem_cons_self
    rintro ⟨keyResult, key⟩
    apply use_bind List.mem_cons_self
    rintro ⟨valueResult, value⟩
    apply use_bind List.mem_cons_self
    intro stepped
    exact simulates_pure _ _ ⟨rfl, rfl⟩

theorem get_value_simulates (read : Sql.Value → α) (key : Text) :
    Simulates held (getValue read key) (KeyValueDao.getValue read key) (Holding held) := by
  apply with_statement_simulates
  · exact fun _ => rfl
  · intro stmt
    apply use_bind List.mem_cons_self
    rintro ⟨_, bound⟩
    apply handless_bind
    intro replica
    apply use_bind List.mem_cons_self
    rintro ⟨res, fetched⟩
    cases fetched with
    | some value => exact simulates_pure _ _ ⟨rfl, rfl⟩
    | none =>
      cases res with
      | ok => exact simulates_pure _ _ ⟨rfl, rfl⟩
      | error => exact simulates_pure _ _ ⟨rfl, rfl⟩
      | row => exact simulates_pure _ _ ⟨rfl, rfl⟩

end Statements

/-- No call on an access object keeps a statement. -/
theorem DaoCall.simulates (call : DaoCall) :
    Simulates held call.owning call.program (Holding held) := by
  cases call with
  | getAllMessages author intervals => exact Statements.get_all_messages_simulates author intervals
  | insertMessage signedMsg => exact Statements.insert_message_simulates signedMsg
  | getNextLamport author => exact Statements.get_next_lamport_simulates author
  | getHeaders => exact Statements.get_headers_simulates
  | insertPublicKey author pubKey => exact Statements.insert_key_simulates _ author pubKey
  | insertAdminPublicKey author pubKey => exact Statements.insert_key_simulates _ author pubKey
  | insertAllKeys author pubKey privKey =>
    exact Statements.insert_all_keys_simulates author pubKey privKey
  | getUserInfo author => exact Statements.get_user_info_simulates author
  | getAdminsUserInfo => exact Statements.get_admins_user_info_simulates
  | getAllPublicKeys => exact Statements.get_all_public_keys_simulates
  | insertTextValue key value => exact Statements.insert_value_simulates key _
  | insertIntegerValue key value => exact Statements.insert_value_simulates key _
  | insertBlobValue key view => exact Statements.insert_value_simulates key _
  | getStringValue key => exact Statements.get_value_simulates _ key
  | getIntegerValue key => exact Statements.get_value_simulates _ key
  | getBlobValue key => exact Statements.get_value_simulates _ key

end Replikon
