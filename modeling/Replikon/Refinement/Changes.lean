import Replikon.Refinement.Clients

/-!
# What each operation can change

Whatever becomes of its SQLite calls, an operation uses up outcomes and locals
and runs statements of a few kinds; these are all the changes it can make to a
replica, whether it returns or stops. One lemma for each kind of call of the access
objects names the statements it runs, and so those of the operations that make it.
-/

namespace Replikon

open Foundation

/-- The statements that write, with their values. -/
inductive Write where
  | message (row : MessageColumns)
  | intervals (searchIntervals : List (Int64 × Int64))
  | publicKey (author : Text) (pubKey : PubKey)
  | adminKey (author : Text) (pubKey : PubKey)
  | value (key : Text) (stored : Sql.Value)

/-- The effect of a statement. -/
def Write.apply (replica : Replica) : Write → Replica
  | .message row => { replica with messages := replica.messages.insertOrIgnore row }
  | .intervals searchIntervals => { replica with searchIntervals := searchIntervals }
  | .publicKey author pubKey =>
    { replica with security := replica.security.insertPublicOnly author pubKey }
  | .adminKey author pubKey =>
    { replica with security := replica.security.insertAdminPublicOnly author pubKey }
  | .value key stored => { replica with keyValue := replica.keyValue.insertOrReplace key stored }

/-- One change of a replica: a SQLite call has its outcome, a local without an
initialiser is read, or an allowed statement takes effect. -/
inductive Change (allowed : Write → Prop) (replica : Replica) : Replica → Prop where
  | called (outcome : Outcome) (rest : List Outcome) (script : replica.script = outcome :: rest) :
      Change allowed replica { replica with script := rest }
  | read : Change allowed replica { replica with stack := replica.stack.tail }
  | wrote (write : Write) (permitted : allowed write) :
      Change allowed replica (write.apply replica)

/-- Any number of changes. -/
abbrev Changes (allowed : Write → Prop) : Replica → Replica → Prop :=
  Relation.ReflTransGen (Change allowed)

section Calls

variable {allowed : Write → Prop} {α β : Type}

/-- More statements may be allowed. -/
theorem Changes.mono {more : Write → Prop} (within : ∀ write, allowed write → more write)
    {before after : Replica} (changes : Changes allowed before after) :
    Changes more before after := by
  induction changes with
  | refl => exact Relation.ReflTransGen.refl
  | tail _ last inductionHypothesis =>
    refine inductionHypothesis.tail ?_
    cases last with
    | called outcome rest script => exact .called outcome rest script
    | read => exact .read
    | wrote write permitted => exact .wrote write (within write permitted)

/-- A relation that a program keeps relates the replica to the one it leaves. -/
theorem keeps_leaves {relation : Replica → Replica → Prop} {program : Program α}
    (keeps : Keeps relation program) (replica : Replica) :
    relation replica (program.leaves replica) := by
  have kept := keeps replica
  unfold Guarantees at kept
  unfold Program.leaves
  cases ended : program.run replica with
  | ok value after =>
    rw [ended] at kept
    exact kept
  | error reason after =>
    rw [ended] at kept
    exact kept

theorem keeps_call (code : Int) : Keeps (Changes allowed) (call code) := by
  rintro ⟨ndebug, self, pubKey, privKey, messages, intervals, security, keyValue, script, stack⟩
  cases script with
  | nil => exact Relation.ReflTransGen.refl
  | cons outcome rest =>
    let replica : Replica := ⟨ndebug, self, pubKey, privKey, messages, intervals, security, keyValue,
      outcome :: rest, stack⟩
    have changed : Changes allowed replica { replica with script := rest } :=
      .single (.called outcome rest rfl)
    cases outcome with
    | completes => exact changed
    | fails => exact changed
    | stops => exact changed

theorem keeps_uninitialised : Keeps (Changes allowed) uninitialised := by
  intro replica
  rw [Guarantees, uninitialised_run]
  exact .single .read

theorem keeps_prepare_statement : Keeps (Changes allowed) prepareStatement :=
  (keeps_call sqliteOk).bind fun _ => keeps_pure _

theorem keeps_bind (value : α) : Keeps (Changes allowed) (Replikon.bind value) :=
  (keeps_call sqliteOk).bind fun _ => keeps_pure _

/-- A statement makes the change that it makes when it takes effect. -/
theorem keeps_execute {statement : Replica → Option Replica}
    (writes : ∀ replica changed, statement replica = some changed →
      Changes allowed replica changed) : Keeps (Changes allowed) (execute statement) := by
  refine (keeps_call sqliteDone).bind fun result => ?_
  refine keeps_ite ?_ (keeps_pure result)
  intro replica
  rw [Guarantees, bind_ok _ get_run]
  cases changed : statement replica with
  | none => exact Relation.ReflTransGen.refl
  | some next => exact writes replica next changed

theorem keeps_fetch_rows (rows : List α) : Keeps (Changes allowed) (fetchRows rows) := by
  induction rows with
  | nil => exact (keeps_call sqliteDone).bind fun _ => keeps_pure _
  | cons first rest inductionHypothesis =>
    refine (keeps_call sqliteRow).bind fun result => ?_
    exact keeps_ite (inductionHypothesis.bind fun _ => keeps_pure _) (keeps_pure _)

theorem keeps_fetch_row (rows : List α) : Keeps (Changes allowed) (fetchRow rows) := by
  cases rows with
  | nil => exact (keeps_call sqliteDone).bind fun _ => keeps_pure _
  | cons first rest => exact (keeps_call sqliteRow).bind fun _ => keeps_pure _

theorem keeps_return_if_error {result : Expected α} {rest : α → Program (Expected β)}
    (keeps : ∀ value, Keeps (Changes allowed) (rest value)) :
    Keeps (Changes allowed) (returnIfError result rest) := by
  cases result with
  | error error => exact keeps_pure _
  | ok value => exact keeps value

theorem keeps_return_if_result_error {result : SqliteResult} {rest : Program (Expected β)}
    (keeps : Keeps (Changes allowed) rest) :
    Keeps (Changes allowed) (returnIfResultError result rest) :=
  keeps_ite keeps (keeps_pure _)

end Calls

/-- The statement stores a message. -/
def Write.OfMessage : Write → Prop
  | .message _ => True
  | _ => False

/-- The statement writes the temporary table. -/
def Write.OfIntervals : Write → Prop
  | .intervals _ => True
  | _ => False

/-- The statement stores the public key of an author. -/
def Write.OfPublicKey : Write → Prop
  | .publicKey _ _ => True
  | _ => False

/-- The statement stores the key of an admin. -/
def Write.OfAdminKey : Write → Prop
  | .adminKey _ _ => True
  | _ => False

/-- The statement stores a value under a key. -/
def Write.OfValue : Write → Prop
  | .value _ _ => True
  | _ => False

/-- The statement is one of the key directory. -/
def Write.OfDirectory (write : Write) : Prop := write.OfPublicKey ∨ write.OfValue

section AccessObjects

variable {allowed : Write → Prop}

/-- Every step of the loop replaces the temporary table. -/
theorem MessagesDao.keeps_insert_intervals (result : SqliteResult) (intervals : List Interval) :
    Keeps (Changes Write.OfIntervals) (insertIntervals result intervals) := by
  induction intervals generalizing result with
  | nil => exact keeps_pure result
  | cons interval rest inductionHypothesis =>
    refine (keeps_bind _).bind fun start => (keeps_bind _).bind fun finish => ?_
    refine (keeps_execute ?_).bind fun stepped => (keeps_call _).bind fun reset => ?_
    · intro replica changed inserted
      cases first : start.2 <;> cases last : finish.2 <;> rw [first, last] at inserted <;>
        cases inserted
      · exact .refl
      · exact .refl
      · exact .refl
      · exact .single (.wrote (.intervals _) trivial)
    · exact keeps_ite (inductionHypothesis _) (keeps_pure _)

theorem MessagesDao.keeps_get_all_messages (author : Text) (intervals : List Interval) :
    Keeps (Changes Write.OfIntervals) (getAllMessages author intervals) := by
  refine keeps_prepare_statement.bind fun prepared => keeps_return_if_error fun _ => ?_
  refine (keeps_execute ?_).bind fun cleared => keeps_return_if_result_error ?_
  · intro replica changed emptied
    cases emptied
    exact .single (.wrote (.intervals []) trivial)
  refine keeps_prepare_statement.bind fun prepared => keeps_return_if_error fun _ => ?_
  refine (keeps_insert_intervals _ _).bind fun inserted => keeps_return_if_result_error ?_
  refine keeps_prepare_statement.bind fun prepared => keeps_return_if_error fun _ => ?_
  refine (keeps_bind _).bind fun bound => keeps_get.bind fun replica => ?_
  exact (keeps_fetch_rows _).bind fun rows => keeps_pure _

theorem MessagesDao.keeps_insert_message (signedMsg : SignedChatMeesage) :
    Keeps (Changes Write.OfMessage) (insertMessage signedMsg) := by
  refine keeps_prepare_statement.bind fun prepared => ?_
  cases prepared with
  | error error => exact keeps_pure _
  | ok value =>
    refine keeps_uninitialised.bind fun result => (keeps_bind _).bind fun author => ?_
    refine (keeps_bind _).bind fun body => (keeps_bind _).bind fun originTs => ?_
    refine (keeps_bind _).bind fun lamport => (keeps_bind _).bind fun sign => ?_
    refine (keeps_execute ?_).bind fun stepped => keeps_pure _
    intro replica changed inserted
    cases inserted
    cases given : author.2 with
    | none => exact .refl
    | some author =>
      cases number : lamport.2 with
      | none => exact .refl
      | some lamport => exact .single (.wrote (.message _) trivial)

theorem MessagesDao.keeps_get_next_lamport (author : Author) :
    Keeps (Changes allowed) (getNextLamport author) := by
  refine keeps_prepare_statement.bind fun prepared => keeps_return_if_error fun _ => ?_
  refine (keeps_bind _).bind fun bound => keeps_get.bind fun replica => ?_
  refine (keeps_fetch_row _).bind fun fetched => ?_
  obtain ⟨result, row⟩ := fetched
  cases row <;> exact keeps_pure _

theorem MessagesDao.keeps_get_headers : Keeps (Changes allowed) getHeaders := by
  refine keeps_prepare_statement.bind fun prepared => keeps_return_if_error fun _ => ?_
  exact keeps_get.bind fun replica => (keeps_fetch_rows _).bind fun rows => keeps_pure _

/-- The upserts of a key run one statement. -/
theorem SecurityDao.keeps_insert_key (statement : SecurityTable → Text → PubKey → SecurityTable)
    (author : Author) (pubKey : PubKey)
    (writes : ∀ replica : Replica, ∀ author pubKey, Changes allowed replica
      { replica with security := statement replica.security author pubKey }) :
    Keeps (Changes allowed) (insertKey statement author pubKey) := by
  refine keeps_prepare_statement.bind fun prepared => ?_
  cases prepared with
  | error error => exact keeps_pure _
  | ok value =>
    refine keeps_uninitialised.bind fun result => (keeps_bind _).bind fun author => ?_
    refine (keeps_bind _).bind fun pubKey => (keeps_execute ?_).bind fun stepped => keeps_pure _
    intro replica changed inserted
    cases given : author.2 <;> cases key : pubKey.2 <;> rw [given, key] at inserted <;>
      cases inserted
    exact writes replica _ _

theorem SecurityDao.keeps_insert_public_key (author : Author) (pubKey : PubKey) :
    Keeps (Changes Write.OfPublicKey) (insertPublicKey author pubKey) :=
  keeps_insert_key _ author pubKey fun _ author pubKey =>
    .single (.wrote (.publicKey author pubKey) trivial)

theorem SecurityDao.keeps_insert_admin_public_key (author : Author) (pubKey : PubKey) :
    Keeps (Changes Write.OfAdminKey) (insertAdminPublicKey author pubKey) :=
  keeps_insert_key _ author pubKey fun _ author pubKey =>
    .single (.wrote (.adminKey author pubKey) trivial)

theorem SecurityDao.keeps_get_user_info (author : Author) :
    Keeps (Changes allowed) (getUserInfo author) := by
  refine keeps_prepare_statement.bind fun prepared => keeps_return_if_error fun _ => ?_
  refine (keeps_bind _).bind fun bound => keeps_return_if_result_error ?_
  refine keeps_get.bind fun replica => (keeps_fetch_row _).bind fun fetched => ?_
  obtain ⟨result, row⟩ := fetched
  cases row <;> exact keeps_pure _

theorem SecurityDao.keeps_get_admins_user_info : Keeps (Changes allowed) getAdminsUserInfo := by
  refine keeps_prepare_statement.bind fun prepared => keeps_return_if_error fun _ => ?_
  exact keeps_get.bind fun replica => (keeps_fetch_rows _).bind fun rows => keeps_pure _

theorem SecurityDao.keeps_get_all_public_keys : Keeps (Changes allowed) getAllPublicKeys := by
  refine keeps_prepare_statement.bind fun prepared => keeps_return_if_error fun _ => ?_
  exact keeps_get.bind fun replica => (keeps_fetch_rows _).bind fun rows => keeps_pure _

theorem KeyValueDao.keeps_insert_value (key : Text) (value : Sql.Value) :
    Keeps (Changes Write.OfValue) (insertValue key value) := by
  refine keeps_prepare_statement.bind fun prepared => ?_
  cases prepared with
  | error error => exact keeps_pure _
  | ok prepared =>
    refine (keeps_bind _).bind fun key => (keeps_bind _).bind fun value => ?_
    refine (keeps_execute ?_).bind fun stepped => keeps_pure _
    intro replica changed inserted
    cases given : key.2 <;> rw [given] at inserted <;> cases inserted
    exact .single (.wrote (.value _ _) trivial)

theorem KeyValueDao.keeps_get_value {α : Type} (read : Sql.Value → α) (key : Text) :
    Keeps (Changes allowed) (getValue read key) := by
  refine keeps_prepare_statement.bind fun prepared => keeps_return_if_error fun _ => ?_
  refine (keeps_bind _).bind fun bound => keeps_get.bind fun replica => ?_
  refine (keeps_fetch_row _).bind fun fetched => ?_
  obtain ⟨result, row⟩ := fetched
  cases row with
  | some value => exact keeps_pure _
  | none => cases result <;> exact keeps_pure _

end AccessObjects

section Calls

variable {allowed : Write → Prop} {call : DaoCall}

/-- Headers are told without a write. -/
theorem DaoCall.TellsHeader.keeps (asked : call.TellsHeader) :
    Keeps (Changes allowed) call.program := by
  cases asked with
  | getHeaders => exact MessagesDao.keeps_get_headers

/-- Messages are handed out by way of the temporary table. -/
theorem DaoCall.HandsOut.keeps (asked : call.HandsOut) :
    Keeps (Changes Write.OfIntervals) call.program := by
  cases asked with
  | getAllMessages author intervals => exact MessagesDao.keeps_get_all_messages author intervals

/-- Taking messages in stores messages only. -/
theorem DaoCall.TakesIn.keeps (asked : call.TakesIn) :
    Keeps (Changes Write.OfMessage) call.program := by
  cases asked with
  | getUserInfo author => exact SecurityDao.keeps_get_user_info author
  | getNextLamport author => exact MessagesDao.keeps_get_next_lamport author
  | insertMessage signedMsg => exact MessagesDao.keeps_insert_message signedMsg

/-- Reading the directory stores values only. -/
theorem DaoCall.ReadsDirectory.keeps (asked : call.ReadsDirectory) :
    Keeps (Changes Write.OfValue) call.program := by
  cases asked with
  | getAdminsUserInfo => exact SecurityDao.keeps_get_admins_user_info
  | getAllPublicKeys => exact SecurityDao.keeps_get_all_public_keys
  | getIntegerValue key => exact KeyValueDao.keeps_get_value _ key
  | insertIntegerValue key value => exact KeyValueDao.keeps_insert_value key _
  | getBlobValue key => exact KeyValueDao.keeps_get_value _ key

/-- What keeps to values is within the directory. -/
theorem KeysCrdt.keeps_values_in_directory {α : Type} {program : Program α}
    (keeps : Keeps (Changes Write.OfValue) program) : Keeps (Changes Write.OfDirectory) program :=
  keeps.mono fun _ _ => Changes.mono fun _ => .inr

/-- Changing it stores values and public keys. -/
theorem DaoCall.WritesDirectory.keeps (asked : call.WritesDirectory) :
    Keeps (Changes Write.OfDirectory) call.program := by
  cases asked with
  | reads _ asked => exact KeysCrdt.keeps_values_in_directory asked.keeps
  | getUserInfo author => exact SecurityDao.keeps_get_user_info author
  | insertPublicKey author pubKey =>
    have stored := SecurityDao.keeps_insert_public_key author pubKey
    exact stored.mono fun _ _ => Changes.mono fun _ => .inl
  | insertBlobValue key view =>
    exact KeysCrdt.keeps_values_in_directory (KeyValueDao.keeps_insert_value key _)

/-- Naming an admin stores an admin's key. -/
theorem DaoCall.NamesAdmin.keeps (asked : call.NamesAdmin) :
    Keeps (Changes Write.OfAdminKey) call.program := by
  cases asked with
  | insertAdminPublicKey admin pubKey => exact SecurityDao.keeps_insert_admin_public_key admin pubKey

end Calls

namespace Log

variable {Signature : Type} (sodium : Sodium Signature) {allowed : Write → Prop}

theorem keeps_get_header : Keeps (Changes allowed) getHeader :=
  getHeaderClient.keeps fun _ asked => asked.keeps

theorem keeps_get_request (header : Header) : Keeps (Changes allowed) (getRequest header) :=
  (getRequestClient header).keeps fun _ asked => asked.keeps

theorem keeps_get_update (request : Request) :
    Keeps (Changes Write.OfIntervals) (getUpdate sodium request) :=
  (getUpdateClient sodium request).keeps fun _ asked => asked.keeps

theorem keeps_merge (update : Update Signature) :
    Keeps (Changes Write.OfMessage) (merge sodium update) :=
  (mergeClient sodium update).keeps fun _ asked => asked.keeps

theorem keeps_add_new_message (author : Author) (v : ChatMessage) :
    Keeps (Changes Write.OfMessage) (addNewMessage sodium author v) :=
  (addNewMessageClient sodium author v).keeps fun _ asked => asked.keeps

end Log

namespace KeysCrdt

variable {Signature : Type} (sodium : Sodium Signature) (layouts : Layouts)

theorem keeps_get_header : Keeps (Changes Write.OfValue) getHeader :=
  getHeaderClient.keeps fun _ asked => asked.keeps

theorem keeps_get_request (header : Header) : Keeps (Changes Write.OfValue) (getRequest header) :=
  (getRequestClient header).keeps fun _ asked => asked.keeps

theorem keeps_get_update (request : Request) :
    Keeps (Changes Write.OfValue) (getUpdate sodium request) :=
  (getUpdateClient sodium request).keeps fun _ asked => asked.keeps

theorem keeps_merge (update : Update Signature) :
    Keeps (Changes Write.OfDirectory) (merge sodium layouts update) :=
  (mergeClient sodium layouts update).keeps fun _ asked => asked.keeps

theorem keeps_add_key (author : Author) (pubKey : PubKey) :
    Keeps (Changes Write.OfDirectory) (addKey sodium layouts author pubKey) :=
  (addKeyClient sodium layouts author pubKey).keeps fun _ asked => asked.keeps

theorem keeps_set_admin (admin : Author) (pubKey : PubKey) :
    Keeps (Changes Write.OfAdminKey) (setAdmin admin pubKey) :=
  (setAdminClient admin pubKey).keeps fun _ asked => asked.keeps

end KeysCrdt

end Replikon
