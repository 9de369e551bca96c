import Replikon.Refinement.Clients

/-!
# What a call can see

The answer of a call depends on parts of a replica only. The log sees the
messages and the key table, the key directory the key table and the stored
values; the temporary table is emptied before it is read. Replicas that agree on
what a call sees get the same answer from it, also when SQLite calls fail or the
process stops.
-/

namespace Replikon

open Foundation

/-- Agreement that is not lost when both replicas use up the same outcomes and
locals. -/
structure Shares (same : Replica → Replica → Prop) : Prop where
  script : ∀ left right, same left right → left.script = right.script
  stack : ∀ left right, same left right → left.stack = right.stack
  called : ∀ left right rest, same left right →
    same { left with script := rest } { right with script := rest }
  read : ∀ left right rest, same left right →
    same { left with stack := rest } { right with stack := rest }

/-- A program cannot tell replicas apart that are the same in what it sees. -/
abbrev Blind (same : Replica → Replica → Prop) {α : Type} (program : Program α) : Prop :=
  Coupled same program program (fun _ => same) same

section Calls

variable {same : Replica → Replica → Prop} (shares : Shares same) {α β : Type}

include shares

theorem coupled_call (code : Int) : Blind same (call code) := by
  intro left right given
  have script := shares.script left right given
  simp only [EStateM.run, call, ← script]
  split
  next => exact .returned _ _ _ given
  next rest _ => exact .returned _ _ _ (shares.called _ _ rest given)
  next rest _ => exact .returned _ _ _ (shares.called _ _ rest given)
  next rest _ => exact .stopped _ _ _ (shares.called _ _ rest given)

theorem coupled_uninitialised : Blind same uninitialised := by
  intro left right given
  rw [uninitialised_run, uninitialised_run, shares.stack left right given]
  have popped := shares.read left right right.stack.tail given
  exact .returned _ _ _ popped

theorem coupled_prepare_statement : Blind same prepareStatement :=
  (coupled_call shares sqliteOk).bind fun _ => coupled_pure _ fun _ _ given => given

theorem coupled_bind (value : α) : Blind same (Replikon.bind value) :=
  (coupled_call shares sqliteOk).bind fun _ => coupled_pure _ fun _ _ given => given

/-- A statement that takes effect on both replicas, or on neither. What its
effect establishes is known when the step succeeds. -/
theorem coupled_execute {statement : Replica → Option Replica} {final : Replica → Replica → Prop}
    (effects : ∀ left right, same left right → statement left = none ∧ statement right = none ∨
      ∃ leftAfter rightAfter, statement left = some leftAfter ∧ statement right = some rightAfter ∧
        same leftAfter rightAfter ∧ final leftAfter rightAfter) :
    Coupled same (execute statement) (execute statement)
      (fun result left right => same left right ∧ (result = .ok → final left right)) same := by
  refine (coupled_call shares sqliteDone).bind fun result => ?_
  by_cases ok : result = .ok
  · rw [if_pos ok]
    refine coupled_get_bind fun left right given => ?_
    rcases effects left right given with ⟨none, other⟩ | ⟨leftAfter, rightAfter, one, two, kept, reached⟩
    · rw [none, other]
      exact .returned _ _ _ ⟨given, fun impossible => absurd impossible (by decide)⟩
    · rw [one, two]
      exact .returned _ _ _ ⟨kept, fun _ => reached⟩
  · rw [if_neg ok]
    exact coupled_pure result fun _ _ given => ⟨given, fun equal => absurd equal ok⟩

/-- The plain case, in which the statement keeps what is shared. -/
theorem coupled_execute_plain {statement : Replica → Option Replica}
    (effects : ∀ left right, same left right → statement left = none ∧ statement right = none ∨
      ∃ leftAfter rightAfter, statement left = some leftAfter ∧ statement right = some rightAfter ∧
        same leftAfter rightAfter) : Blind same (execute statement) := by
  have coupled : Coupled same (execute statement) (execute statement)
      (fun result left right => same left right ∧ (result = .ok → True)) same :=
    coupled_execute shares fun left right given => (effects left right given).imp_right
      fun ⟨one, two, first, second, kept⟩ => ⟨one, two, first, second, kept, trivial⟩
  exact coupled.mono (fun _ _ given => given) (fun _ _ _ reached => reached.1) fun _ _ given => given

theorem coupled_fetch_rows (rows : List α) : Blind same (fetchRows rows) := by
  induction rows with
  | nil => exact (coupled_call shares sqliteDone).bind fun _ => coupled_pure _ fun _ _ given => given
  | cons first rest inductionHypothesis =>
    refine (coupled_call shares sqliteRow).bind fun result => ?_
    refine coupled_ite ?_ (coupled_pure _ fun _ _ given => given)
    exact inductionHypothesis.bind fun _ => coupled_pure _ fun _ _ given => given

theorem coupled_fetch_row (rows : List α) : Blind same (fetchRow rows) := by
  cases rows with
  | nil => exact (coupled_call shares sqliteDone).bind fun _ => coupled_pure _ fun _ _ given => given
  | cons first rest =>
    exact (coupled_call shares sqliteRow).bind fun _ => coupled_pure _ fun _ _ given => given

omit shares in
theorem coupled_return_if_error {result : Expected α} {rest : α → Program (Expected β)}
    (coupled : ∀ value, Blind same (rest value)) : Blind same (returnIfError result rest) := by
  cases result with
  | error error => exact coupled_pure _ fun _ _ given => given
  | ok value => exact coupled value

/-- A SELECT reads the same rows where it sees the same. -/
theorem coupled_select {rows : Replica → List α} {next : List α → Program β}
    (seen : ∀ left right, same left right → rows left = rows right)
    (onward : ∀ fetched, Blind same (next fetched)) :
    Blind same (get >>= fun replica => fetchRows (rows replica) >>= next) := by
  refine coupled_get_bind fun left right given => ?_
  rw [seen left right given]
  exact ((coupled_fetch_rows shares (rows right)).bind onward) left right given

/-- So does one that delivers a single row. -/
theorem coupled_select_row {rows : Replica → List α} {next : SqliteResult × Option α → Program β}
    (seen : ∀ left right, same left right → rows left = rows right)
    (onward : ∀ fetched, Blind same (next fetched)) :
    Blind same (get >>= fun replica => fetchRow (rows replica) >>= next) := by
  refine coupled_get_bind fun left right given => ?_
  rw [seen left right given]
  exact ((coupled_fetch_row shares (rows right)).bind onward) left right given

end Calls

/-- What the log sees of two replicas is the same. -/
structure SameLog (left right : Replica) : Prop where
  ndebug : left.ndebug = right.ndebug
  privKey : left.selfPrivKey = right.selfPrivKey
  messages : left.messages = right.messages
  security : left.security = right.security
  script : left.script = right.script
  stack : left.stack = right.stack

/-- What the key directory sees of two replicas is the same. -/
structure SameKeys (left right : Replica) : Prop where
  ndebug : left.ndebug = right.ndebug
  privKey : left.selfPrivKey = right.selfPrivKey
  security : left.security = right.security
  keyValue : left.keyValue = right.keyValue
  script : left.script = right.script
  stack : left.stack = right.stack

theorem same_log_shares : Shares SameLog where
  script _ _ given := given.script
  stack _ _ given := given.stack
  called _ _ _ given := ⟨given.ndebug, given.privKey, given.messages, given.security, rfl, given.stack⟩
  read _ _ _ given := ⟨given.ndebug, given.privKey, given.messages, given.security, given.script, rfl⟩

theorem same_keys_shares : Shares SameKeys where
  script _ _ given := given.script
  stack _ _ given := given.stack
  called _ _ _ given := ⟨given.ndebug, given.privKey, given.security, given.keyValue, rfl, given.stack⟩
  read _ _ _ given := ⟨given.ndebug, given.privKey, given.security, given.keyValue, given.script, rfl⟩

/-- What the log sees is the same, and so is the temporary table. -/
def SameSearch (left right : Replica) : Prop :=
  SameLog left right ∧ left.searchIntervals = right.searchIntervals

theorem same_search_shares : Shares SameSearch where
  script _ _ given := given.1.script
  stack _ _ given := given.1.stack
  called left right rest given := ⟨same_log_shares.called left right rest given.1, given.2⟩
  read left right rest given := ⟨same_log_shares.read left right rest given.1, given.2⟩

namespace SecurityDao

variable {same : Replica → Replica → Prop} (shares : Shares same)
  (security : ∀ left right, same left right → left.security = right.security)
include shares security

theorem coupled_get_user_info (author : Author) : Blind same (getUserInfo author) := by
  refine (coupled_prepare_statement shares).bind fun prepared => coupled_return_if_error fun _ => ?_
  refine (coupled_bind shares author).bind fun bound => ?_
  refine coupled_ite ?_ (coupled_pure _ fun _ _ given => given)
  refine coupled_select_row shares ?_ fun fetched => ?_
  · intro left right given
    rw [security left right given]
  · obtain ⟨result, row⟩ := fetched
    cases row <;> exact coupled_pure _ fun _ _ given => given

theorem coupled_get_admins_user_info : Blind same getAdminsUserInfo := by
  refine (coupled_prepare_statement shares).bind fun prepared => coupled_return_if_error fun _ => ?_
  refine coupled_select shares ?_ fun rows => coupled_pure _ fun _ _ given => given
  intro left right given
  rw [security left right given]

theorem coupled_get_all_public_keys : Blind same getAllPublicKeys := by
  refine (coupled_prepare_statement shares).bind fun prepared => coupled_return_if_error fun _ => ?_
  refine coupled_select shares ?_ fun rows => coupled_pure _ fun _ _ given => given
  intro left right given
  rw [security left right given]

/-- The upserts of a key write the same to the same table. -/
theorem coupled_insert_key (statement : SecurityTable → Text → PubKey → SecurityTable)
    (author : Author) (pubKey : PubKey)
    (written : ∀ left right security, same left right →
      same { left with security := security } { right with security := security }) :
    Blind same (insertKey statement author pubKey) := by
  refine (coupled_prepare_statement shares).bind fun prepared => ?_
  cases prepared with
  | error error => exact coupled_pure _ fun _ _ given => given
  | ok value =>
    refine (coupled_uninitialised shares).bind fun result => (coupled_bind shares _).bind fun name => ?_
    refine (coupled_bind shares _).bind fun key => ?_
    refine (coupled_execute_plain shares ?_).bind fun stepped => coupled_pure _ fun _ _ given => given
    intro left right given
    cases name.2 with
    | none => exact .inl ⟨rfl, rfl⟩
    | some name =>
      cases key.2 with
      | none => exact .inl ⟨rfl, rfl⟩
      | some key =>
        refine .inr ⟨_, _, rfl, rfl, ?_⟩
        rw [security left right given]
        exact written left right _ given

end SecurityDao

namespace MessagesDao

/-- Both temporary tables receive the same bounds. -/
theorem coupled_insert_intervals (result : SqliteResult) (intervals : List Interval) :
    Blind SameSearch (insertIntervals result intervals) := by
  induction intervals generalizing result with
  | nil => exact coupled_pure _ fun _ _ given => given
  | cons interval rest inductionHypothesis =>
    refine (coupled_bind same_search_shares _).bind fun start => ?_
    refine (coupled_bind same_search_shares _).bind fun finish => ?_
    refine (coupled_execute_plain same_search_shares ?_).bind fun stepped => ?_
    · intro left right given
      refine .inr ?_
      cases start.2 with
      | none => exact ⟨left, right, rfl, rfl, given⟩
      | some start =>
        cases finish.2 with
        | none => exact ⟨left, right, rfl, rfl, given⟩
        | some finish =>
          obtain ⟨log, intervals⟩ := given
          refine ⟨_, _, rfl, rfl, ⟨log.ndebug, log.privKey, log.messages, log.security, log.script,
            log.stack⟩, ?_⟩
          rw [intervals]
    · refine (coupled_call same_search_shares _).bind fun reset => ?_
      exact coupled_ite (inductionHypothesis _) (coupled_pure _ fun _ _ given => given)

/-- The temporary table need not be the same before: unless emptying it fails, it
is the same afterwards. -/
theorem coupled_get_all_messages (author : Text) (intervals : List Interval) :
    Blind SameLog (getAllMessages author intervals) := by
  refine (coupled_prepare_statement same_log_shares).bind fun prepared =>
    coupled_return_if_error fun _ => ?_
  have clears : Coupled SameLog
      (execute fun replica => some { replica with searchIntervals := [] })
      (execute fun replica => some { replica with searchIntervals := [] })
      (fun result left right => SameLog left right ∧ (result = .ok → SameSearch left right))
      SameLog := by
    refine coupled_execute same_log_shares fun left right given => ?_
    have emptied : SameLog { left with searchIntervals := [] } { right with searchIntervals := [] } :=
      ⟨given.ndebug, given.privKey, given.messages, given.security, given.script, given.stack⟩
    exact .inr ⟨_, _, rfl, rfl, emptied, emptied, rfl⟩
  refine clears.bind fun cleared => ?_
  unfold returnIfResultError
  by_cases ok : cleared = .ok
  · rw [if_pos ok]
    have searched : ∀ {first second : Program (Expected (List SignedChatMeesage))},
        Coupled SameSearch first second (fun _ => SameSearch) SameSearch →
        Coupled (fun left right => SameLog left right ∧ (cleared = .ok → SameSearch left right))
          first second (fun _ => SameLog) SameLog := fun coupled =>
      coupled.mono (fun _ _ given => given.2 ok) (fun _ _ _ given => given.1)
        fun _ _ given => given.1
    apply searched
    refine (coupled_prepare_statement same_search_shares).bind fun prepared =>
      coupled_return_if_error fun _ => ?_
    refine (coupled_insert_intervals _ _).bind fun inserted => ?_
    refine coupled_ite ?_ (coupled_pure _ fun _ _ given => given)
    refine (coupled_prepare_statement same_search_shares).bind fun prepared =>
      coupled_return_if_error fun _ => ?_
    refine (coupled_bind same_search_shares _).bind fun bound => ?_
    refine coupled_select same_search_shares ?_ fun rows => coupled_pure _ fun _ _ given => given
    intro left right given
    rw [given.1.messages, given.2]
  · rw [if_neg ok]
    exact coupled_pure _ fun _ _ given => given.1

theorem coupled_insert_message (signedMsg : SignedChatMeesage) :
    Blind SameLog (insertMessage signedMsg) := by
  refine (coupled_prepare_statement same_log_shares).bind fun prepared => ?_
  cases prepared with
  | error error => exact coupled_pure _ fun _ _ given => given
  | ok value =>
    refine (coupled_uninitialised same_log_shares).bind fun result => ?_
    refine (coupled_bind same_log_shares _).bind fun author => ?_
    refine (coupled_bind same_log_shares _).bind fun body => ?_
    refine (coupled_bind same_log_shares _).bind fun originTs => ?_
    refine (coupled_bind same_log_shares _).bind fun lamport => ?_
    refine (coupled_bind same_log_shares _).bind fun sign => ?_
    refine (coupled_execute_plain same_log_shares ?_).bind fun stepped =>
      coupled_pure _ fun _ _ given => given
    intro left right given
    refine .inr ⟨_, _, rfl, rfl, ?_⟩
    unfold insertRow
    split
    · refine ⟨given.ndebug, given.privKey, ?_, given.security, given.script, given.stack⟩
      simp only [given.messages]
    · exact given

theorem coupled_get_next_lamport (author : Author) : Blind SameLog (getNextLamport author) := by
  refine (coupled_prepare_statement same_log_shares).bind fun prepared =>
    coupled_return_if_error fun _ => ?_
  refine (coupled_bind same_log_shares _).bind fun bound => ?_
  refine coupled_select_row same_log_shares ?_ fun fetched => ?_
  · intro left right given
    rw [given.messages]
  · obtain ⟨result, row⟩ := fetched
    cases row <;> exact coupled_pure _ fun _ _ given => given

theorem coupled_get_headers : Blind SameLog getHeaders := by
  refine (coupled_prepare_statement same_log_shares).bind fun prepared =>
    coupled_return_if_error fun _ => ?_
  refine coupled_select same_log_shares ?_ fun rows => coupled_pure _ fun _ _ given => given
  intro left right given
  rw [given.messages]

end MessagesDao

namespace KeyValueDao

theorem coupled_insert_value (key : Text) (value : Sql.Value) :
    Blind SameKeys (insertValue key value) := by
  refine (coupled_prepare_statement same_keys_shares).bind fun prepared => ?_
  cases prepared with
  | error error => exact coupled_pure _ fun _ _ given => given
  | ok prepared =>
    refine (coupled_bind same_keys_shares _).bind fun key => ?_
    refine (coupled_bind same_keys_shares _).bind fun value => ?_
    refine (coupled_execute_plain same_keys_shares ?_).bind fun stepped =>
      coupled_pure _ fun _ _ given => given
    intro left right given
    cases key.2 with
    | none => exact .inl ⟨rfl, rfl⟩
    | some key =>
      refine .inr ⟨_, _, rfl, rfl, given.ndebug, given.privKey, given.security, ?_, given.script,
        given.stack⟩
      simp only [given.keyValue]

theorem coupled_get_value {α : Type} (read : Sql.Value → α) (key : Text) :
    Blind SameKeys (getValue read key) := by
  refine (coupled_prepare_statement same_keys_shares).bind fun prepared =>
    coupled_return_if_error fun _ => ?_
  refine (coupled_bind same_keys_shares _).bind fun bound => ?_
  refine coupled_select_row same_keys_shares ?_ fun fetched => ?_
  · intro left right given
    rw [given.keyValue]
  · obtain ⟨result, row⟩ := fetched
    cases row with
    | some value => exact coupled_pure _ fun _ _ given => given
    | none => cases result <;> exact coupled_pure _ fun _ _ given => given

end KeyValueDao

/-- The key table is seen by the key directory, so it may be written. -/
theorem same_keys_written (left right : Replica) (security : SecurityTable)
    (given : SameKeys left right) :
    SameKeys { left with security := security } { right with security := security } :=
  ⟨given.ndebug, given.privKey, rfl, given.keyValue, given.script, given.stack⟩

section Calls

variable {call : DaoCall}

theorem DaoCall.TellsHeader.coupled (asked : call.TellsHeader) : Blind SameLog call.program := by
  cases asked with
  | getHeaders => exact MessagesDao.coupled_get_headers

theorem DaoCall.HandsOut.coupled (asked : call.HandsOut) : Blind SameLog call.program := by
  cases asked with
  | getAllMessages author intervals => exact MessagesDao.coupled_get_all_messages author intervals

theorem DaoCall.TakesIn.coupled (asked : call.TakesIn) : Blind SameLog call.program := by
  cases asked with
  | getUserInfo author =>
    exact SecurityDao.coupled_get_user_info same_log_shares (fun _ _ given => given.security) author
  | getNextLamport author => exact MessagesDao.coupled_get_next_lamport author
  | insertMessage signedMsg => exact MessagesDao.coupled_insert_message signedMsg

theorem DaoCall.ReadsDirectory.coupled (asked : call.ReadsDirectory) :
    Blind SameKeys call.program := by
  cases asked with
  | getAdminsUserInfo =>
    exact SecurityDao.coupled_get_admins_user_info same_keys_shares fun _ _ given => given.security
  | getAllPublicKeys =>
    exact SecurityDao.coupled_get_all_public_keys same_keys_shares fun _ _ given => given.security
  | getIntegerValue key => exact KeyValueDao.coupled_get_value _ key
  | insertIntegerValue key value => exact KeyValueDao.coupled_insert_value key _
  | getBlobValue key => exact KeyValueDao.coupled_get_value _ key

theorem DaoCall.WritesDirectory.coupled (asked : call.WritesDirectory) :
    Blind SameKeys call.program := by
  cases asked with
  | reads _ asked => exact asked.coupled
  | getUserInfo author =>
    exact SecurityDao.coupled_get_user_info same_keys_shares (fun _ _ given => given.security) author
  | insertPublicKey author pubKey =>
    exact SecurityDao.coupled_insert_key same_keys_shares (fun _ _ given => given.security) _ author
      pubKey same_keys_written
  | insertBlobValue key view => exact KeyValueDao.coupled_insert_value key _

theorem DaoCall.NamesAdmin.coupled (asked : call.NamesAdmin) : Blind SameKeys call.program := by
  cases asked with
  | insertAdminPublicKey admin pubKey =>
    exact SecurityDao.coupled_insert_key same_keys_shares (fun _ _ given => given.security) _ admin
      pubKey same_keys_written

/-- The log sees the same setting, -/
theorem SameLog.setting (left right : Replica) (given : SameLog left right) :
    left.setting = right.setting := by
  rw [Replica.setting, Replica.setting, given.ndebug, given.privKey]

/-- and so does the key directory. -/
theorem SameKeys.setting (left right : Replica) (given : SameKeys left right) :
    left.setting = right.setting := by
  rw [Replica.setting, Replica.setting, given.ndebug, given.privKey]

end Calls

namespace Log

variable {Signature : Type} (sodium : Sodium Signature)

end Log

namespace KeysCrdt

variable {Signature : Type} (sodium : Sodium Signature) (layouts : Layouts)

end KeysCrdt

end Replikon
