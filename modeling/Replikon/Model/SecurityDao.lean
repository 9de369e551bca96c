import Replikon.Model.Program

/-!
# `dao::SecurityDao` and `dao::KeyValueDao`

The access objects of the `security` and `key_value` tables. Unlike the other
inserts these have no OR IGNORE: a NULL in a NOT NULL column is a constraint
violation that the step reports.
-/

namespace Replikon

namespace SecurityDao

/-- The common body of `insertPublicKey` and `insertAdminPublicKey`. -/
def insertKey (statement : SecurityTable → Text → PubKey → SecurityTable) (author : Author)
    (pubKey : PubKey) : Program SqliteResult := do
  match ← prepareStatement with
  | .error _ => pure .error
  | .ok () =>
    let res ← uninitialised
    let (authorResult, author) ← bind author
    let (keyResult, pubKey) ← bind pubKey
    let stepped ← execute fun replica =>
      match author, pubKey with
      | some author, some pubKey =>
        some { replica with security := statement replica.security author pubKey }
      | _, _ => none
    pure (res ||| authorResult ||| keyResult ||| stepped)

def insertPublicKey : Author → PubKey → Program SqliteResult :=
  insertKey SecurityTable.insertPublicOnly

def insertAdminPublicKey : Author → PubKey → Program SqliteResult :=
  insertKey SecurityTable.insertAdminPublicOnly

def insertAllKeys (author : Author) (pubKey : PubKey) (privKey : PrivKey) :
    Program SqliteResult := do
  match ← prepareStatement with
  | .error _ => pure .error
  | .ok () =>
    let res ← uninitialised
    let (authorResult, author) ← bind author
    let (pubResult, pubKey) ← bind pubKey
    let (privResult, privKey) ← bind privKey
    let stepped ← execute fun replica =>
      match author, pubKey with
      | some author, some pubKey =>
        some { replica with security := replica.security.insertFull author pubKey privKey }
      | _, _ => none
    pure (res ||| authorResult ||| pubResult ||| privResult ||| stepped)

/-- A row of `GET_KEYS` and `GET_ADMIN_KEYS` as it is read. -/
def userInfo (row : SecurityRow) : SecurityUserInfo :=
  ⟨cString row.author, row.publicKey, row.privateKey, row.isAdmin⟩

/-- Any step that is not a row, an error included, is reported as no user. -/
def getUserInfo (author : Author) : Program (Expected (Option SecurityUserInfo)) := do
  returnIfError (← prepareStatement) fun () => do
  let (res, bound) ← bind author
  returnIfResultError res do
  let replica ← get
  match ← fetchRow ((bound.bind replica.security.find).toList) with
  | (_, some row) => pure (.ok (some (userInfo row)))
  | (_, none) => pure (.ok none)

def getAdminsUserInfo : Program (Expected (List SecurityUserInfo)) := do
  returnIfError (← prepareStatement) fun () => do
  let replica ← get
  let rows ← fetchRows (replica.security.rows.filter (·.isAdmin))
  pure (.ok (rows.map userInfo))

/-- A row of `GET_ALL_PUBLIC_KEYS` as it is read. -/
def publicKey (row : SecurityRow) : Author × PubKey := (cString row.author, row.publicKey)

def getAllPublicKeys : Program (Expected (List (Author × PubKey))) := do
  returnIfError (← prepareStatement) fun () => do
  let replica ← get
  let rows ← fetchRows replica.security.rows
  pure (.ok (rows.map publicKey))

section Reliable

variable {replica : Replica} (reliable : replica.Reliable)
include reliable

/-- An upsert of a key runs its statement; what it reports also depends on the
local it starts from. -/
theorem insert_key_run (statement : SecurityTable → Text → PubKey → SecurityTable)
    (author : Author) (pubKey : PubKey) :
    (insertKey statement author pubKey).run replica =
      .ok (if replica.stack.head?.getD .ok = .ok then .ok else .error)
        { replica with
          security := statement replica.security author pubKey
          stack := replica.stack.tail } := by
  let popped : Replica := { replica with stack := replica.stack.tail }
  have poppedReliable : popped.Reliable := reliable
  let inserted : Replica := { popped with security := statement popped.security author pubKey }
  rw [insertKey, bind_ok _ (prepare_statement_run reliable)]
  simp only []
  rw [bind_ok _ uninitialised_run, bind_ok _ (bind_run poppedReliable _),
    bind_ok _ (bind_run poppedReliable _), bind_ok _ (execute_run poppedReliable _ inserted rfl)]
  cases replica.stack.head?.getD .ok <;> rfl

/-- So does the upsert of both keys. -/
theorem insert_all_keys_run (author : Author) (pubKey : PubKey) (privKey : PrivKey) :
    (insertAllKeys author pubKey privKey).run replica =
      .ok (if replica.stack.head?.getD .ok = .ok then .ok else .error)
        { replica with
          security := replica.security.insertFull author pubKey (some privKey)
          stack := replica.stack.tail } := by
  let popped : Replica := { replica with stack := replica.stack.tail }
  have poppedReliable : popped.Reliable := reliable
  let inserted : Replica :=
    { popped with security := popped.security.insertFull author pubKey (some privKey) }
  rw [insertAllKeys, bind_ok _ (prepare_statement_run reliable)]
  simp only []
  rw [bind_ok _ uninitialised_run, bind_ok _ (bind_run poppedReliable _),
    bind_ok _ (bind_run poppedReliable _), bind_ok _ (bind_run poppedReliable _),
    bind_ok _ (execute_run poppedReliable _ inserted rfl)]
  cases replica.stack.head?.getD .ok <;> rfl

theorem get_user_info_run (author : Author) :
    (getUserInfo author).run replica =
      .ok (.ok ((replica.security.find author).map userInfo)) replica := by
  rw [getUserInfo, bind_ok _ (prepare_statement_run reliable)]
  simp only [returnIfError]
  rw [bind_ok _ (bind_run reliable author)]
  simp only [returnIfResultError, if_true, Option.bind_some]
  rw [bind_ok _ get_run, bind_ok _ (fetch_row_run reliable _)]
  cases replica.security.find author <;> rfl

theorem get_admins_user_info_run :
    getAdminsUserInfo.run replica =
      .ok (.ok ((replica.security.rows.filter (·.isAdmin)).map userInfo)) replica := by
  rw [getAdminsUserInfo, bind_ok _ (prepare_statement_run reliable)]
  simp only [returnIfError]
  rw [bind_ok _ get_run, bind_ok _ (fetch_rows_run reliable _)]
  rfl

theorem get_all_public_keys_run :
    getAllPublicKeys.run replica =
      .ok (.ok (replica.security.rows.map publicKey)) replica := by
  rw [getAllPublicKeys, bind_ok _ (prepare_statement_run reliable)]
  simp only [returnIfError]
  rw [bind_ok _ get_run, bind_ok _ (fetch_rows_run reliable _)]
  rfl

end Reliable

end SecurityDao

namespace KeyValueDao

/-- The common body of the three inserts. -/
def insertValue (key : Text) (value : Sql.Value) : Program SqliteResult := do
  match ← prepareStatement with
  | .error _ => pure .error
  | .ok () =>
    let (keyResult, key) ← bind key
    let (valueResult, value) ← bind value
    let stepped ← execute fun replica =>
      match key with
      | some key =>
        some { replica with
          keyValue := replica.keyValue.insertOrReplace key (value.getD .null) }
      | none => none
    pure (keyResult ||| valueResult ||| stepped)

def insertTextValue (key value : Text) : Program SqliteResult := insertValue key (.text value)

def insertIntegerValue (key : Text) (value : Int64) : Program SqliteResult :=
  insertValue key (.integer value)

def insertBlobValue (key : Text) (view : Buffer) : Program SqliteResult :=
  insertValue key (.blob view)

/-- The common body of the three reads: a row, no row, or an error. -/
def getValue {α : Type} (read : Sql.Value → α) (key : Text) :
    Program (Expected (Option α)) := do
  returnIfError (← prepareStatement) fun () => do
  let (_, bound) ← bind key
  let replica ← get
  match ← fetchRow ((bound.bind replica.keyValue.find).toList) with
  | (_, some value) => pure (.ok (some (read value)))
  | (.ok, none) => pure (.ok none)
  | (_, none) => pure (.error .sqliteError)

def getStringValue : Text → Program (Expected (Option Text)) := getValue Sql.Value.columnText

def getIntegerValue : Text → Program (Expected (Option Int64)) := getValue Sql.Value.columnInt64

def getBlobValue : Text → Program (Expected (Option Buffer)) :=
  getValue Sql.Value.columnBlobAsBuffer

section Reliable

variable {replica : Replica} (reliable : replica.Reliable)
include reliable

theorem insert_value_run (key : Text) (value : Sql.Value) :
    (insertValue key value).run replica =
      .ok .ok { replica with keyValue := replica.keyValue.insertOrReplace key value } := by
  let inserted : Replica :=
    { replica with keyValue := replica.keyValue.insertOrReplace key value }
  rw [insertValue, bind_ok _ (prepare_statement_run reliable)]
  simp only []
  rw [bind_ok _ (bind_run reliable _), bind_ok _ (bind_run reliable _),
    bind_ok _ (execute_run reliable _ inserted rfl)]
  rfl

theorem get_value_run {α : Type} (read : Sql.Value → α) (key : Text) :
    (getValue read key).run replica = .ok (.ok ((replica.keyValue.find key).map read)) replica := by
  rw [getValue, bind_ok _ (prepare_statement_run reliable)]
  simp only [returnIfError]
  rw [bind_ok _ (bind_run reliable key)]
  simp only [Option.bind_some]
  rw [bind_ok _ get_run, bind_ok _ (fetch_row_run reliable _)]
  cases replica.keyValue.find key <;> rfl

end Reliable

end KeyValueDao

end Replikon
