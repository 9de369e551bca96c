import Replikon.Model.Clients
import Replikon.Model.Instance

/-!
# Who owns the handles of SQLite

`PreparedStatement` owns a statement and `Sqlite` a connection: their destructors
give them back. The access objects and the constructor of `Instance` are given here
once more, with the objects they declare, move and assign and the destructors that
run at the end of their scopes. What a statement does is as it is without handles.
A constructor without assertions may leave an instance that lacks a table; it runs on,
and the statements over that table are not prepared.
-/

namespace Replikon

open Foundation

variable {σ α : Type}

/-- `PreparedStatement`, which is null once its statement was moved away. -/
structure PreparedStatement where
  stmt : Option Nat

namespace PreparedStatement

/-- The move constructor: the new object, and what is left of the old one. -/
def move (s : PreparedStatement) : PreparedStatement × PreparedStatement := (⟨s.stmt⟩, ⟨none⟩)

/-- The move assignment exchanges the statements. -/
def assign (this s : PreparedStatement) : PreparedStatement × PreparedStatement :=
  (⟨s.stmt⟩, ⟨this.stmt⟩)

/-- The destructor. Finalising a null statement does nothing. -/
def destroy (this : PreparedStatement) : Owning Stop σ Unit :=
  match this.stmt with
  | none => pure ()
  | some stmt => release .undefined stmt

/-- A member function that calls SQLite. Nothing is said of a null statement. -/
def use (this : PreparedStatement) (call : EStateM Stop σ α) : Owning Stop σ α :=
  match this.stmt with
  | none => fun before => .error .undefined before
  | some stmt => withHandle .undefined stmt call

end PreparedStatement

/-- `Expected<PreparedStatement, SqliteError>`. -/
abbrev ExpectedStatement := Expected PreparedStatement

namespace ExpectedStatement

/-- The move constructor keeps the tag of the old object. -/
def move : ExpectedStatement → ExpectedStatement × ExpectedStatement
  | .ok value => (.ok value.move.1, .ok value.move.2)
  | .error error => (.error error, .error error)

/-- The destructor. -/
def destroy : ExpectedStatement → Owning Stop σ Unit
  | .ok value => value.destroy
  | .error _ => pure ()

/-- The move assignment destroys what was there and moves the other in. -/
def assign (this other : ExpectedStatement) :
    Owning Stop σ (ExpectedStatement × ExpectedStatement) := do
  destroy this
  pure (move other)

end ExpectedStatement

/-- `Sqlite::prepareStatement`. The result is made from a temporary. -/
def prepareOwned (prepare : EStateM Stop σ (Expected Unit)) : Owning Stop σ ExpectedStatement := do
  match ← handless prepare with
  | .error error => pure (.error error)
  | .ok () =>
    let stmt ← acquire
    let temporary : PreparedStatement := ⟨some stmt⟩
    let (value, temporary) := temporary.move
    temporary.destroy
    pure (.ok value)

/-- `slot = _db->prepareStatement(...)`. -/
def prepareAgain (slot : ExpectedStatement) (prepare : EStateM Stop σ (Expected Unit)) :
    Owning Stop σ ExpectedStatement := do
  let temporary ← prepareOwned prepare
  let (slot, temporary) ← slot.assign temporary
  temporary.destroy
  pure slot

/-- How most operations begin and end: `statement_res` is declared, and the
statement is moved from it into a local. -/
def withStatement (failed : α) (body : PreparedStatement → Owning Stop Replica α) :
    Owning Stop Replica α := do
  match ← prepareOwned prepareStatement with
  | .error _ => pure failed
  | .ok value =>
    let (statement, value) := value.move
    let result ← body statement
    statement.destroy
    value.destroy
    pure result

namespace Statements

/-- The loop of `getAllMessages` over the intervals. -/
def insertIntervals (insertIntoIntervals : PreparedStatement) :
    SqliteResult → List Interval → Owning Stop Replica SqliteResult
  | res, [] => pure res
  | res, interval :: rest => do
    let (startResult, start) ← insertIntoIntervals.use (bind (MessagesDao.bounds interval).1)
    let (endResult, finish) ← insertIntoIntervals.use (bind (MessagesDao.bounds interval).2)
    let stepped ← insertIntoIntervals.use <| execute fun replica =>
      match start, finish with
      | some start, some finish =>
        some { replica with searchIntervals := replica.searchIntervals ++ [(start, finish)] }
      | _, _ => some replica
    let reset ← insertIntoIntervals.use (call sqliteOk)
    let res := res ||| startResult ||| endResult ||| stepped ||| reset
    if res = .ok then insertIntervals insertIntoIntervals res rest else pure res

/-- `statement_res` is used as it is for the first statement, and assigned twice. -/
def getAllMessages (author : Text) (intervals : List Interval) :
    Owning Stop Replica (Expected (List SignedChatMeesage)) := do
  let statementRes ← prepareOwned prepareStatement
  match statementRes with
  | .error error => pure (.error error)
  | .ok clearIntervals =>
    let res ← clearIntervals.use <|
      execute fun replica => some { replica with searchIntervals := [] }
    if res = .ok then
      let statementRes ← prepareAgain statementRes prepareStatement
      match statementRes with
      | .error error => pure (.error error)
      | .ok value =>
        let (insertIntoIntervals, value) := value.move
        let res ← insertIntervals insertIntoIntervals res intervals
        if res = .ok then
          let statementRes ← prepareAgain (.ok value) prepareStatement
          match statementRes with
          | .error error => do
            insertIntoIntervals.destroy
            pure (.error error)
          | .ok value =>
            let (getMsgsByIntervals, value) := value.move
            let (_, bound) ← getMsgsByIntervals.use (bind author)
            let replica ← handless get
            let rows ← getMsgsByIntervals.use
              (fetchRows (replica.messages.byIntervals bound replica.searchIntervals))
            getMsgsByIntervals.destroy
            insertIntoIntervals.destroy
            value.destroy
            pure (.ok (rows.map MessagesDao.fromRow))
        else do
          insertIntoIntervals.destroy
          value.destroy
          pure (.error .sqliteError)
    else do
      statementRes.destroy
      pure (.error .sqliteError)

def insertMessage (signedMsg : SignedChatMeesage) : Owning Stop Replica SqliteResult :=
  withStatement .error fun insertMessage => do
    let res ← handless uninitialised
    let (authorResult, author) ← insertMessage.use (bind signedMsg.msg.author)
    let (bodyResult, body) ← insertMessage.use (bind signedMsg.msg.body)
    let (originTsResult, originTs) ← insertMessage.use (bind signedMsg.msg.originTs.toInt64)
    let (lamportResult, lamport) ← insertMessage.use (bind signedMsg.msg.lamport.toInt64)
    let (signResult, sign) ← insertMessage.use (bind signedMsg.sign)
    let stepped ← insertMessage.use <| execute fun replica =>
      some (MessagesDao.insertRow author body originTs lamport sign replica)
    pure (res ||| authorResult ||| bodyResult ||| originTsResult ||| lamportResult |||
      signResult ||| stepped)

def getNextLamport (author : Author) : Owning Stop Replica (Expected UInt64) :=
  withStatement (.error .sqliteError) fun getLamport => do
    let (_, bound) ← getLamport.use (bind author)
    let replica ← handless get
    match ← getLamport.use (fetchRow [replica.messages.nextLamport bound]) with
    | (_, some lamport) => pure (.ok (Sql.toInt64 lamport).toUInt64)
    | (_, none) => pure (.error .sqliteError)

def getHeaders : Owning Stop Replica (Expected MessagesDao.Headers) :=
  withStatement (.error .sqliteError) fun getHeaders => do
    let replica ← handless get
    let rows ← getHeaders.use (fetchRows replica.messages.headerRows)
    pure (.ok (rows.foldl MessagesDao.pushHeader SortedMap.empty))

/-- The common body of `insertPublicKey` and `insertAdminPublicKey`. -/
def insertKey (statement : SecurityTable → Text → PubKey → SecurityTable) (author : Author)
    (pubKey : PubKey) : Owning Stop Replica SqliteResult :=
  withStatement .error fun insertMessage => do
    let res ← handless uninitialised
    let (authorResult, author) ← insertMessage.use (bind author)
    let (keyResult, pubKey) ← insertMessage.use (bind pubKey)
    let stepped ← insertMessage.use <| execute fun replica =>
      match author, pubKey with
      | some author, some pubKey =>
        some { replica with security := statement replica.security author pubKey }
      | _, _ => none
    pure (res ||| authorResult ||| keyResult ||| stepped)

def insertAllKeys (author : Author) (pubKey : PubKey) (privKey : PrivKey) :
    Owning Stop Replica SqliteResult :=
  withStatement .error fun insertMessage => do
    let res ← handless uninitialised
    let (authorResult, author) ← insertMessage.use (bind author)
    let (pubResult, pubKey) ← insertMessage.use (bind pubKey)
    let (privResult, privKey) ← insertMessage.use (bind privKey)
    let stepped ← insertMessage.use <| execute fun replica =>
      match author, pubKey with
      | some author, some pubKey =>
        some { replica with security := replica.security.insertFull author pubKey privKey }
      | _, _ => none
    pure (res ||| authorResult ||| pubResult ||| privResult ||| stepped)

def getUserInfo (author : Author) : Owning Stop Replica (Expected (Option SecurityUserInfo)) :=
  withStatement (.error .sqliteError) fun getHeaders => do
    let (res, bound) ← getHeaders.use (bind author)
    if res = .ok then
      let replica ← handless get
      match ← getHeaders.use (fetchRow ((bound.bind replica.security.find).toList)) with
      | (_, some row) => pure (.ok (some (SecurityDao.userInfo row)))
      | (_, none) => pure (.ok none)
    else pure (.error .sqliteError)

def getAdminsUserInfo : Owning Stop Replica (Expected (List SecurityUserInfo)) :=
  withStatement (.error .sqliteError) fun getHeaders => do
    let replica ← handless get
    let rows ← getHeaders.use (fetchRows (replica.security.rows.filter (·.isAdmin)))
    pure (.ok (rows.map SecurityDao.userInfo))

def getAllPublicKeys : Owning Stop Replica (Expected (List (Author × PubKey))) :=
  withStatement (.error .sqliteError) fun getHeaders => do
    let replica ← handless get
    let rows ← getHeaders.use (fetchRows replica.security.rows)
    pure (.ok (rows.map SecurityDao.publicKey))

/-- The common body of the three inserts of `KeyValueDao`. -/
def insertValue (key : Text) (value : Sql.Value) : Owning Stop Replica SqliteResult :=
  withStatement .error fun statement => do
    let (keyResult, key) ← statement.use (bind key)
    let (valueResult, value) ← statement.use (bind value)
    let stepped ← statement.use <| execute fun replica =>
      match key with
      | some key =>
        some { replica with
          keyValue := replica.keyValue.insertOrReplace key (value.getD .null) }
      | none => none
    pure (keyResult ||| valueResult ||| stepped)

/-- The common body of its three reads. -/
def getValue (read : Sql.Value → α) (key : Text) : Owning Stop Replica (Expected (Option α)) :=
  withStatement (.error .sqliteError) fun statement => do
    let (_, bound) ← statement.use (bind key)
    let replica ← handless get
    match ← statement.use (fetchRow ((bound.bind replica.keyValue.find).toList)) with
    | (_, some value) => pure (.ok (some (read value)))
    | (.ok, none) => pure (.ok none)
    | (_, none) => pure (.error .sqliteError)

end Statements

/-- A call with its statements. -/
def DaoCall.owning : (call : DaoCall) → Owning Stop Replica call.Result
  | .getAllMessages author intervals => Statements.getAllMessages author intervals
  | .insertMessage signedMsg => Statements.insertMessage signedMsg
  | .getNextLamport author => Statements.getNextLamport author
  | .getHeaders => Statements.getHeaders
  | .insertPublicKey author pubKey =>
    Statements.insertKey SecurityTable.insertPublicOnly author pubKey
  | .insertAdminPublicKey author pubKey =>
    Statements.insertKey SecurityTable.insertAdminPublicOnly author pubKey
  | .insertAllKeys author pubKey privKey => Statements.insertAllKeys author pubKey privKey
  | .getUserInfo author => Statements.getUserInfo author
  | .getAdminsUserInfo => Statements.getAdminsUserInfo
  | .getAllPublicKeys => Statements.getAllPublicKeys
  | .insertTextValue key value => Statements.insertValue key (.text value)
  | .insertIntegerValue key value => Statements.insertValue key (.integer value)
  | .insertBlobValue key view => Statements.insertValue key (.blob view)
  | .getStringValue key => Statements.getValue Sql.Value.columnText key
  | .getIntegerValue key => Statements.getValue Sql.Value.columnInt64 key
  | .getBlobValue key => Statements.getValue Sql.Value.columnBlobAsBuffer key

namespace Sqlite

/-- `Sqlite::connect`, on the connection that `_conn` points to. `left` tells
whether an attempt that fails leaves a connection to be closed: `_conn` then still
points to it. -/
def connect (left : Bool) (conn : Option Nat) (sqlite3Open : EStateM Stop σ SqliteResult) :
    Owning Stop σ (SqliteResult × Option Nat) :=
  match conn with
  | some present => pure (toEnum sqliteError, some present)
  | none => do
    let result ← handless sqlite3Open
    if result = .ok then
      let opened ← acquire
      pure (.ok, some opened)
    else if left then
      let opened ← acquire
      release .undefined opened
      pure (.error, some opened)
    else pure (.error, none)

/-- The destructor. SQLite does not close a connection with a statement that has
not been finalised. -/
def destroy (conn : Option Nat) : Owning Stop σ Unit :=
  match conn with
  | none => pure ()
  | some opened => releaseLast .undefined opened

/-- How an attempt to open a connection ends. -/
inductive Attempt where
  | opens
  | fails (left : Bool)
  deriving DecidableEq

/-- `connect`, once for each of the attempts, and what `_conn` points to then. -/
def connectEach (conn : Option Nat) : List Attempt → Owning Stop Unit (Option Nat)
  | [] => pure conn
  | .opens :: rest => do
    let (_, conn) ← connect false conn (pure .ok)
    connectEach conn rest
  | .fails left :: rest => do
    let (_, conn) ← connect left conn (pure .error)
    connectEach conn rest

/-- The life of a `Sqlite` that is asked to connect any number of times. -/
def life (attempts : List Attempt) : Owning Stop Unit Unit := do
  let conn ← connectEach none attempts
  destroy conn

end Sqlite

/-- Whether a table is there. -/
def Opening.has (opening : Opening) : Table → Bool
  | .messages => opening.database.messages.isSome
  | .searchIntervals => opening.searchIntervals.isSome
  | .security => opening.database.security.isSome
  | .keyValue => opening.database.keyValue.isSome

namespace Instance

/-- The instance that a constructor leaves. A table that it lacks is empty here: the
calls that need it fail before they come to it. -/
def ofOpened (self : SecurityUserInfo) (privKey : PrivKey) (stack : List SqliteResult)
    (opening : Opening) : Replica where
  ndebug := opening.ndebug
  self := self.author
  selfPubKey := self.pubKey
  selfPrivKey := privKey
  messages := opening.database.messages.getD .empty
  searchIntervals := opening.searchIntervals.getD []
  security := opening.database.security.getD .empty
  keyValue := opening.database.keyValue.getD .empty
  script := opening.script
  stack := stack

/-- A statement over a missing table does not compile. Unless the process stops
there, its preparation fails. -/
def failPreparation : Program Unit :=
  modify fun replica =>
    let script := match replica.script with
      | .stops :: rest => .stops :: rest
      | _ :: rest => .fails :: rest
      | [] => [.fails]
    { replica with script := script }

/-- A call on an instance that has the tables of an opening. -/
def programOver (opening : Opening) (call : DaoCall) : Program call.Result :=
  if opening.has call.table then call.program
  else do
    failPreparation
    call.program

/-- The same without handles. -/
def serve (self : SecurityUserInfo) (ndebug : Bool) (database : Database)
    (script : List Outcome) (stack : List SqliteResult) (client : DaoClient α) : Except Stop α :=
  match (construct self).run (opening ndebug database script) with
  | .error reason _ => .error reason
  | .ok privKey after =>
    match (client.interpret Replica.setting (programOver after)).run
        (ofOpened self privKey stack after) with
    | .error reason _ => .error reason
    | .ok value _ => .ok value

end Instance

end Replikon
