import Replikon.Model.KeysCrdt
import Replikon.Model.Log

/-!
# `Instance`

The constructor opens the database, creates what is missing of its tables and
keeps the identity it was given. `search_intervals` is a temporary table: it
belongs to the connection and is not part of the database file. A caller then
works with the log, the key directory and `setAdmin`.
-/

namespace Replikon

/-- A database file. A table is missing until it has been created. -/
structure Database where
  messages : Option MessagesTable
  indexed : Bool
  security : Option SecurityTable
  keyValue : Option KeyValueTable

/-- A file that was just created. -/
def Database.empty : Database := ⟨none, false, none, none⟩

/-- What the constructor works on: its connection and the database behind it. -/
structure Opening where
  ndebug : Bool
  connected : Bool
  database : Database
  searchIntervals : Option (List (Int64 × Int64))
  script : List Outcome

namespace Instance

/-- A part of the constructor. -/
abbrev Construction := EStateM Stop Opening

/-- Stop for the given reason. -/
def halt {α : Type} (reason : Stop) : Construction α := fun opening => .error reason opening

/-- `REPLIKON_ASSERT`. -/
def assertThat (condition : Bool) : Construction Unit := fun opening =>
  if condition || opening.ndebug then .ok () opening else .error .assertion opening

/-- A SQLite call that returns `code` when it completes. -/
def sqliteCall (code : Int) : Construction SqliteResult := fun opening =>
  match opening.script with
  | [] => .ok (toEnum code) opening
  | .completes :: rest => .ok (toEnum code) { opening with script := rest }
  | .fails :: rest => .ok (toEnum sqliteError) { opening with script := rest }
  | .stops :: rest => .error .killed { opening with script := rest }

/-- `step` of a statement that creates something. -/
def executeOnce (effect : Opening → Opening) : Construction SqliteResult := do
  let result ← sqliteCall sqliteDone
  if result = .ok then do
    modify effect
    pure result
  else pure result

/-- `Sqlite::connect` on a connection that was not opened before. -/
def connect : Construction SqliteResult := do
  let result ← sqliteCall sqliteOk
  if result = .ok then
    modify fun opening => { opening with connected := true }
    pure .ok
  else pure .error

/-- A statement of the constructor: whether it compiles against the schema, and
its effect. -/
structure Creation where
  compiles : Opening → Bool
  effect : Opening → Opening

/-- `prepareStatement`, `exp.value()`, `step` and the assertion on its result.
Without a connection, or without assertions on a statement that is not there,
what follows is not defined. -/
def create (creation : Creation) : Construction Unit := do
  let opening ← get
  if opening.connected then
    let prepared ← sqliteCall (if creation.compiles opening then sqliteOk else sqliteError)
    if prepared = .ok then
      let res ← executeOnce creation.effect
      assertThat (res == .ok)
    else do
      assertThat false
      halt .undefined
  else halt .undefined

/-- `INIT_MESSAGES`. -/
def initMessages : Creation where
  compiles _ := true
  effect opening :=
    { opening with database :=
        { opening.database with messages := some (opening.database.messages.getD .empty) } }

/-- `INDEX_MESSAGES`. -/
def indexMessages : Creation where
  compiles opening := opening.database.messages.isSome
  effect opening := { opening with database := { opening.database with indexed := true } }

/-- `TEMP_SEARCH_INTERVALS`, which has no IF NOT EXISTS. -/
def tempSearchIntervals : Creation where
  compiles opening := opening.searchIntervals.isNone
  effect opening := { opening with searchIntervals := some [] }

/-- `INIT_SECURITY`. -/
def initSecurity : Creation where
  compiles _ := true
  effect opening :=
    { opening with database :=
        { opening.database with security := some (opening.database.security.getD .empty) } }

/-- `INIT_KEY_VALUE`. -/
def initKeyValue : Creation where
  compiles _ := true
  effect opening :=
    { opening with database :=
        { opening.database with keyValue := some (opening.database.keyValue.getD .empty) } }

/-- The statements of the constructor in order. -/
def creations : List Creation :=
  [initMessages, indexMessages, tempSearchIntervals, initSecurity, initKeyValue]

/-- The part of the constructor that runs the statements. -/
def createAll : List Creation → Construction Unit
  | [] => pure ()
  | creation :: rest => do
    create creation
    createAll rest

/-- `_self.priv_key.value()` throws when there is no private key. -/
def privateKeyOf (self : SecurityUserInfo) : Construction PrivKey :=
  match self.privKey with
  | some privKey => pure privKey
  | none => halt .killed

/-- `Instance::Instance`. -/
def construct (self : SecurityUserInfo) : Construction PrivKey := do
  let res ← connect
  assertThat (res == .ok)
  createAll creations
  privateKeyOf self

/-- The state in which the constructor starts. -/
def opening (ndebug : Bool) (database : Database) (script : List Outcome) : Opening :=
  ⟨ndebug, false, database, none, script⟩

/-- An instance whose tables have all been created. -/
def ofOpening (self : SecurityUserInfo) (privKey : PrivKey) (stack : List SqliteResult)
    (opening : Opening) : Option Replica := do
  let messages ← opening.database.messages
  let searchIntervals ← opening.searchIntervals
  let security ← opening.database.security
  let keyValue ← opening.database.keyValue
  pure
    { ndebug := opening.ndebug
      self := self.author
      selfPubKey := self.pubKey
      selfPrivKey := privKey
      messages := messages
      searchIntervals := searchIntervals
      security := security
      keyValue := keyValue
      script := opening.script
      stack := stack }

/-- What a caller of an instance can ask of it. -/
inductive Call (Signature : Type) where
  | logHeader
  | logRequest (header : Log.Header)
  | logUpdate (request : Log.Request)
  | logMerge (update : Log.Update Signature)
  | addNewMessage (author : Author) (v : ChatMessage)
  | keysHeader
  | keysRequest (header : KeysCrdt.Header)
  | keysUpdate (request : KeysCrdt.Request)
  | keysMerge (update : KeysCrdt.Update Signature)
  | addKey (author : Author) (pubKey : PubKey)
  | setAdmin (admin : Author) (pubKey : PubKey)

/-- What a call returns. -/
inductive Answer (Signature : Type) where
  | logHeader (header : Log.Header)
  | logRequest (request : Log.Request)
  | logUpdate (update : Log.Update Signature)
  | merged (status : MergeStatus)
  | keysHeader (header : KeysCrdt.Header)
  | keysRequest (request : Option KeysCrdt.Request)
  | keysUpdate (update : KeysCrdt.Update Signature)
  | done

variable {Signature : Type} (sodium : Sodium Signature) (layouts : KeysCrdt.Layouts)

/-- The program behind a call. -/
def Call.program : Call Signature → Program (Answer Signature)
  | .logHeader => do pure (.logHeader (← Log.getHeader))
  | .logRequest header => do pure (.logRequest (← Log.getRequest header))
  | .logUpdate request => do pure (.logUpdate (← Log.getUpdate sodium request))
  | .logMerge update => do pure (.merged (← Log.merge sodium update))
  | .addNewMessage author v => do
    Log.addNewMessage sodium author v
    pure .done
  | .keysHeader => do pure (.keysHeader (← KeysCrdt.getHeader))
  | .keysRequest header => do pure (.keysRequest (← KeysCrdt.getRequest header))
  | .keysUpdate request => do pure (.keysUpdate (← KeysCrdt.getUpdate sodium request))
  | .keysMerge update => do pure (.merged (← KeysCrdt.merge sodium layouts update))
  | .addKey author pubKey => do
    KeysCrdt.addKey sodium layouts author pubKey
    pure .done
  | .setAdmin admin pubKey => do
    KeysCrdt.setAdmin admin pubKey
    pure .done

end Instance

/-- The file of a running instance. -/
def Replica.database (replica : Replica) : Database :=
  ⟨some replica.messages, true, some replica.security, some replica.keyValue⟩

end Replikon
