import Replikon.Foundation.Ensures
import Replikon.Model.Tables

/-!
# Programs on a replica

A replica is one `Instance`: the identity it was built with and the database
behind its data access objects. A program runs on a replica and either returns
to its caller or stops; the database it leaves is part of both outcomes.

Two things the code does not decide are read from the replica. `script` says
what becomes of the next SQLite calls: each may complete, fail without effect,
or never be made because the process stops before it. When the script is used
up, calls complete. `stack` holds the values found in the next locals that are
declared without an initialiser.
-/

namespace Replikon

/-- `db::SqliteResult`. -/
inductive SqliteResult where
  | ok
  | error
  | row
  deriving DecidableEq

/-- `operator|`: only two `OK`s give `OK`. -/
def SqliteResult.or (left right : SqliteResult) : SqliteResult :=
  if left = .ok ∧ right = .ok then .ok else .error

instance : OrOp SqliteResult := ⟨SqliteResult.or⟩

/-- The result codes SQLite returns. -/
def sqliteOk : Int := 0
def sqliteError : Int := 1
def sqliteConstraint : Int := 19
def sqliteRow : Int := 100
def sqliteDone : Int := 101

/-- `db::toEnum`. -/
def toEnum (code : Int) : SqliteResult :=
  if code = sqliteOk ∨ code = sqliteDone then .ok
  else if code = sqliteRow then .row
  else .error

/-- What becomes of one SQLite call. -/
inductive Outcome where
  | completes
  | fails
  | stops
  deriving DecidableEq

/-- Why a program does not return: a failed assertion, behaviour that C++ leaves
undefined, or the process stopping. -/
inductive Stop where
  | assertion
  | undefined
  | killed
  deriving DecidableEq

/-- An `Instance` and its database. `ndebug` tells whether it was built with
NDEBUG, where `REPLIKON_ASSERT` does nothing. -/
structure Replica where
  ndebug : Bool
  self : Author
  selfPubKey : PubKey
  selfPrivKey : PrivKey
  messages : MessagesTable
  searchIntervals : List (Int64 × Int64)
  security : SecurityTable
  keyValue : KeyValueTable
  script : List Outcome
  stack : List SqliteResult

/-- The database of the replica does not fail. -/
def Replica.Reliable (replica : Replica) : Prop := replica.script = []

/-- A newly constructed `Instance` on an empty database. -/
def Replica.fresh (ndebug : Bool) (self : Author) (selfPubKey : PubKey) (selfPrivKey : PrivKey)
    (stack : List SqliteResult) : Replica where
  ndebug := ndebug
  self := self
  selfPubKey := selfPubKey
  selfPrivKey := selfPrivKey
  messages := .empty
  searchIntervals := []
  security := .empty
  keyValue := .empty
  script := []
  stack := stack

abbrev Program := EStateM Stop Replica

/-- `SqliteError`, which carries nothing. -/
inductive SqliteError where
  | sqliteError
  deriving DecidableEq

/-- `Expected<Value, db::SqliteError>`. -/
abbrev Expected := Except SqliteError

/-- Stop for the given reason. -/
def stop {α : Type} (reason : Stop) : Program α := fun replica => .error reason replica

/-- `REPLIKON_ASSERT`. -/
def replikonAssert (condition : Bool) : Program Unit := fun replica =>
  if condition || replica.ndebug then .ok () replica else .error .assertion replica

/-- `Expected::value`: without assertions, the error case reads a value that is
not there. -/
def valueOf {α : Type} : Expected α → Program α
  | .ok value => pure value
  | .error _ => do
    replikonAssert false
    stop .undefined

/-- `RETURN_IF_ERROR`. -/
def returnIfError {α β : Type} (result : Expected α) (rest : α → Program (Expected β)) :
    Program (Expected β) :=
  match result with
  | .error error => pure (.error error)
  | .ok value => rest value

/-- `RETURN_IF_RESULT_ERROR`. -/
def returnIfResultError {β : Type} (result : SqliteResult) (rest : Program (Expected β)) :
    Program (Expected β) :=
  if result = .ok then rest else pure (.error .sqliteError)

/-- The value of a local declared without an initialiser. -/
def uninitialised : Program SqliteResult := fun replica =>
  match replica.stack with
  | [] => .ok .ok replica
  | value :: rest => .ok value { replica with stack := rest }

/-- A SQLite call that returns `code` when it completes. -/
def call (code : Int) : Program SqliteResult := fun replica =>
  match replica.script with
  | [] => .ok (toEnum code) replica
  | .completes :: rest => .ok (toEnum code) { replica with script := rest }
  | .fails :: rest => .ok (toEnum sqliteError) { replica with script := rest }
  | .stops :: rest => .error .killed { replica with script := rest }

/-- `Sqlite::prepareStatement`. -/
def prepareStatement : Program (Expected Unit) := do
  let result ← call sqliteOk
  pure (if result = .ok then .ok () else .error .sqliteError)

/-- `PreparedStatement::bindText` and its siblings, with the value the parameter
has afterwards: a parameter that could not be bound is NULL. -/
def bind {α : Type} (value : α) : Program (SqliteResult × Option α) := do
  let result ← call sqliteOk
  pure (result, if result = .ok then some value else none)

/-- `PreparedStatement::step` of a statement that returns no rows. A statement
that violates a constraint changes nothing. -/
def execute (statement : Replica → Option Replica) : Program SqliteResult := do
  let result ← call sqliteDone
  if result = .ok then
    let replica ← get
    match statement replica with
    | some changed => do
      set changed
      pure result
    | none => pure (toEnum sqliteConstraint)
  else pure result

/-- `while (statement.step() == ROW)` over the rows of a SELECT: the rows read
before the loop ends. The step after the last row reports the end. -/
def fetchRows {α : Type} : List α → Program (List α)
  | [] => do
    let _ ← call sqliteDone
    pure []
  | first :: rest => do
    let result ← call sqliteRow
    if result = .row then
      let later ← fetchRows rest
      pure (first :: later)
    else pure []

/-- One `step()` of a SELECT, with the row it delivers. -/
def fetchRow {α : Type} : List α → Program (SqliteResult × Option α)
  | [] => do
    let result ← call sqliteDone
    pure (result, none)
  | first :: _ => do
    let result ← call sqliteRow
    pure (result, if result = .row then some first else none)

/-- The replica that a program leaves, whether it returns or stops. -/
def Program.leaves {α : Type} (program : Program α) (replica : Replica) : Replica :=
  match program.run replica with
  | .ok _ after => after
  | .error _ after => after

section Running

variable {α β : Type} {replica after : Replica}

/-- A program after one that returns continues with its value. -/
theorem bind_ok {program : Program α} {value : α} (next : α → Program β)
    (returned : program.run replica = .ok value after) :
    (program >>= next).run replica = (next value).run after :=
  Foundation.bind_returned next returned

/-- A program after one that stops is not run. -/
theorem bind_error {program : Program α} {reason : Stop} (next : α → Program β)
    (stopped : program.run replica = .error reason after) :
    (program >>= next).run replica = .error reason after := by
  change EStateM.bind program next replica = .error reason after
  have stopped' : program replica = .error reason after := stopped
  simp [EStateM.bind, stopped']

theorem get_run : (get : Program Replica).run replica = .ok replica replica := rfl

/-- An uninitialised local takes the next value of the stack. -/
theorem uninitialised_run :
    uninitialised.run replica =
      .ok (replica.stack.head?.getD .ok) { replica with stack := replica.stack.tail } := by
  obtain ⟨ndebug, self, pubKey, privKey, messages, intervals, security, keyValue, script, stack⟩ :=
    replica
  cases stack <;> rfl

/-- An assertion that holds does nothing. -/
theorem assert_run (condition : Bool) (holds : condition = true) :
    (replikonAssert condition).run replica = .ok () replica := by
  simp [EStateM.run, replikonAssert, holds]

/-- Neither does one that nobody makes. -/
theorem assert_unmade_run (condition : Bool) (build : replica.ndebug = true) :
    (replikonAssert condition).run replica = .ok () replica := by
  simp [EStateM.run, replikonAssert, build]

/-- An assertion that fails stops a build with assertions. -/
theorem assert_stops_run (condition : Bool) (fails : condition = false)
    (build : replica.ndebug = false) :
    (replikonAssert condition).run replica = .error .assertion replica := by
  simp [EStateM.run, replikonAssert, fails, build]

/-- There is no other case. -/
theorem assert_cases (condition : Bool) (replica : Replica) :
    ((condition = true ∨ replica.ndebug = true) ∧
      (replikonAssert condition).run replica = .ok () replica) ∨
    (condition = false ∧ replica.ndebug = false ∧
      (replikonAssert condition).run replica = .error .assertion replica) := by
  cases holds : condition with
  | true => exact .inl ⟨.inl rfl, assert_run true rfl⟩
  | false =>
    cases build : replica.ndebug with
    | true => exact .inl ⟨.inr rfl, assert_unmade_run false build⟩
    | false => exact .inr ⟨rfl, rfl, assert_stops_run false rfl build⟩

theorem value_of_run (value : α) :
    (valueOf (.ok value)).run replica = .ok value replica := rfl

variable (reliable : replica.Reliable)
include reliable

theorem call_run (code : Int) : (call code).run replica = .ok (toEnum code) replica := by
  simp only [EStateM.run, call]
  rw [show replica.script = [] from reliable]

theorem prepare_statement_run : prepareStatement.run replica = .ok (.ok ()) replica := by
  rw [prepareStatement, bind_ok _ (call_run reliable sqliteOk)]
  rfl

theorem bind_run (value : α) : (Replikon.bind value).run replica = .ok (.ok, some value) replica := by
  rw [Replikon.bind, bind_ok _ (call_run reliable sqliteOk)]
  rfl

/-- A statement that violates no constraint takes effect. -/
theorem execute_run (statement : Replica → Option Replica) (changed : Replica)
    (allowed : statement replica = some changed) :
    (execute statement).run replica = .ok .ok changed := by
  rw [execute, bind_ok _ (call_run reliable sqliteDone)]
  change (match statement replica with
    | some changed => (do set changed; pure .ok : Program SqliteResult)
    | none => pure (toEnum sqliteConstraint)).run replica = _
  rw [allowed]
  rfl

/-- All rows of a SELECT are read. -/
theorem fetch_rows_run (rows : List α) : (fetchRows rows).run replica = .ok rows replica := by
  induction rows with
  | nil =>
    rw [fetchRows, bind_ok _ (call_run reliable sqliteDone)]
    rfl
  | cons first rest inductionHypothesis =>
    rw [fetchRows, bind_ok _ (call_run reliable sqliteRow)]
    change ((fetchRows rest >>= fun later => pure (first :: later)) : Program (List α)).run replica = _
    rw [bind_ok _ inductionHypothesis]
    rfl

/-- One step delivers the first row, or reports the end. -/
theorem fetch_row_run (rows : List α) :
    (fetchRow rows).run replica =
      .ok (if rows.isEmpty then (.ok, none) else (.row, rows.head?)) replica := by
  cases rows with
  | nil =>
    rw [fetchRow, bind_ok _ (call_run reliable sqliteDone)]
    rfl
  | cons first rest =>
    rw [fetchRow, bind_ok _ (call_run reliable sqliteRow)]
    rfl

end Running

end Replikon
