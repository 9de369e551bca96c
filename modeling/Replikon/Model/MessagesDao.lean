import Replikon.Foundation.SortedMap
import Replikon.Model.Program

/-!
# `dao::MessagesDao`

The access object of the `messages` table, call by call. Each operation is
followed by what it does on a reliable database.
-/

namespace Replikon.MessagesDao

open Foundation

/-- `std::map<std::string, std::vector<Interval>>`. -/
abbrev Headers := SortedMap Text (List Interval)

/-- A result row of `GET_MSGS_BY_INTERVALS` as it is read. -/
def fromRow (row : MessageColumns) : SignedChatMeesage where
  msg :=
    { author := cString row.author
      lamport := row.lamport.toUInt64
      originTs := row.originTs.toUInt64
      body := cString row.body }
  sign := row.signature

/-- The columns `insertMessage` binds for a message. -/
def toColumns (signedMsg : SignedChatMeesage) : MessageColumns where
  author := signedMsg.msg.author
  body := signedMsg.msg.body
  originTs := signedMsg.msg.originTs.toInt64
  lamport := signedMsg.msg.lamport.toInt64
  signature := signedMsg.sign

/-- The bounds written to `search_intervals` for an interval. -/
def bounds (interval : Interval) : Int64 × Int64 :=
  (interval.start.toInt64, (interval.start + interval.len - 1).toInt64)

/-- The loop of `getAllMessages` over the intervals. A row with a NULL bound
would match nothing and is left out. -/
def insertIntervals : SqliteResult → List Interval → Program SqliteResult
  | res, [] => pure res
  | res, interval :: rest => do
    let (startResult, start) ← bind (bounds interval).1
    let (endResult, finish) ← bind (bounds interval).2
    let stepped ← execute fun replica =>
      match start, finish with
      | some start, some finish =>
        some { replica with searchIntervals := replica.searchIntervals ++ [(start, finish)] }
      | _, _ => some replica
    let reset ← call sqliteOk
    let res := res ||| startResult ||| endResult ||| stepped ||| reset
    if res = .ok then insertIntervals res rest else pure res

def getAllMessages (author : Text) (intervals : List Interval) :
    Program (Expected (List SignedChatMeesage)) := do
  returnIfError (← prepareStatement) fun () => do
  let res ← execute fun replica => some { replica with searchIntervals := [] }
  returnIfResultError res do
  returnIfError (← prepareStatement) fun () => do
  let res ← insertIntervals res intervals
  returnIfResultError res do
  returnIfError (← prepareStatement) fun () => do
  -- The result of this bind is accumulated but never looked at.
  let (_, bound) ← bind author
  let replica ← get
  let rows ← fetchRows (replica.messages.byIntervals bound replica.searchIntervals)
  pure (.ok (rows.map fromRow))

/-- `INSERT_MESSAGE` with the bound values. A NULL in a NOT NULL column makes OR
IGNORE skip the row. -/
def insertRow (author body : Option Text) (originTs lamport : Option Int64)
    (sign : Option Buffer) (replica : Replica) : Replica :=
  match author, lamport with
  | some author, some lamport =>
    { replica with
      messages := replica.messages.insertOrIgnore
        ⟨author, body.getD [], originTs.getD 0, lamport, sign.getD []⟩ }
  | _, _ => replica

def insertMessage (signedMsg : SignedChatMeesage) : Program SqliteResult := do
  match ← prepareStatement with
  | .error _ => pure .error
  | .ok () =>
    let res ← uninitialised
    let (authorResult, author) ← bind signedMsg.msg.author
    let (bodyResult, body) ← bind signedMsg.msg.body
    let (originTsResult, originTs) ← bind signedMsg.msg.originTs.toInt64
    let (lamportResult, lamport) ← bind signedMsg.msg.lamport.toInt64
    let (signResult, sign) ← bind signedMsg.sign
    let stepped ← execute fun replica =>
      some (insertRow author body originTs lamport sign replica)
    pure (res ||| authorResult ||| bodyResult ||| originTsResult ||| lamportResult |||
      signResult ||| stepped)

def getNextLamport (author : Author) : Program (Expected UInt64) := do
  returnIfError (← prepareStatement) fun () => do
  let (_, bound) ← bind author
  let replica ← get
  match ← fetchRow [replica.messages.nextLamport bound] with
  | (_, some lamport) => pure (.ok (Sql.toInt64 lamport).toUInt64)
  | (_, none) => pure (.error .sqliteError)

/-- The interval of a result row of `GET_HEADERS`. -/
def headerInterval (row : MessagesTable.HeaderRow) : Interval where
  start := (Sql.toInt64 row.intervalStart).toUInt64
  len := (Sql.toInt64 row.intervalEnd - Sql.toInt64 row.intervalStart + 1).toUInt64

/-- `headers[author_val].push_back(interval)`. -/
def pushHeader (headers : Headers) (row : MessagesTable.HeaderRow) : Headers :=
  headers.insert (cString row.author)
    ((headers.find (cString row.author)).getD [] ++ [headerInterval row])

def getHeaders : Program (Expected Headers) := do
  returnIfError (← prepareStatement) fun () => do
  let replica ← get
  let rows ← fetchRows replica.messages.headerRows
  pure (.ok (rows.foldl pushHeader SortedMap.empty))

section Reliable

variable {replica : Replica} (reliable : replica.Reliable)
include reliable

/-- Every interval is appended to the temporary table. -/
theorem insert_intervals_run (intervals : List Interval) :
    (insertIntervals .ok intervals).run replica =
      .ok .ok { replica with
        searchIntervals := replica.searchIntervals ++ intervals.map bounds } := by
  induction intervals generalizing replica with
  | nil => simp [insertIntervals, EStateM.run, pure, EStateM.pure]
  | cons interval rest inductionHypothesis =>
    let added : Replica :=
      { replica with searchIntervals := replica.searchIntervals ++ [bounds interval] }
    have addedReliable : added.Reliable := reliable
    rw [insertIntervals, bind_ok _ (bind_run reliable _), bind_ok _ (bind_run reliable _),
      bind_ok _ (execute_run reliable _ added rfl), bind_ok _ (call_run addedReliable _)]
    change (insertIntervals .ok rest).run added = _
    rw [inductionHypothesis addedReliable]
    simp [added]

/-- A successful query reads the rows joined with exactly the given intervals,
whatever the temporary table held before. -/
theorem get_all_messages_run (author : Text) (intervals : List Interval) :
    (getAllMessages author intervals).run replica =
      .ok (.ok ((replica.messages.byIntervals (some author) (intervals.map bounds)).map fromRow))
        { replica with searchIntervals := intervals.map bounds } := by
  let cleared : Replica := { replica with searchIntervals := [] }
  have clearedReliable : cleared.Reliable := reliable
  let filled : Replica := { replica with searchIntervals := intervals.map bounds }
  have filledReliable : filled.Reliable := reliable
  have inserted : (insertIntervals .ok intervals).run cleared = .ok .ok filled := by
    rw [insert_intervals_run clearedReliable]
    rfl
  rw [getAllMessages, bind_ok _ (prepare_statement_run reliable)]
  simp only [returnIfError]
  rw [bind_ok _ (execute_run reliable _ cleared rfl)]
  simp only [returnIfResultError, if_true]
  rw [bind_ok _ (prepare_statement_run clearedReliable)]
  simp only []
  rw [bind_ok _ inserted]
  simp only [if_true]
  rw [bind_ok _ (prepare_statement_run filledReliable)]
  simp only []
  rw [bind_ok _ (bind_run filledReliable author)]
  simp only []
  rw [bind_ok _ get_run, bind_ok _ (fetch_rows_run filledReliable _)]
  rfl

/-- An insertion runs its statement; what it reports also depends on the local
it starts from. -/
theorem insert_message_run (signedMsg : SignedChatMeesage) :
    (insertMessage signedMsg).run replica =
      .ok (if replica.stack.head?.getD .ok = .ok then .ok else .error)
        { replica with
          messages := replica.messages.insertOrIgnore (toColumns signedMsg)
          stack := replica.stack.tail } := by
  let popped : Replica := { replica with stack := replica.stack.tail }
  have poppedReliable : popped.Reliable := reliable
  let inserted : Replica :=
    { popped with messages := popped.messages.insertOrIgnore (toColumns signedMsg) }
  rw [insertMessage, bind_ok _ (prepare_statement_run reliable)]
  simp only []
  rw [bind_ok _ uninitialised_run, bind_ok _ (bind_run poppedReliable _),
    bind_ok _ (bind_run poppedReliable _), bind_ok _ (bind_run poppedReliable _),
    bind_ok _ (bind_run poppedReliable _), bind_ok _ (bind_run poppedReliable _),
    bind_ok _ (execute_run poppedReliable _ inserted rfl)]
  cases replica.stack.head?.getD .ok <;> rfl

theorem get_next_lamport_run (author : Author) :
    (getNextLamport author).run replica =
      .ok (.ok (Sql.toInt64 (replica.messages.nextLamport (some author))).toUInt64) replica := by
  rw [getNextLamport, bind_ok _ (prepare_statement_run reliable)]
  simp only [returnIfError]
  rw [bind_ok _ (bind_run reliable author)]
  simp only []
  rw [bind_ok _ get_run, bind_ok _ (fetch_row_run reliable _)]
  rfl

theorem get_headers_run :
    getHeaders.run replica =
      .ok (.ok (replica.messages.headerRows.foldl pushHeader SortedMap.empty)) replica := by
  rw [getHeaders, bind_ok _ (prepare_statement_run reliable)]
  simp only [returnIfError]
  rw [bind_ok _ get_run, bind_ok _ (fetch_rows_run reliable _)]
  rfl

end Reliable

end Replikon.MessagesDao
