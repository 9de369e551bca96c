import Replikon.Foundation.Grouping
import Replikon.Foundation.Joins
import Replikon.Model.Sql

/-!
# The tables and the statements run on them

The schema of `constants.h` and the SQL texts of the data access objects. A
table keeps its rows in rowid order and carries the constraint that SQLite
enforces on it as a field, so a table that breaks it cannot be built.

Rows whose key column would be NULL are not stored. A NULL in `body`,
`origin_ts` or `signature` is kept as the empty text, zero or the empty blob:
every statement of the program reads those columns through the same accessors,
which cannot tell the two apart. Only the order of the join can: there a NULL
sorts as the value it is read as, and not before all others.

A SELECT without ORDER BY delivers its rows as the vendored SQLite plans it. One
table is scanned in rowid order; the join of `messages` with `search_intervals`
scans the intervals and finds the messages of each in an automatic index.
-/

namespace Replikon

open Foundation

/-- The columns of a `messages` row other than `id`. -/
structure MessageColumns where
  author : Text
  body : Text
  originTs : Int64
  lamport : Int64
  signature : Buffer
  deriving DecidableEq

/-- What the automatic index of `GET_MSGS_BY_INTERVALS` sorts the messages of one
author by: the columns that the query reads, in the order of the schema. -/
def MessageColumns.indexKey (row : MessageColumns) : Int ×ₗ Int ×ₗ Text ×ₗ Buffer :=
  toLex (row.originTs.toInt, toLex (row.lamport.toInt, toLex (row.body, row.signature)))

/-- A row of `messages`. -/
structure MessageRow extends MessageColumns where
  id : Nat
  deriving DecidableEq

/-- `INIT_MESSAGES`: `id` is the primary key. -/
structure MessagesTable where
  rows : List MessageRow
  ascending : rows.Pairwise (fun left right => left.id < right.id)

namespace MessagesTable

/-- A table without rows. -/
def empty : MessagesTable := ⟨[], List.Pairwise.nil⟩

/-- The rows without their ids. -/
def columns (table : MessagesTable) : List MessageColumns := table.rows.map (·.toMessageColumns)

/-- The id given to the next row: one above the largest. -/
def nextId (table : MessagesTable) : Nat := (table.rows.map (·.id)).foldr max 0 + 1

/-- Every stored id is below the next one. -/
theorem id_lt_next_id (table : MessagesTable) (row : MessageRow) (member : row ∈ table.rows) :
    row.id < table.nextId := by
  have bounded : ∀ rows : List MessageRow, row ∈ rows → row.id ≤ (rows.map (·.id)).foldr max 0 := by
    intro rows
    induction rows with
    | nil => simp
    | cons head rest inductionHypothesis =>
      intro member
      rcases List.mem_cons.mp member with rfl | member
      · simp
      · exact (inductionHypothesis member).trans (by simp)
  exact Nat.lt_succ_of_le (bounded table.rows member)

/-- `INDEX_MESSAGES`: a row conflicts with a stored row of the same `id` and the
same `lamport`. -/
def conflicts (table : MessagesTable) (id : Nat) (lamport : Int64) : Bool :=
  table.rows.any fun row => row.id == id && row.lamport == lamport

/-- `INSERT_MESSAGE`: a row that conflicts with the unique index is ignored. -/
def insertOrIgnore (table : MessagesTable) (columns : MessageColumns) : MessagesTable :=
  if table.conflicts table.nextId columns.lamport then table
  else
    { rows := table.rows ++ [{ columns with id := table.nextId }]
      ascending := by
        refine List.pairwise_append.mpr ⟨table.ascending, List.pairwise_singleton _ _, ?_⟩
        intro row member added addedMember
        rw [List.mem_singleton.mp addedMember]
        exact table.id_lt_next_id row member }

/-- `GET_NEXT_LAMPORT`. An unbound author is NULL and equals no author. -/
def nextLamport (table : MessagesTable) (author : Option Text) : Int :=
  let lamports := (table.columns.filter fun row => some row.author = author).map (·.lamport.toInt)
  Sql.add (lamports.max?.getD 0) 1

/-- A row of the `islands` expression in `GET_HEADERS`. -/
structure Island where
  author : Text
  lamport : Int
  shift : Int
  deriving DecidableEq

/-- The lamports of one author, as SQLite reads them. -/
def lamportsOf (rows : List MessageColumns) (author : Text) : List Int :=
  (rows.filter (·.author = author)).map (·.lamport.toInt)

/-- The islands of one author: its lamports in order, each with its distance
from its row number. -/
def authorIslands (rows : List MessageColumns) (author : Text) : List Island :=
  (numbered (lamportsOf rows author)).map fun entry =>
    ⟨author, entry.1, Sql.sub entry.1 entry.2⟩

/-- `WITH islands AS (SELECT author, lamport, lamport - row_number() OVER
(PARTITION BY author ORDER BY lamport) as shift FROM messages)`. -/
def islands (rows : List MessageColumns) : List Island :=
  (rows.map (·.author)).dedup.flatMap (authorIslands rows)

/-- `GROUP BY shift, author`. -/
def Island.key (island : Island) : Int ×ₗ Text := toLex (island.shift, island.author)

/-- A result row of `GET_HEADERS`. -/
structure HeaderRow where
  author : Text
  intervalStart : Int
  intervalEnd : Int
  deriving DecidableEq

/-- The result row of one group: its author, MIN(lamport) and MAX(lamport). -/
def headerRow (rows : List Island) (key : Int ×ₗ Text) : HeaderRow :=
  let lamports := (group Island.key rows key).map (·.lamport)
  ⟨(ofLex key).2, lamports.min?.getD 0, lamports.max?.getD 0⟩

/-- `GET_HEADERS`, its groups in ascending order of `(shift, author)`. -/
def headerRows (table : MessagesTable) : List HeaderRow :=
  (groups Island.key (islands table.columns)).map (headerRow (islands table.columns))

/-- `SEARCH m USING AUTOMATIC PARTIAL COVERING INDEX (author=?)`: the messages of
the bound author in the order of that index. Equal keys stay in rowid order. -/
def indexed (table : MessagesTable) (author : Option Text) : List MessageColumns :=
  (table.columns.filter fun row => some row.author = author).insertionSort
    fun left right => left.indexKey ≤ right.indexKey

/-- The join condition: a search interval holds the lamport of a message. -/
def holds (interval : Int64 × Int64) (row : MessageColumns) : Bool :=
  interval.1.toInt ≤ row.lamport.toInt ∧ row.lamport.toInt ≤ interval.2.toInt

/-- `GET_MSGS_BY_INTERVALS`: the search intervals are scanned in rowid order, and
for each the index delivers the messages that it holds. A message appears once
for each interval that holds its lamport. -/
def byIntervals (table : MessagesTable) (author : Option Text)
    (searchIntervals : List (Int64 × Int64)) : List MessageColumns :=
  joined holds searchIntervals (table.indexed author)

end MessagesTable

/-- A row of `security`. -/
structure SecurityRow where
  author : Text
  publicKey : PubKey
  privateKey : Option PrivKey
  isAdmin : Bool
  deriving DecidableEq

/-- `INIT_SECURITY`: `author` is unique. -/
structure SecurityTable where
  rows : List SecurityRow
  unique : (rows.map (·.author)).Nodup

namespace SecurityTable

/-- A table without rows. -/
def empty : SecurityTable := ⟨[], List.nodup_nil⟩

/-- The row of an author. -/
def find (table : SecurityTable) (author : Text) : Option SecurityRow :=
  table.rows.find? fun row => row.author = author

/-- `INSERT INTO security ... ON CONFLICT(author) DO UPDATE SET ...`: a new
author is appended, the row of a present one is updated in place. -/
def upsert (table : SecurityTable) (inserted : SecurityRow)
    (update : SecurityRow → PubKey × Option PrivKey × Bool) : SecurityTable :=
  if present : inserted.author ∈ table.rows.map (·.author) then
    { rows := table.rows.map fun row =>
        if row.author = inserted.author then
          ⟨row.author, (update row).1, (update row).2.1, (update row).2.2⟩
        else row
      unique := by
        have authors : (table.rows.map fun row =>
            if row.author = inserted.author then
              (⟨row.author, (update row).1, (update row).2.1, (update row).2.2⟩ : SecurityRow)
            else row).map (·.author) = table.rows.map (·.author) := by
          rw [List.map_map]
          apply List.map_congr_left
          intro row _
          by_cases same : row.author = inserted.author <;> simp [same]
        rw [authors]
        exact table.unique }
  else
    { rows := table.rows ++ [inserted]
      unique := by
        rw [List.map_append, List.nodup_append]
        refine ⟨table.unique, List.nodup_singleton _, ?_⟩
        intro author member other otherMember same
        have added : other = inserted.author := by simpa using otherMember
        exact present (added ▸ same ▸ member) }

/-- `INSERT_KEY_FULL`. -/
def insertFull (table : SecurityTable) (author : Text) (publicKey : PubKey)
    (privateKey : Option PrivKey) : SecurityTable :=
  table.upsert ⟨author, publicKey, privateKey, false⟩
    fun row => (publicKey, privateKey, row.isAdmin)

/-- `INSERT_KEY_PUBLIC_ONLY`. -/
def insertPublicOnly (table : SecurityTable) (author : Text) (publicKey : PubKey) : SecurityTable :=
  table.upsert ⟨author, publicKey, none, false⟩ fun row => (publicKey, row.privateKey, row.isAdmin)

/-- `INSERT_ADMIN_KEY_PUBLIC_ONLY`. -/
def insertAdminPublicOnly (table : SecurityTable) (author : Text) (publicKey : PubKey) :
    SecurityTable :=
  table.upsert ⟨author, publicKey, none, true⟩ fun row => (publicKey, row.privateKey, true)

end SecurityTable

/-- A row of `key_value`. -/
structure KeyValueRow where
  key : Text
  value : Sql.Value
  deriving DecidableEq

/-- `INIT_KEY_VALUE`: `key` is unique. -/
structure KeyValueTable where
  rows : List KeyValueRow
  unique : (rows.map (·.key)).Nodup

namespace KeyValueTable

/-- A table without rows. -/
def empty : KeyValueTable := ⟨[], List.nodup_nil⟩

/-- `GET_VALUE`. -/
def find (table : KeyValueTable) (key : Text) : Option Sql.Value :=
  (table.rows.find? fun row => row.key = key).map (·.value)

/-- `INSERT_VALUE`: the row of an equal key is deleted, then the new row is inserted. -/
def insertOrReplace (table : KeyValueTable) (key : Text) (value : Sql.Value) : KeyValueTable where
  rows := (table.rows.filter fun row => row.key ≠ key) ++ [⟨key, value⟩]
  unique := by
    rw [List.map_append, List.nodup_append]
    refine ⟨table.unique.sublist (List.filter_sublist.map _), List.nodup_singleton _, ?_⟩
    intro other member added addedMember
    obtain ⟨row, kept, rfl⟩ := List.mem_map.mp member
    rw [List.mem_singleton.mp addedMember]
    simpa using (List.mem_filter.mp kept).2

end KeyValueTable

end Replikon
