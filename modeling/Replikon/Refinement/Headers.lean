import Replikon.Model.MessagesDao
import Replikon.Refinement.IntervalDifference

/-!
# What a header says about a table

The query of `getHeaders` groups all rows by the distance between lamport and
row number. Seen from one author its groups are the author's runs of consecutive
lamports, in ascending order. Read as unsigned intervals they form, for lamports
from zero on, a well-formed list that covers exactly the stored lamports.

SQLite subtracts signed integers and falls back to reals on overflow, which a
difference of lamport and row number reaches only at the lower end of the
64-bit range. There the distances collapse to one value and stay in order.
-/

namespace Replikon

open Foundation MessagesTable

/-- The islands are the numbered lamports of their authors. -/
theorem mem_islands (rows : List MessageColumns) (island : Island) :
    island ∈ islands rows ↔
      ∃ number, (island.lamport, number) ∈ numbered (lamportsOf rows island.author) ∧
        island.shift = Sql.sub island.lamport number := by
  simp only [islands, authorIslands, List.mem_flatMap, List.mem_dedup, List.mem_map]
  constructor
  · rintro ⟨author, _, ⟨lamport, number⟩, member, rfl⟩
    exact ⟨number, member, rfl⟩
  · rintro ⟨number, member, shift⟩
    have stored : island.lamport ∈ lamportsOf rows island.author :=
      (mem_numbered_value _ _).mpr ⟨number, member⟩
    obtain ⟨row, found, _⟩ := List.mem_map.mp stored
    obtain ⟨present, author⟩ := List.mem_filter.mp found
    refine ⟨island.author, ⟨row, present, by simpa using author⟩, (island.lamport, number), member, ?_⟩
    cases island
    simp only at shift
    rw [shift]

/-- A lamport is listed for an author exactly when some row stores it. -/
theorem mem_lamports_of (rows : List MessageColumns) (author : Text) (lamport : Int) :
    lamport ∈ lamportsOf rows author ↔
      ∃ row ∈ rows, row.author = author ∧ row.lamport.toInt = lamport := by
  simp [lamportsOf, and_assoc]

/-- The result row of a listed group: its bounds are lamports of the group, and
every lamport of the group lies between them. -/
theorem header_row_bounds (rows : List MessageColumns) (key : Int ×ₗ Text)
    (listed : key ∈ groups Island.key (islands rows)) :
    ∃ first last, (headerRow (islands rows) key) = ⟨(ofLex key).2, first, last⟩ ∧
      (∃ number, (first, number) ∈ numbered (lamportsOf rows (ofLex key).2) ∧
        Sql.sub first number = (ofLex key).1) ∧
      (∃ number, (last, number) ∈ numbered (lamportsOf rows (ofLex key).2) ∧
        Sql.sub last number = (ofLex key).1) ∧
      ∀ lamport number, (lamport, number) ∈ numbered (lamportsOf rows (ofLex key).2) →
        Sql.sub lamport number = (ofLex key).1 → first ≤ lamport ∧ lamport ≤ last := by
  have inGroup : ∀ lamport, lamport ∈ (group Island.key (islands rows) key).map (·.lamport) ↔
      ∃ number, (lamport, number) ∈ numbered (lamportsOf rows (ofLex key).2) ∧
        Sql.sub lamport number = (ofLex key).1 := by
    intro lamport
    simp only [List.mem_map, mem_group, mem_islands]
    constructor
    · rintro ⟨island, ⟨⟨number, member, shift⟩, same⟩, rfl⟩
      have parts : (island.shift, island.author) = ofLex key := same
      exact ⟨number, by rw [← parts]; exact member, by rw [← parts, ← shift]⟩
    · rintro ⟨number, member, shift⟩
      exact ⟨⟨(ofLex key).2, lamport, (ofLex key).1⟩, ⟨⟨number, member, shift.symm⟩, rfl⟩, rfl⟩
  obtain ⟨island, found, same⟩ := (mem_groups _ _ _).mp listed
  have present : island.lamport ∈ (group Island.key (islands rows) key).map (·.lamport) :=
    List.mem_map_of_mem ((mem_group _ _ _ _).mpr ⟨found, same⟩)
  obtain ⟨first, least⟩ : ∃ first,
      ((group Island.key (islands rows) key).map (·.lamport)).min? = some first :=
    Option.isSome_iff_exists.mp (List.isSome_min?_of_mem present)
  obtain ⟨last, greatest⟩ : ∃ last,
      ((group Island.key (islands rows) key).map (·.lamport)).max? = some last :=
    Option.isSome_iff_exists.mp (List.isSome_max?_of_mem present)
  obtain ⟨firstMember, firstBound⟩ := List.min?_eq_some_iff.mp least
  obtain ⟨lastMember, lastBound⟩ := List.max?_eq_some_iff.mp greatest
  refine ⟨first, last, ?_, (inGroup first).mp firstMember, (inGroup last).mp lastMember, ?_⟩
  · simp [headerRow, least, greatest]
  · intro lamport number member shift
    have grouped := (inGroup lamport).mpr ⟨number, member, shift⟩
    exact ⟨firstBound lamport grouped, lastBound lamport grouped⟩

/-- The result rows of one author. -/
def authorRows (table : MessagesTable) (author : Text) : List HeaderRow :=
  table.headerRows.filter (·.author = author)

/-- The groups of one author, in ascending order of their distance. -/
def authorKeys (table : MessagesTable) (author : Text) : List (Int ×ₗ Text) :=
  (groups Island.key (islands table.columns)).filter fun key => (ofLex key).2 = author

theorem author_rows_eq (table : MessagesTable) (author : Text) :
    authorRows table author = (authorKeys table author).map (headerRow (islands table.columns)) := by
  rw [authorRows, headerRows, List.filter_map]
  rfl

/-- The distances of lamports from their row numbers as SQLite computes them:
exact, or collapsed at the lower end of the range. -/
def Regular (lamports : List Int) : Prop :=
  ∀ lamport number, (lamport, number) ∈ numbered lamports →
    Sql.sub lamport number = max (lamport - number) (-2 ^ 63)

section Author

variable {table : MessagesTable} {author : Text}

/-- A group listed for an author gives the bounds of its result row. -/
theorem author_row_bounds (row : HeaderRow) (member : row ∈ authorRows table author) :
    ∃ shift,
      (∃ number, (row.intervalStart, number) ∈ numbered (lamportsOf table.columns author) ∧
        Sql.sub row.intervalStart number = shift) ∧
      (∃ number, (row.intervalEnd, number) ∈ numbered (lamportsOf table.columns author) ∧
        Sql.sub row.intervalEnd number = shift) ∧
      ∀ lamport number, (lamport, number) ∈ numbered (lamportsOf table.columns author) →
        Sql.sub lamport number = shift →
          row.intervalStart ≤ lamport ∧ lamport ≤ row.intervalEnd := by
  rw [author_rows_eq] at member
  obtain ⟨key, found, rfl⟩ := List.mem_map.mp member
  obtain ⟨listed, same⟩ := List.mem_filter.mp found
  obtain ⟨first, last, row, bounds⟩ := header_row_bounds table.columns key listed
  simp only [decide_eq_true_eq] at same
  rw [same] at bounds
  rw [row]
  exact ⟨(ofLex key).1, bounds⟩

/-- The bounds of a result row are stored lamports in order. -/
theorem author_row_stored (row : HeaderRow) (member : row ∈ authorRows table author) :
    row.intervalStart ∈ lamportsOf table.columns author ∧
      row.intervalEnd ∈ lamportsOf table.columns author ∧
      row.intervalStart ≤ row.intervalEnd := by
  obtain ⟨shift, ⟨first, firstMember, _⟩, ⟨last, lastMember, lastShift⟩, bounds⟩ :=
    author_row_bounds row member
  exact ⟨(mem_numbered_value _ _).mpr ⟨first, firstMember⟩,
    (mem_numbered_value _ _).mpr ⟨last, lastMember⟩,
    (bounds row.intervalEnd last lastMember lastShift).1⟩

/-- The lamports at one distance from their numbers share a result row. -/
theorem author_rows_group (lamport : Int) (number : Nat)
    (member : (lamport, number) ∈ numbered (lamportsOf table.columns author)) :
    ∃ row ∈ authorRows table author, ∀ other place,
      (other, place) ∈ numbered (lamportsOf table.columns author) →
        Sql.sub other place = Sql.sub lamport number →
          row.intervalStart ≤ other ∧ other ≤ row.intervalEnd := by
  let island : Island := ⟨author, lamport, Sql.sub lamport number⟩
  have present : island ∈ islands table.columns := (mem_islands _ _).mpr ⟨number, member, rfl⟩
  have listed : island.key ∈ groups Island.key (islands table.columns) :=
    (mem_groups _ _ _).mpr ⟨island, present, rfl⟩
  obtain ⟨first, last, row, _, _, bounds⟩ := header_row_bounds table.columns island.key listed
  refine ⟨headerRow (islands table.columns) island.key, ?_, ?_⟩
  · rw [author_rows_eq]
    exact List.mem_map_of_mem (List.mem_filter.mpr ⟨listed, by simp [island, Island.key]⟩)
  · rw [row]
    exact bounds

/-- Every stored lamport lies within a result row of its author. -/
theorem author_rows_complete (lamport : Int) (stored : lamport ∈ lamportsOf table.columns author) :
    ∃ row ∈ authorRows table author,
      row.intervalStart ≤ lamport ∧ lamport ≤ row.intervalEnd := by
  obtain ⟨number, member⟩ := (mem_numbered_value _ _).mp stored
  obtain ⟨row, listed, bounds⟩ := author_rows_group lamport number member
  exact ⟨row, listed, bounds lamport number member rfl⟩

variable (distinct : (lamportsOf table.columns author).Nodup)
include distinct

/-- The result rows of an author lie in ascending order: a smaller distance
belongs to smaller numbers and so to smaller lamports. -/
theorem author_rows_ordered (regular : Regular (lamportsOf table.columns author)) :
    (authorRows table author).Pairwise
      (fun left right => left.intervalEnd < right.intervalStart) := by
  have monotone : ∀ {lamport later : Int} {number next : Nat},
      (lamport, number) ∈ numbered (lamportsOf table.columns author) →
      (later, next) ∈ numbered (lamportsOf table.columns author) → number ≤ next →
      Sql.sub lamport number ≤ Sql.sub later next := by
    intro lamport later number next member other order
    have gap := numbered_gap distinct member other order
    rw [regular lamport number member, regular later next other]
    omega
  rw [author_rows_eq, List.pairwise_map]
  have ascending : (authorKeys table author).Pairwise (· < ·) :=
    (groups_ascending Island.key (islands table.columns)).sublist List.filter_sublist
  refine List.Pairwise.imp_of_mem ?_ ascending
  intro left right leftMember rightMember below
  obtain ⟨leftListed, leftAuthor⟩ := List.mem_filter.mp leftMember
  obtain ⟨rightListed, rightAuthor⟩ := List.mem_filter.mp rightMember
  simp only [decide_eq_true_eq] at leftAuthor rightAuthor
  have shifts : (ofLex left).1 < (ofLex right).1 := by
    rcases Prod.Lex.lt_iff.mp below with smaller | ⟨_, authors⟩
    · exact smaller
    · rw [leftAuthor, rightAuthor] at authors
      exact absurd authors (lt_irrefl author)
  obtain ⟨_, last, leftRow, _, ⟨lastNumber, lastMember, lastShift⟩, _⟩ :=
    header_row_bounds table.columns left leftListed
  obtain ⟨first, _, rightRow, ⟨firstNumber, firstMember, firstShift⟩, _, _⟩ :=
    header_row_bounds table.columns right rightListed
  rw [leftAuthor] at lastMember
  rw [rightAuthor] at firstMember
  rw [leftRow, rightRow]
  change last < first
  refine (numbered_order distinct lastMember firstMember).mpr ?_
  by_contra notBefore
  have reversed := monotone firstMember lastMember (by omega)
  omega

/-- With exact distances a result row covers nothing but stored lamports. -/
theorem author_row_filled (exactly : ∀ lamport number,
      (lamport, number) ∈ numbered (lamportsOf table.columns author) →
        Sql.sub lamport number = lamport - number)
    (row : HeaderRow) (member : row ∈ authorRows table author) (lamport : Int)
    (above : row.intervalStart ≤ lamport) (below : lamport ≤ row.intervalEnd) :
    lamport ∈ lamportsOf table.columns author := by
  obtain ⟨shift, ⟨first, firstMember, firstShift⟩, ⟨last, lastMember, lastShift⟩, _⟩ :=
    author_row_bounds row member
  rw [exactly _ _ firstMember] at firstShift
  rw [exactly _ _ lastMember] at lastShift
  obtain ⟨number, found, _⟩ := island_filled distinct firstMember lastMember
    (firstShift.trans lastShift.symm) above below
  exact (mem_numbered_value _ _).mpr ⟨number, found⟩

/-- Distances of lamports from zero on are exact. -/
theorem sub_exact_of_nonneg
    (bounded : ∀ lamport ∈ lamportsOf table.columns author, 0 ≤ lamport ∧ lamport < 2 ^ 63)
    (lamport : Int) (number : Nat)
    (member : (lamport, number) ∈ numbered (lamportsOf table.columns author)) :
    Sql.sub lamport number = lamport - number := by
  have stored := (mem_numbered_value _ _).mpr ⟨number, member⟩
  have upper := (bounded lamport stored).2
  have lower := numbered_lower distinct 0 member fun other found => (bounded other found).1
  apply Sql.sub_exact
  constructor <;> omega

/-- So they are regular. -/
theorem regular_of_nonneg
    (bounded : ∀ lamport ∈ lamportsOf table.columns author, 0 ≤ lamport ∧ lamport < 2 ^ 63) :
    Regular (lamportsOf table.columns author) := by
  intro lamport number member
  have lower := numbered_lower distinct 0 member fun other found => (bounded other found).1
  rw [sub_exact_of_nonneg distinct bounded lamport number member, max_eq_left (by omega)]

end Author

/-- The bits of a signed cell read as an unsigned number. -/
theorem unsigned_value (value : Int64) :
    (value.toUInt64.toNat : Int) =
      if 0 ≤ value.toInt then value.toInt else value.toInt + 2 ^ 64 := by
  have signed : value.toInt = value.toBitVec.toInt := rfl
  have unsigned : value.toUInt64.toNat = value.toBitVec.toNat := rfl
  have bound := value.toBitVec.isLt
  rw [signed, unsigned, BitVec.toInt_eq_toNat_cond]
  split <;> split <;> omega

/-- The last number of the interval made of a result row is the end of the row. -/
theorem header_interval_last (row : HeaderRow) :
    (MessagesDao.headerInterval row).last = (Sql.toInt64 row.intervalEnd).toUInt64 := by
  have length : (MessagesDao.headerInterval row).len =
      (Sql.toInt64 row.intervalEnd).toUInt64 - (Sql.toInt64 row.intervalStart).toUInt64 + 1 := rfl
  have start : (MessagesDao.headerInterval row).start = (Sql.toInt64 row.intervalStart).toUInt64 :=
    rfl
  rw [Interval.last, length, start]
  grind

/-- The interval made of a result row from zero on spans the row. -/
theorem header_interval_span (row : HeaderRow) (nonnegative : 0 ≤ row.intervalStart)
    (order : row.intervalStart ≤ row.intervalEnd) (fits : row.intervalEnd < 2 ^ 63) :
    (MessagesDao.headerInterval row).span =
      (row.intervalStart.toNat, row.intervalEnd.toNat + 1) := by
  have startValue := unsigned_value (Sql.toInt64 row.intervalStart)
  have endValue := unsigned_value (Sql.toInt64 row.intervalEnd)
  rw [Sql.to_int64_exact _ ⟨by omega, by omega⟩, if_pos (by omega)] at startValue endValue
  have length : (MessagesDao.headerInterval row).len =
      (Sql.toInt64 row.intervalEnd).toUInt64 - (Sql.toInt64 row.intervalStart).toUInt64 + 1 := rfl
  have start : (MessagesDao.headerInterval row).start = (Sql.toInt64 row.intervalStart).toUInt64 :=
    rfl
  have order' : (Sql.toInt64 row.intervalStart).toUInt64 ≤ (Sql.toInt64 row.intervalEnd).toUInt64 :=
    UInt64.le_iff_toNat_le.mpr (by omega)
  rw [Interval.span, length, start, UInt64.toNat_add, UInt64.toNat_sub_of_le _ _ order']
  simp only [UInt64.toNat_one, Prod.mk.injEq]
  omega

/-- So do the intervals of an author whose lamports are from zero on. -/
theorem author_row_span {table : MessagesTable} {author : Text}
    (bounded : ∀ lamport ∈ lamportsOf table.columns author, 0 ≤ lamport ∧ lamport < 2 ^ 63)
    (row : HeaderRow) (member : row ∈ authorRows table author) :
    (MessagesDao.headerInterval row).span =
      (row.intervalStart.toNat, row.intervalEnd.toNat + 1) := by
  obtain ⟨first, last, order⟩ := author_row_stored row member
  exact header_interval_span row (bounded _ first).1 order (bounded _ last).2

/-- What `getHeaders` returns for a table. -/
def tableHeaders (table : MessagesTable) : MessagesDao.Headers :=
  table.headerRows.foldl MessagesDao.pushHeader SortedMap.empty

/-- Pushing result rows one after another files under each key the intervals of
the rows whose author reads as that key, in their order. -/
theorem find_push_headers (rows : List HeaderRow) (headers : MessagesDao.Headers) (key : Text) :
    (rows.foldl MessagesDao.pushHeader headers).find key =
      if rows.filter (fun row => cString row.author = key) = [] then headers.find key
      else some ((headers.find key).getD [] ++
        (rows.filter fun row => cString row.author = key).map MessagesDao.headerInterval) := by
  induction rows generalizing headers with
  | nil => simp
  | cons row rest inductionHypothesis =>
    rw [List.foldl_cons, inductionHypothesis, MessagesDao.pushHeader, SortedMap.find_insert]
    by_cases same : cString row.author = key
    · subst same
      by_cases none : rest.filter (fun other => cString other.author = cString row.author) = []
      · simp [none]
      · simp [none]
    · have other : ¬ key = cString row.author := fun equal => same equal.symm
      simp [same, other]

/-- A result row carries the author of a stored row. -/
theorem header_row_author (table : MessagesTable) (row : HeaderRow)
    (member : row ∈ table.headerRows) : ∃ stored ∈ table.columns, stored.author = row.author := by
  obtain ⟨key, listed, rfl⟩ := List.mem_map.mp member
  obtain ⟨island, present, rfl⟩ := (mem_groups _ _ _).mp listed
  obtain ⟨number, found, _⟩ := (mem_islands _ _).mp present
  have lamport := (mem_numbered_value _ _).mpr ⟨number, found⟩
  obtain ⟨stored, inTable, same, _⟩ := (mem_lamports_of _ _ _).mp lamport
  exact ⟨stored, inTable, same⟩

/-- A key under which the rows of one author only are filed. -/
def Sole (table : MessagesTable) (key author : Text) : Prop :=
  ∀ row ∈ table.columns, cString row.author = key ↔ row.author = author

/-- Without NUL bytes every author's rows are filed under the author itself. -/
theorem sole_of_clean {table : MessagesTable}
    (clean : ∀ row ∈ table.columns, (0 : Byte) ∉ row.author) (author : Text) :
    Sole table author author := by
  intro row member
  rw [c_string_whole _ (clean row member)]

/-- The header of such a key is made of the author's result rows. It is absent
exactly when the author has no rows. -/
theorem find_table_headers (table : MessagesTable) (key author : Text)
    (sole : Sole table key author) :
    (tableHeaders table).find key =
      if lamportsOf table.columns author = [] then none
      else some ((authorRows table author).map MessagesDao.headerInterval) := by
  have rows : table.headerRows.filter (fun row => cString row.author = key) =
      authorRows table author := by
    apply List.filter_congr
    intro row member
    obtain ⟨stored, present, same⟩ := header_row_author table row member
    rw [← same]
    simpa using sole stored present
  have absent : authorRows table author = [] ↔ lamportsOf table.columns author = [] := by
    constructor
    · intro none
      apply List.eq_nil_iff_forall_not_mem.mpr
      intro lamport stored
      obtain ⟨row, member, _⟩ := author_rows_complete lamport stored
      rw [none] at member
      exact absurd member List.not_mem_nil
    · intro none
      apply List.eq_nil_iff_forall_not_mem.mpr
      intro row member
      have stored := (author_row_stored row member).1
      rw [none] at stored
      exact absurd stored List.not_mem_nil
  rw [tableHeaders, find_push_headers, rows]
  simp only [absent, SortedMap.find_empty, Option.getD_none, List.nil_append]

/-- For distinct lamports from zero on, the header of an author is a well-formed
list that covers exactly the stored lamports. -/
theorem table_headers_exact (table : MessagesTable) (key author : Text)
    (sole : Sole table key author) (distinct : (lamportsOf table.columns author).Nodup)
    (bounded : ∀ lamport ∈ lamportsOf table.columns author, 0 ≤ lamport ∧ lamport < 2 ^ 63) :
    WellFormed (((tableHeaders table).find key).getD []) ∧
      covered (((tableHeaders table).find key).getD []) =
        {lamport : Nat | (lamport : Int) ∈ lamportsOf table.columns author} := by
  have exactly := sub_exact_of_nonneg distinct bounded
  have regular := regular_of_nonneg distinct bounded
  have spans := author_row_span bounded
  by_cases empty : lamportsOf table.columns author = []
  · rw [find_table_headers table key author sole, if_pos empty]
    exact ⟨well_formed_nil, by simp [covered_nil, empty]⟩
  · rw [find_table_headers table key author sole, if_neg empty, Option.getD_some]
    refine ⟨⟨?_, ?_, ?_⟩, ?_⟩
    · intro interval member
      obtain ⟨row, found, rfl⟩ := List.mem_map.mp member
      have span := spans row found
      have last := (bounded _ (author_row_stored row found).2.1).2
      have finish : (MessagesDao.headerInterval row).start.toNat +
          (MessagesDao.headerInterval row).len.toNat = row.intervalEnd.toNat + 1 :=
        congrArg Prod.snd span
      omega
    · intro span member
      rw [List.map_map] at member
      obtain ⟨row, found, rfl⟩ := List.mem_map.mp member
      have order := (author_row_stored row found).2.2
      rw [Function.comp_apply, spans row found]
      simp only
      omega
    · rw [List.map_map, List.pairwise_map]
      refine List.Pairwise.imp_of_mem ?_ (author_rows_ordered distinct regular)
      intro left right leftMember rightMember before
      have last := (bounded _ (author_row_stored left leftMember).2.1).1
      rw [Function.comp_apply, Function.comp_apply, spans left leftMember, spans right rightMember]
      simp only
      omega
    · ext lamport
      simp only [covered, Spans.cover, List.map_map, List.mem_map, Set.mem_ofPred_eq]
      constructor
      · rintro ⟨span, ⟨row, found, rfl⟩, within⟩
        rw [Function.comp_apply, spans row found, Spans.Within] at within
        have first := (bounded _ (author_row_stored row found).1).1
        have last := (bounded _ (author_row_stored row found).2.1).1
        simp only at within
        exact author_row_filled distinct exactly row found lamport (by omega) (by omega)
      · intro stored
        obtain ⟨row, found, above, below⟩ := author_rows_complete (lamport : Int) stored
        refine ⟨_, ⟨row, found, rfl⟩, ?_⟩
        rw [Function.comp_apply, spans row found, Spans.Within]
        simp only
        omega

/-- Lamports from one on without a gap, stored in any order, make one result row. -/
theorem author_rows_consecutive {table : MessagesTable} {author : Text} (count : Nat)
    (some : count ≠ 0) (fits : count < 2 ^ 63)
    (consecutive : (lamportsOf table.columns author).Perm
      ((List.range' 1 count).map Int.ofNat)) :
    ∃ row, authorRows table author = [row] ∧ row.intervalStart = 1 ∧ row.intervalEnd = count := by
  have present : ∀ number, 1 ≤ number → number ≤ count →
      (number : Int) ∈ lamportsOf table.columns author := by
    intro number low high
    rw [consecutive.mem_iff]
    exact List.mem_map_of_mem (List.mem_range'_1.mpr ⟨low, by omega⟩)
  have bounded : ∀ lamport ∈ lamportsOf table.columns author, 1 ≤ lamport ∧ lamport ≤ count := by
    intro lamport member
    rw [consecutive.mem_iff] at member
    obtain ⟨number, listed, rfl⟩ := List.mem_map.mp member
    obtain ⟨low, high⟩ := List.mem_range'_1.mp listed
    simp only [Int.ofNat_eq_natCast]
    omega
  have level : ∀ lamport number, (lamport, number) ∈ numbered (lamportsOf table.columns author) →
      lamport = number ∧ Sql.sub lamport number = 0 := by
    intro lamport number member
    rw [numbered_congr _ _ consecutive] at member
    have own := numbered_consecutive count lamport number member
    rw [own, Sql.sub_exact _ _ (by rw [sub_self]; decide), sub_self]
    exact ⟨rfl, rfl⟩
  -- Every lamport is its own number, so there is one group and its row holds them all.
  have whole : ∀ row ∈ authorRows table author, ∀ lamport ∈ lamportsOf table.columns author,
      row.intervalStart ≤ lamport ∧ lamport ≤ row.intervalEnd := by
    intro row member lamport stored
    obtain ⟨shift, ⟨first, firstMember, firstShift⟩, _, bounds⟩ := author_row_bounds row member
    obtain ⟨number, found⟩ := (mem_numbered_value _ _).mp stored
    refine bounds lamport number found ?_
    rw [(level _ _ found).2, ← firstShift, (level _ _ firstMember).2]
  have distinct : (lamportsOf table.columns author).Nodup := by
    rw [consecutive.nodup_iff]
    exact List.Nodup.map (fun _ _ same => Int.ofNat.inj same) List.nodup_range'
  have regular : Regular (lamportsOf table.columns author) := by
    intro lamport number member
    obtain ⟨own, zero⟩ := level _ _ member
    omega
  have ordered := author_rows_ordered distinct regular
  obtain ⟨row, listed, _⟩ := author_rows_complete 1 (present 1 le_rfl (by omega))
  have single : authorRows table author = [row] := by
    cases rows : authorRows table author with
    | nil => exact absurd (rows ▸ listed) List.not_mem_nil
    | cons first rest =>
      cases rest with
      | nil =>
        rw [rows] at listed
        rw [List.mem_singleton.mp listed]
      | cons later rest =>
        have inside := whole later (by simp [rows]) first.intervalEnd
          (author_row_stored first (by simp [rows])).2.1
        rw [rows] at ordered
        have before := (List.pairwise_cons.mp ordered).1 later List.mem_cons_self
        omega
  obtain ⟨startStored, endStored, _⟩ := author_row_stored row listed
  refine ⟨row, single, ?_, ?_⟩
  · have low := (bounded _ startStored).1
    have high := (whole row listed 1 (present 1 le_rfl (by omega))).1
    omega
  · have high := (bounded _ endStored).2
    have low := (whole row listed count (present count (by omega) le_rfl)).2
    omega

/-- The interval of a result row from one on. -/
theorem header_interval_from_one (row : HeaderRow) (count : Nat) (start : row.intervalStart = 1)
    (finish : row.intervalEnd = count) (positive : 1 ≤ count) (fits : count < 2 ^ 63) :
    MessagesDao.headerInterval row = ⟨1, UInt64.ofNat count⟩ := by
  have span := header_interval_span row (by omega) (by omega) (by omega)
  rw [start, finish] at span
  obtain ⟨starts, ends⟩ := Prod.mk.inj span
  have small : (UInt64.ofNat count).toNat = count := by
    apply UInt64.toNat_ofNat_of_lt'
    rw [UInt64.size]
    omega
  have startValue : (MessagesDao.headerInterval row).start = 1 := by
    apply UInt64.toNat_inj.mp
    rw [starts]
    rfl
  have lenValue : (MessagesDao.headerInterval row).len = UInt64.ofNat count := by
    apply UInt64.toNat_inj.mp
    rw [small]
    omega
  cases made : MessagesDao.headerInterval row
  simp only [made] at startValue lenValue
  rw [startValue, lenValue]

/-- Lamports from one on without a gap are offered as one interval. -/
theorem find_consecutive_header (table : MessagesTable) (key author : Text)
    (sole : Sole table key author) (count : Nat) (fits : count < 2 ^ 63)
    (consecutive : (lamportsOf table.columns author).Perm
      ((List.range' 1 count).map Int.ofNat)) :
    (tableHeaders table).find key =
      if count = 0 then none else some [⟨1, UInt64.ofNat count⟩] := by
  rw [find_table_headers table key author sole]
  by_cases none : count = 0
  · rw [none] at consecutive
    rw [if_pos consecutive.eq_nil, if_pos none]
  · obtain ⟨row, single, start, finish⟩ := author_rows_consecutive count none fits consecutive
    have stored : lamportsOf table.columns author ≠ [] := by
      intro empty
      have length := consecutive.length_eq
      rw [empty, List.length_map, List.length_range'] at length
      exact none length.symm
    rw [if_neg stored, if_neg none, single, List.map_singleton,
      header_interval_from_one row count start finish (by omega) fits]

end Replikon
