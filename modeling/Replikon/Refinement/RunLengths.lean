import Replikon.Refinement.Pull

/-!
# Headers as run lengths

Over a table whose rows are told apart by author and lamport, the header of an
author lists the maximal runs of its lamports. Two result rows that touched would
stand at the same distance from their row numbers, and the query groups by that
distance; so they would be one row.
-/

namespace Replikon

open Foundation MessagesTable

section Separation

variable {table : MessagesTable} {author : Text}
  (distinct : (lamportsOf table.columns author).Nodup)
  (exactly : ∀ lamport number, (lamport, number) ∈ numbered (lamportsOf table.columns author) →
    Sql.sub lamport number = lamport - number)
include distinct exactly

/-- A result row does not begin right behind another one of the author. -/
theorem author_rows_apart (left right : HeaderRow) (leftMember : left ∈ authorRows table author)
    (rightMember : right ∈ authorRows table author)
    (before : left.intervalEnd < right.intervalStart) :
    left.intervalEnd + 1 < right.intervalStart := by
  obtain ⟨shift, _, ⟨last, lastMember, lastShift⟩, bounds⟩ := author_row_bounds left leftMember
  obtain ⟨_, ⟨first, firstMember, _⟩, _, _⟩ := author_row_bounds right rightMember
  by_contra touching
  have order := (numbered_order distinct lastMember firstMember).mp before
  have gap := numbered_gap distinct lastMember firstMember order.le
  -- The next lamport has the next number, hence the same distance and the same group.
  have same : Sql.sub right.intervalStart first = shift := by
    rw [exactly _ _ lastMember] at lastShift
    rw [exactly _ _ firstMember]
    omega
  have inside := (bounds right.intervalStart first firstMember same).2
  omega

/-- The result rows of an author are separated by lamports that are not stored. -/
theorem author_rows_separated (regular : Regular (lamportsOf table.columns author)) :
    (authorRows table author).Pairwise
      (fun left right => left.intervalEnd + 1 < right.intervalStart) :=
  (author_rows_ordered distinct regular).imp_of_mem fun leftMember rightMember before =>
    author_rows_apart distinct exactly _ _ leftMember rightMember before

end Separation

/-- The intervals are the runs of consecutive numbers, ascending and maximal: no
interval ends immediately before the next one starts. -/
structure RunLengths (intervals : List Interval) (numbers : Set Nat) : Prop where
  wellFormed : WellFormed intervals
  exact : covered intervals = numbers
  maximal : intervals.Pairwise fun left right =>
    left.start.toNat + left.len.toNat < right.start.toNat

/-- The lamports stored for an author, as the unsigned numbers of the messages. -/
def storedLamports (rows : List MessageColumns) (author : Text) : Set Nat :=
  {lamport | ∃ row ∈ rows, row.author = author ∧ row.lamport.toUInt64.toNat = lamport}

/-- Lamports from zero on are stored as they are. -/
theorem stored_lamports_eq (rows : List MessageColumns)
    (nonnegative : ∀ row ∈ rows, 0 ≤ row.lamport.toInt) (author : Text) :
    storedLamports rows author = {lamport : Nat | (lamport : Int) ∈ lamportsOf rows author} := by
  ext lamport
  simp only [storedLamports, Set.mem_ofPred_eq, mem_lamports_of]
  refine exists_congr fun row => and_congr_right fun member => and_congr_right fun _ => ?_
  have unsigned := unsigned_value row.lamport
  rw [if_pos (nonnegative row member)] at unsigned
  omega

/-- The header of an author with rows is made of the maximal runs. -/
theorem find_run_lengths (table : MessagesTable) (distinct : table.Distinct)
    (nonnegative : ∀ row ∈ table.columns, 0 ≤ row.lamport.toInt)
    (clean : ∀ row ∈ table.columns, (0 : Byte) ∉ row.author) (author : Text)
    (intervals : List Interval) (found : (tableHeaders table).find author = some intervals) :
    RunLengths intervals (storedLamports table.columns author) := by
  have sole := sole_of_clean clean author
  have apart := lamports_nodup _ distinct author
  have bounded : ∀ lamport ∈ lamportsOf table.columns author, 0 ≤ lamport ∧ lamport < 2 ^ 63 := by
    intro lamport stored
    obtain ⟨row, member, _, rfl⟩ := (mem_lamports_of _ _ _).mp stored
    exact ⟨nonnegative row member, row.lamport.toInt_lt⟩
  obtain ⟨wellFormed, exact⟩ := table_headers_exact table author author sole apart bounded
  rw [found, Option.getD_some] at wellFormed exact
  refine ⟨wellFormed, exact.trans (stored_lamports_eq _ nonnegative author).symm, ?_⟩
  have rows : intervals = (authorRows table author).map MessagesDao.headerInterval := by
    rw [find_table_headers table author author sole] at found
    split at found
    · cases found
    · exact (Option.some.inj found).symm
  have exactly := sub_exact_of_nonneg apart bounded
  rw [rows, List.pairwise_map]
  refine (author_rows_separated apart exactly (regular_of_nonneg apart bounded)).imp_of_mem ?_
  intro left right leftMember rightMember separated
  have finish : (MessagesDao.headerInterval left).start.toNat +
      (MessagesDao.headerInterval left).len.toNat = left.intervalEnd.toNat + 1 :=
    congrArg Prod.snd (author_row_span bounded left leftMember)
  have start : (MessagesDao.headerInterval right).start.toNat = right.intervalStart.toNat :=
    congrArg Prod.fst (author_row_span bounded right rightMember)
  have last := (bounded _ (author_row_stored left leftMember).2.1).1
  omega

namespace MessagesDao

/-- The headers name precisely the authors of the table, each with the maximal
runs of its stored lamports. -/
theorem get_headers_exact (replica : Replica) (reliable : replica.Reliable)
    (distinct : replica.messages.Distinct)
    (nonnegative : ∀ row ∈ replica.messages.columns, 0 ≤ row.lamport.toInt)
    (clean : ∀ row ∈ replica.messages.columns, (0 : Byte) ∉ row.author) :
    ∃ headers, getHeaders.run replica = .ok (.ok headers) replica ∧ ∀ author,
      ((∃ intervals, headers.find author = some intervals) ↔
        ∃ row ∈ replica.messages.columns, row.author = author) ∧
      ∀ intervals, headers.find author = some intervals →
        RunLengths intervals (storedLamports replica.messages.columns author) := by
  refine ⟨tableHeaders replica.messages, get_headers_run reliable, fun author => ⟨?_, ?_⟩⟩
  · rw [find_table_headers _ author author (sole_of_clean clean author)]
    constructor
    · rintro ⟨intervals, found⟩
      by_contra absent
      have none : lamportsOf replica.messages.columns author = [] := by
        rw [lamportsOf, List.map_eq_nil_iff, List.filter_eq_nil_iff]
        intro row member same
        exact absent ⟨row, member, by simpa using same⟩
      rw [if_pos none] at found
      cases found
    · rintro ⟨row, member, same⟩
      have stored : row.lamport.toInt ∈ lamportsOf replica.messages.columns author :=
        (mem_lamports_of _ _ _).mpr ⟨row, member, same, rfl⟩
      exact ⟨_, if_neg (List.ne_nil_of_mem stored)⟩
  · intro intervals found
    exact find_run_lengths replica.messages distinct nonnegative clean author intervals found

/-- A replica with messages of two authors that arrived out of order: the numbers
of the first have a gap, and the two share a distance. -/
def scatteredReplica : Replica :=
  Log.sampleReplica.store [⟨ascii "a", ascii "hi", 5, 4, []⟩, ⟨ascii "b", ascii "hi", 5, 1, []⟩,
    ⟨ascii "a", ascii "hi", 5, 2, []⟩, ⟨ascii "a", ascii "hi", 5, 1, []⟩]

theorem get_headers_exact_sample :
    ∃ headers, getHeaders.run scatteredReplica = .ok (.ok headers) scatteredReplica ∧ ∀ author,
      ((∃ intervals, headers.find author = some intervals) ↔
        ∃ row ∈ scatteredReplica.messages.columns, row.author = author) ∧
      ∀ intervals, headers.find author = some intervals →
        RunLengths intervals (storedLamports scatteredReplica.messages.columns author) :=
  get_headers_exact scatteredReplica rfl (by rw [MessagesTable.Distinct]; decide) (by decide)
    (by decide)

/-- The header has the two runs of the first author. -/
example : (tableHeaders scatteredReplica.messages).find (ascii "a") = some [⟨1, 2⟩, ⟨4, 1⟩] := by
  decide

end MessagesDao

end Replikon
