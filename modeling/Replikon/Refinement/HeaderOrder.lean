import Replikon.Refinement.Lamports

/-!
# When a header passes the guard

The rows of an author reach the header in the order of signed lamports, and the
guard compares unsigned ends and starts. They agree as long as lamports are told
apart, no other author is filed under the same key, and the two halves of the
range are not both in use, unless a run of lamports joins them.

At the lower end of the range the distance of a lamport from its number does not
fit. SQLite then subtracts reals, and rounding gives the lowest integer for all
of these distances as long as they are few.
-/

namespace Replikon

open Foundation MessagesTable

/-- A multiple of the unit nearest to a number is half a unit away at most. -/
theorem nearest_multiple (magnitude unit : Nat) (up : Prop) [Decidable up]
    (positive : 0 < unit) (far : up → unit ≤ 2 * (magnitude % unit))
    (near : ¬ up → 2 * (magnitude % unit) ≤ unit) :
    2 * (((if up then magnitude / unit + 1 else magnitude / unit) * unit : Nat) -
      (magnitude : Int)).natAbs ≤ unit := by
  have whole := Nat.div_add_mod' magnitude unit
  have rest := Nat.mod_lt magnitude positive
  by_cases upwards : up
  · have half := far upwards
    rw [if_pos upwards, Nat.add_mul]
    omega
  · have half := near upwards
    rw [if_neg upwards]
    omega

/-- Rounding moves an integer by half a unit in the last place at most. -/
theorem round_double_near (value : Int) :
    2 * (Sql.roundDouble value - value).natAbs ≤ 2 ^ (value.natAbs.log2 - 52) := by
  unfold Sql.roundDouble
  by_cases small : value.natAbs < 2 ^ 53
  · simp only [small, if_true, sub_self, Int.natAbs_zero]
    exact Nat.zero_le _
  · simp only [small, if_false]
    have error : ∀ rounded : Nat, (value.sign * rounded - value).natAbs ≤
        ((rounded : Int) - value.natAbs).natAbs := by
      intro rounded
      rcases Int.lt_trichotomy value 0 with below | zero | above
      · rw [Int.sign_eq_neg_one_of_neg below]
        omega
      · subst zero
        simp
      · rw [Int.sign_eq_one_of_pos above]
        omega
    refine (Nat.mul_le_mul_left 2 (error _)).trans ?_
    apply nearest_multiple _ _ _ (Nat.two_pow_pos _)
    · rintro (more | ⟨half, _⟩) <;> omega
    · intro notUp
      omega

/-- Doubles at the lower end of the range are 1024 apart above it and 2048 below. -/
theorem round_double_bottom (value : Int) (above : -2 ^ 63 - 513 ≤ value)
    (below : value ≤ -2 ^ 63 + 511) : Sql.roundDouble value = -2 ^ 63 := by
  unfold Sql.roundDouble
  have large : ¬ value.natAbs < 2 ^ 53 := by omega
  have negative : value.sign = -1 := Int.sign_eq_neg_one_of_neg (by omega)
  simp only [large, if_false, negative]
  by_cases inside : value.natAbs < 2 ^ 63
  · have bits : value.natAbs.log2 = 62 := (Nat.log2_eq_iff (by omega)).mpr (by omega)
    have quotient : value.natAbs / 2 ^ (62 - 52) = 2 ^ 53 - 1 := by omega
    have up : 2 ^ (62 - 52) < 2 * (value.natAbs % 2 ^ (62 - 52)) := by omega
    rw [bits, if_pos (.inl up), quotient]
    decide
  · have bits : value.natAbs.log2 = 63 := (Nat.log2_eq_iff (by omega)).mpr (by omega)
    have quotient : value.natAbs / 2 ^ (63 - 52) = 2 ^ 52 := by omega
    have rest : 2 * (value.natAbs % 2 ^ (63 - 52)) < 2 ^ (63 - 52) := by omega
    rw [bits, if_neg (by omega), quotient]
    decide

/-- The difference of the `number`-th value of the range and its number. -/
theorem sub_bottom (number : Nat) (positive : 1 ≤ number) (few : number < 2 ^ 53) :
    Sql.sub (-2 ^ 63 + number - 1) number = -2 ^ 63 := by
  have overflows : ¬ Sql.Fits (-2 ^ 63 + number - 1 - number) := by
    unfold Sql.Fits
    omega
  have whole : Sql.roundDouble number = number := by
    unfold Sql.roundDouble
    simp only [Int.natAbs_natCast, few, if_true]
  have near : (Sql.roundDouble (-2 ^ 63 + number - 1) - (-2 ^ 63 + number - 1)).natAbs ≤ 512 := by
    rcases positive.eq_or_lt with first | later
    · subst first
      decide
    · have bits : (-2 ^ 63 + number - 1 : Int).natAbs.log2 < 63 :=
        (Nat.log2_lt (by omega)).mpr (by omega)
      have unit : 2 ^ ((-2 ^ 63 + number - 1 : Int).natAbs.log2 - 52) ≤ 2 ^ 10 :=
        Nat.pow_le_pow_right (by decide) (by omega)
      have half := round_double_near (-2 ^ 63 + number - 1)
      omega
  rw [Sql.sub, if_neg overflows, whole]
  apply round_double_bottom <;> omega

/-- Different lamports, the lowest only among few, have regular distances. -/
theorem regular_of_distinct (lamports : List Int) (distinct : lamports.Nodup)
    (fit : ∀ lamport ∈ lamports, Sql.Fits lamport)
    (few : -2 ^ 63 ∈ lamports → lamports.length < 2 ^ 53) : Regular lamports := by
  intro lamport number member
  have stored := (mem_numbered_value _ _).mpr ⟨number, member⟩
  have upper := (fit lamport stored).2
  have lower := numbered_lower distinct (-2 ^ 63) member fun other found => (fit other found).1
  obtain ⟨positive, placed⟩ := (mem_numbered _ _ _).mp member
  by_cases exactly : -2 ^ 63 ≤ lamport - number
  · rw [Sql.sub_exact _ _ ⟨exactly, by omega⟩]
    omega
  · have bottom : lamport = -2 ^ 63 + number - 1 := by omega
    have lowest : -2 ^ 63 ∈ lamports := by
      by_contra absent
      have above := numbered_lower distinct (-2 ^ 63 + 1) member fun other found => by
        have different : other ≠ -2 ^ 63 := fun same => absent (same ▸ found)
        have low := (fit other found).1
        omega
      omega
    obtain ⟨inside, _⟩ := List.getElem?_eq_some_iff.mp placed
    rw [List.length_insertionSort] at inside
    have small := few lowest
    rw [bottom, sub_bottom number positive (by omega)]
    omega

/-- A result row comes after another one, also when both are read as unsigned. -/
def Follows (before after : HeaderRow) : Prop :=
  before.intervalEnd < after.intervalStart ∧
    (before.intervalEnd < 0 → after.intervalStart < 0)

/-- The interval of a result row that does not reach the end of the range is not empty. -/
theorem header_interval_nonempty (row : HeaderRow) (startFits : Sql.Fits row.intervalStart)
    (endFits : Sql.Fits row.intervalEnd) (order : row.intervalStart ≤ row.intervalEnd)
    (room : row.intervalEnd < 2 ^ 63 - 1) : (MessagesDao.headerInterval row).len ≠ 0 := by
  have startValue := unsigned_value (Sql.toInt64 row.intervalStart)
  have endValue := unsigned_value (Sql.toInt64 row.intervalEnd)
  rw [Sql.to_int64_exact _ startFits] at startValue
  rw [Sql.to_int64_exact _ endFits] at endValue
  intro empty
  have next : (Sql.toInt64 row.intervalEnd).toUInt64 + 1 =
      (Sql.toInt64 row.intervalStart).toUInt64 := by
    have length : (Sql.toInt64 row.intervalEnd).toUInt64 -
        (Sql.toInt64 row.intervalStart).toUInt64 + 1 = 0 := empty
    grind
  have wrapped := congrArg UInt64.toNat next
  rw [UInt64.toNat_add, UInt64.toNat_one] at wrapped
  have lower := startFits.1
  split at startValue <;> split at endValue <;> omega

/-- The interval of a result row ends before that of a following row starts. -/
theorem header_interval_before (before after : HeaderRow) (follows : Follows before after)
    (endFits : Sql.Fits before.intervalEnd) (startFits : Sql.Fits after.intervalStart) :
    (MessagesDao.headerInterval before).last < (MessagesDao.headerInterval after).start := by
  have endValue := unsigned_value (Sql.toInt64 before.intervalEnd)
  have startValue := unsigned_value (Sql.toInt64 after.intervalStart)
  rw [Sql.to_int64_exact _ endFits] at endValue
  rw [Sql.to_int64_exact _ startFits] at startValue
  obtain ⟨order, signs⟩ := follows
  rw [header_interval_last, UInt64.lt_iff_toNat_lt]
  change _ < (Sql.toInt64 after.intervalStart).toUInt64.toNat
  split at startValue <;> split at endValue <;> omega

/-- Rows that follow each other give intervals that pass the guard. -/
theorem monotonic_of_following (rows : List HeaderRow)
    (proper : ∀ row ∈ rows, Sql.Fits row.intervalStart ∧ Sql.Fits row.intervalEnd ∧
      row.intervalStart ≤ row.intervalEnd)
    (following : rows.IsChain Follows) :
    isMonotonicNonColliding (rows.map MessagesDao.headerInterval) = true := by
  induction rows with
  | nil => rfl
  | cons before rest inductionHypothesis =>
    cases rest with
    | nil => rfl
    | cons after rest =>
      obtain ⟨follows, later⟩ := List.isChain_cons_cons.mp following
      obtain ⟨startFits, endFits, order⟩ := proper before List.mem_cons_self
      have afterFits := (proper after (by simp)).1
      have room : before.intervalEnd < 2 ^ 63 - 1 := by
        have upper := afterFits.2
        have below := follows.1
        omega
      have nonempty := header_interval_nonempty before startFits endFits order room
      have apart := header_interval_before before after follows endFits afterFits
      have guard := inductionHypothesis (fun row member => proper row (List.mem_cons_of_mem _ member))
        later
      simp only [List.map_cons, isMonotonicNonColliding, nonempty, UInt64.not_le.mpr apart,
        if_false]
      exact guard

/-- All lamports of an author are from zero on, or all are negative, or minus one
and zero are among them and join the two sides. -/
def Sided (lamports : List Int) : Prop :=
  (∀ lamport ∈ lamports, 0 ≤ lamport) ∨ (∀ lamport ∈ lamports, lamport < 0) ∨
    (-1 ∈ lamports ∧ 0 ∈ lamports)

section Author

variable {table : MessagesTable} {author : Text}
  (distinct : (lamportsOf table.columns author).Nodup)
  (regular : Regular (lamportsOf table.columns author))
include distinct regular

/-- When minus one and zero are stored, one result row covers both. -/
theorem author_row_joins (last : -1 ∈ lamportsOf table.columns author)
    (first : 0 ∈ lamportsOf table.columns author) :
    ∃ row ∈ authorRows table author, row.intervalStart < 0 ∧ 0 ≤ row.intervalEnd := by
  obtain ⟨number, lastMember⟩ := (mem_numbered_value _ _).mp last
  obtain ⟨next, firstMember⟩ := (mem_numbered_value _ _).mp first
  have later : number < next := (numbered_order distinct lastMember firstMember).mp (by decide)
  have gap := numbered_gap distinct lastMember firstMember later.le
  have level : Sql.sub (-1) number = Sql.sub 0 next := by
    rw [regular _ _ lastMember, regular _ _ firstMember]
    omega
  obtain ⟨row, listed, bounds⟩ := author_rows_group 0 next firstMember
  have start := (bounds (-1) number lastMember level).1
  have finish := (bounds 0 next firstMember rfl).2
  exact ⟨row, listed, by omega, finish⟩

/-- The result rows of an author whose lamports are sided follow each other. -/
theorem author_rows_following (sided : Sided (lamportsOf table.columns author)) :
    (authorRows table author).IsChain Follows := by
  have ordered := author_rows_ordered distinct regular
  apply List.isChain_iff_forall_rel_of_append_cons_cons.mpr
  intro before after earlier rest split
  have beforeMember : before ∈ authorRows table author := by simp [split]
  have afterMember : after ∈ authorRows table author := by simp [split]
  obtain ⟨_, beforeEnd, _⟩ := author_row_stored before beforeMember
  obtain ⟨afterStart, _, afterOrder⟩ := author_row_stored after afterMember
  rw [split] at ordered
  obtain ⟨_, tailOrdered, headOrdered⟩ := List.pairwise_append.mp ordered
  obtain ⟨beforeRest, tailOrdered⟩ := List.pairwise_cons.mp tailOrdered
  have step := beforeRest after List.mem_cons_self
  refine ⟨step, ?_⟩
  intro negative
  rcases sided with nonnegative | negatives | ⟨last, first⟩
  · have above := nonnegative _ beforeEnd
    omega
  · exact negatives _ afterStart
  · -- The row that joins the two sides is one of the two, or lies outside them.
    obtain ⟨row, listed, low, high⟩ := author_row_joins distinct regular last first
    rw [split] at listed
    rcases List.mem_append.mp listed with inEarlier | inLater
    · have inOrder := headOrdered row inEarlier before List.mem_cons_self
      have beforeOrder := (author_row_stored before beforeMember).2.2
      omega
    · rcases List.mem_cons.mp inLater with rfl | inRest
      · omega
      · rcases List.mem_cons.mp inRest with rfl | outside
        · exact low
        · have inOrder := (List.pairwise_cons.mp tailOrdered).1 row outside
          omega

end Author

/-- Rows that are told apart, filed under the names of their authors alone and
sided. The lowest lamport is stored only among few. -/
structure WellPlaced (rows : List MessageColumns) : Prop where
  distinct : (rows.map MessageColumns.identity).Nodup
  names : ∀ row ∈ rows, ∀ other ∈ rows, cString row.author = cString other.author →
    row.author = other.author
  sided : ∀ author, Sided (lamportsOf rows author)
  few : ∀ author, -2 ^ 63 ∈ lamportsOf rows author → (lamportsOf rows author).length < 2 ^ 53

theorem well_placed_nil : WellPlaced [] :=
  ⟨List.nodup_nil, by simp, fun _ => .inl (by simp [lamportsOf]), by simp [lamportsOf]⟩

/-- A single row with a lamport from zero on is well-placed. -/
theorem well_placed_single (row : MessageColumns) (nonnegative : 0 ≤ row.lamport.toInt) :
    WellPlaced [row] := by
  have own : ∀ author, ∀ lamport ∈ lamportsOf [row] author, lamport = row.lamport.toInt := by
    intro author lamport member
    obtain ⟨stored, present, _, rfl⟩ := (mem_lamports_of _ _ _).mp member
    rw [List.mem_singleton.mp present]
  refine ⟨List.nodup_singleton _, ?_, ?_, ?_⟩
  · intro first firstMember second secondMember _
    rw [List.mem_singleton.mp firstMember, List.mem_singleton.mp secondMember]
  · intro author
    refine .inl ?_
    intro lamport member
    rw [own author lamport member]
    exact nonnegative
  · intro author lowest
    have same := own author _ lowest
    omega

/-- Every list in the header of a well-placed table passes the guard. -/
theorem WellPlaced.monotonic {table : MessagesTable} (placed : WellPlaced table.columns)
    (key : Text) :
    isMonotonicNonColliding (((tableHeaders table).find key).getD []) = true := by
  by_cases filed : ∃ row ∈ table.columns, cString row.author = key
  · obtain ⟨row, present, rfl⟩ := filed
    have sole : Sole table (cString row.author) row.author := by
      intro other member
      constructor
      · exact placed.names other member row present
      · exact congrArg cString
    have distinct := lamports_nodup _ placed.distinct row.author
    have fit := lamports_fit table.columns row.author
    have regular := regular_of_distinct _ distinct fit (placed.few row.author)
    have stored : lamportsOf table.columns row.author ≠ [] :=
      List.ne_nil_of_mem ((mem_lamports_of _ _ _).mpr ⟨row, present, rfl, rfl⟩)
    rw [find_table_headers table _ row.author sole, if_neg stored, Option.getD_some]
    apply monotonic_of_following
    · intro result listed
      obtain ⟨start, finish, order⟩ := author_row_stored result listed
      exact ⟨fit _ start, fit _ finish, order⟩
    · exact author_rows_following distinct regular (placed.sided row.author)
  · have none : table.headerRows.filter (fun row => cString row.author = key) = [] := by
      apply List.filter_eq_nil_iff.mpr
      intro row member same
      obtain ⟨stored, present, author⟩ := header_row_author table row member
      exact filed ⟨stored, present, by simpa [author] using same⟩
    rw [tableHeaders, find_push_headers, none]
    rfl

end Replikon
