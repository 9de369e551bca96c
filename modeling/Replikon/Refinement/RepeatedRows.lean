import Replikon.Refinement.IntervalGuard
import Replikon.Refinement.Refusals

/-!
# Headers and updates of tables that hold rows more than once

A delivery that is repeated stores its rows again. The row numbers then advance
where the lamports do not, and the runs of the author fall into intervals that
overlap: the guard of the sweep accepts the header of an author exactly when it
has no lamport twice. A request that is returned by a build with assertions was
therefore computed from exact headers, and asks for all that the puller lacks. An
update holds whatever stored rows its request asks for, wherever that came from.
-/

namespace Replikon

open Foundation MessagesTable

section Author

variable {table : MessagesTable} {author : Text}
  (bounded : ∀ lamport ∈ lamportsOf table.columns author, 0 ≤ lamport ∧ lamport < 2 ^ 63)
include bounded

/-- The distance of a lamport from zero on from its number among few is exact. -/
theorem sub_exact_of_few (few : (lamportsOf table.columns author).length < 2 ^ 63)
    (lamport : Int) (number : Nat)
    (member : (lamport, number) ∈ numbered (lamportsOf table.columns author)) :
    Sql.sub lamport number = lamport - number := by
  obtain ⟨lower, upper⟩ := bounded lamport ((mem_numbered_value _ _).mpr ⟨number, member⟩)
  obtain ⟨positive, placed⟩ := (mem_numbered _ _ _).mp member
  obtain ⟨inside, _⟩ := List.getElem?_eq_some_iff.mp placed
  rw [List.length_insertionSort] at inside
  apply Sql.sub_exact
  constructor <;> omega

/-- Each distance of a lamport from its number has a group, whose result row spans
the lamport. -/
theorem author_key_spans (lamport : Int) (number : Nat)
    (member : (lamport, number) ∈ numbered (lamportsOf table.columns author)) :
    toLex (Sql.sub lamport number, author) ∈ authorKeys table author ∧
      Spans.Within (MessagesDao.headerInterval (headerRow (islands table.columns)
        (toLex (Sql.sub lamport number, author)))).span lamport.toNat := by
  let island : Island := ⟨author, lamport, Sql.sub lamport number⟩
  have present : island ∈ islands table.columns := (mem_islands _ _).mpr ⟨number, member, rfl⟩
  have listed : island.key ∈ groups Island.key (islands table.columns) :=
    (mem_groups _ _ _).mpr ⟨island, present, rfl⟩
  have own : island.key ∈ authorKeys table author :=
    List.mem_filter.mpr ⟨listed, by simp [island, Island.key]⟩
  have row : headerRow (islands table.columns) island.key ∈ authorRows table author := by
    rw [author_rows_eq]
    exact List.mem_map_of_mem own
  obtain ⟨first, last, same, _, _, bounds⟩ := header_row_bounds table.columns island.key listed
  obtain ⟨above, below⟩ := bounds lamport number member rfl
  have nonnegative := (bounded _ (author_row_stored _ row).1).1
  refine ⟨own, ?_⟩
  change Spans.Within (MessagesDao.headerInterval (headerRow _ island.key)).span _
  rw [author_row_span bounded _ row, Spans.Within]
  rw [same] at nonnegative ⊢
  simp only at nonnegative ⊢
  omega

/-- A lamport that is stored twice has two numbers, and its two groups overlap. -/
theorem lamports_nodup_of_ascending (few : (lamportsOf table.columns author).length < 2 ^ 63)
    (ascending : Spans.Ascending
      (((authorRows table author).map MessagesDao.headerInterval).map Interval.span)) :
    (lamportsOf table.columns author).Nodup := by
  by_contra repeated
  obtain ⟨lamport, number, member, next⟩ := numbered_repeated _ repeated
  obtain ⟨first, within⟩ := author_key_spans bounded lamport number member
  obtain ⟨second, withinToo⟩ := author_key_spans bounded lamport (number + 1) next
  have exactly := sub_exact_of_few bounded few lamport number member
  have exactlyNext := sub_exact_of_few bounded few lamport (number + 1) next
  have different : toLex (Sql.sub lamport number, author) ≠
      toLex (Sql.sub lamport (number + 1 : Nat), author) := by
    intro same
    have shifts : Sql.sub lamport number = Sql.sub lamport (number + 1 : Nat) :=
      congrArg (fun key => (ofLex key).1) same
    rw [exactly, exactlyNext] at shifts
    omega
  let inside : Int ×ₗ Text → Prop := fun key => Spans.Within
    (MessagesDao.headerInterval (headerRow (islands table.columns) key)).span lamport.toNat
  have separate := ascending.separate
  rw [author_rows_eq, List.map_map, List.map_map, List.pairwise_map] at separate
  have apart : (authorKeys table author).Pairwise fun left right => ¬ (inside left ∧ inside right) :=
    separate.imp fun before both => absurd both.2.1 (not_le.mpr (both.1.2.trans_le before))
  have symmetric : Std.Symm fun left right => ¬ (inside left ∧ inside right) :=
    ⟨fun _ _ apart both => apart both.symm⟩
  exact apart.forall first second different ⟨within, withinToo⟩

/-- The guard accepts the header of an author with few lamports from zero on exactly
when no lamport is stored twice. -/
theorem header_accepted_iff (few : (lamportsOf table.columns author).length < 2 ^ 63) {key : Text}
    (sole : Sole table key author) :
    isMonotonicNonColliding (((tableHeaders table).find key).getD []) = true ↔
      (lamportsOf table.columns author).Nodup := by
  constructor
  · intro accepted
    rw [find_table_headers table key author sole] at accepted
    by_cases empty : lamportsOf table.columns author = []
    · rw [empty]
      exact List.nodup_nil
    · rw [if_neg empty, Option.getD_some] at accepted
      refine lamports_nodup_of_ascending bounded few ((well_formed_iff _).mpr ⟨accepted, ?_⟩).ascending
      have each : ∀ interval ∈ (authorRows table author).map MessagesDao.headerInterval,
          interval.span.1 < interval.span.2 ∧ interval.span.2 ≤ 2 ^ 63 := by
        intro interval member
        obtain ⟨row, found, rfl⟩ := List.mem_map.mp member
        obtain ⟨stored, storedLast, order⟩ := author_row_stored row found
        have first := (bounded _ stored).1
        have last := (bounded _ storedLast).2
        rw [author_row_span bounded row found]
        simp only
        omega
      rintro (⟨last, isLast, nothing⟩ | ⟨interval, member, past⟩)
      · have nonempty := (each last (List.mem_of_getLast? isLast)).1
        simp [Interval.span, nothing] at nonempty
      · have inside := (each interval member).2
        omega
  · intro distinct
    exact (table_headers_exact table key author sole distinct bounded).1.monotonic

end Author

namespace Log

variable {Signature : Type}

/-- One of the intervals that the request has for the row's author holds the row's
lamport, as the query compares them. -/
def Asks (request : Request) (row : MessageColumns) : Prop :=
  ∃ interval ∈ (request.find row.author).getD [],
    (MessagesDao.bounds interval).1.toInt ≤ row.lamport.toInt ∧
      row.lamport.toInt ≤ (MessagesDao.bounds interval).2.toInt

/-- The rows of the table are read back as they were stored. -/
structure ReadsBack (sodium : Sodium Signature) (table : MessagesTable) : Prop where
  clean : ∀ row ∈ table.columns, (0 : Byte) ∉ row.author ∧ (0 : Byte) ∉ row.body
  readable : Readable sodium table

/-- Any request is answered with exactly the stored rows that it asks for, each
under its own author. -/
theorem get_update_asked {sodium : Sodium Signature} {source : Replica} (reliable : source.Reliable)
    (readsBack : ReadsBack sodium source.messages) (request : Request) :
    ∃ update searched,
      (getUpdate sodium request).run source = .ok update { source with searchIntervals := searched } ∧
      (∀ offer ∈ offers update, offer.message.author = offer.key) ∧
      ∀ row, row ∈ (offers update).map (Offer.row sodium) ↔
        row ∈ source.messages.columns ∧ Asks request row := by
  let update : Update Signature := request.mapValues fun k v =>
    (selected source.messages k v).filterMap (handOut sodium)
  have under : ∀ k v, (offersUnder k ((selected source.messages k v).filterMap (handOut sodium))).map
      (Offer.row sodium) =
        source.messages.byIntervals (some k) (v.map MessagesDao.bounds) := by
    intro k v
    refine hand_out_rows _ ?_ ?_ k
    · intro row joined
      exact readsBack.clean row ((mem_by_intervals _ _ _ _).mp joined).1
    · intro row joined
      exact readsBack.readable row ((mem_by_intervals _ _ _ _).mp joined).1
  have entry : ∀ offer ∈ offers update, ∃ v, (offer.key, v) ∈ request.entries ∧
      offer.row sodium ∈
        source.messages.byIntervals (some offer.key) (v.map MessagesDao.bounds) := by
    intro offer offered
    obtain ⟨filed, listed, member⟩ := List.mem_flatMap.mp offered
    obtain ⟨⟨k, v⟩, asked, rfl⟩ := List.mem_map.mp listed
    have key : offer.key = k := by
      obtain ⟨_, _, rfl⟩ := List.mem_map.mp member
      rfl
    rw [key]
    exact ⟨v, asked, under k v ▸ List.mem_map_of_mem member⟩
  obtain ⟨searched, updated⟩ := get_update_run sodium reliable request
  have handed : handOutAll sodium source.messages request.entries SortedMap.empty = some update := by
    rw [hand_out_all_readable _ readsBack.readable, SortedMap.assign_all_entries]
  rw [handed] at updated
  refine ⟨update, searched, updated, ?_, ?_⟩
  · intro offer offered
    obtain ⟨v, _, joined⟩ := entry offer offered
    exact ((mem_by_intervals _ _ _ _).mp joined).2.1
  · intro row
    constructor
    · intro offered
      obtain ⟨offer, listed, rfl⟩ := List.mem_map.mp offered
      obtain ⟨v, asked, joined⟩ := entry offer listed
      obtain ⟨present, own, between⟩ := (mem_by_intervals _ _ _ _).mp joined
      refine ⟨present, ?_⟩
      rw [Asks, own, (SortedMap.find_eq_some_iff request offer.key v).mpr asked]
      exact between
    · rintro ⟨present, interval, listed, between⟩
      cases found : request.find row.author with
      | none =>
        rw [found] at listed
        exact absurd listed List.not_mem_nil
      | some v =>
        rw [found] at listed
        have joined := (mem_by_intervals source.messages row.author v row).mpr
          ⟨present, rfl, interval, listed, between⟩
        rw [← under] at joined
        obtain ⟨offer, offered, same⟩ := List.mem_map.mp joined
        have asked := (SortedMap.find_eq_some_iff request row.author v).mp found
        exact List.mem_map.mpr ⟨offer,
          List.mem_flatMap.mpr ⟨_, List.mem_map_of_mem asked, offered⟩, same⟩

/-- A table whose headers can be relied on as far as the guard accepts them: names
are free of NUL bytes, lamports start at zero, and a row id is left. -/
structure Plain (table : MessagesTable) : Prop where
  clean : ∀ row ∈ table.columns, (0 : Byte) ∉ row.author
  nonnegative : ∀ row ∈ table.columns, 0 ≤ row.lamport.toInt
  few : table.columns.length < 2 ^ 63

section Plain

variable {table : MessagesTable} (plain : Plain table) (author : Text)
include plain

theorem Plain.bounded (lamport : Int) (member : lamport ∈ lamportsOf table.columns author) :
    0 ≤ lamport ∧ lamport < 2 ^ 63 := by
  obtain ⟨row, present, _, rfl⟩ := (mem_lamports_of _ _ _).mp member
  exact ⟨plain.nonnegative row present, row.lamport.toInt_lt⟩

/-- The guard accepts the header of an author exactly when it has no lamport twice. -/
theorem Plain.accepted_iff :
    isMonotonicNonColliding (((tableHeaders table).find author).getD []) = true ↔
      (lamportsOf table.columns author).Nodup := by
  have few : (lamportsOf table.columns author).length < 2 ^ 63 := by
    rw [lamportsOf, List.length_map]
    exact (List.length_filter_le _ _).trans_lt plain.few
  exact header_accepted_iff (plain.bounded author) few (sole_of_clean plain.clean author)

/-- Then the header is exact. -/
theorem Plain.header_exact (distinct : (lamportsOf table.columns author).Nodup) :
    WellFormed (((tableHeaders table).find author).getD []) ∧
      covered (((tableHeaders table).find author).getD []) =
        {lamport : Nat | (lamport : Int) ∈ lamportsOf table.columns author} :=
  table_headers_exact table author author (sole_of_clean plain.clean author) distinct
    (plain.bounded author)

end Plain

/-- An author has a row's lamport stored exactly if a row of the same identity is. -/
theorem identity_stored_iff (table : MessagesTable) (row : MessageColumns)
    (nonnegative : 0 ≤ row.lamport.toInt) :
    ((row.lamport.toInt.toNat : Nat) : Int) ∈ lamportsOf table.columns row.author ↔
      row.identity ∈ table.columns.map MessageColumns.identity := by
  rw [Int.toNat_of_nonneg nonnegative, mem_lamports_of, List.mem_map]
  constructor
  · rintro ⟨other, found, own, same⟩
    exact ⟨other, found, Prod.ext own (Int64.toInt_inj.mp same)⟩
  · rintro ⟨other, found, same⟩
    have parts := Prod.mk.inj same
    exact ⟨other, found, parts.1, congrArg Int64.toInt parts.2⟩

/-- Well-formed intervals that cover signed cells only end within their range. -/
theorem storable_of_covered {intervals : List Interval} (formed : WellFormed intervals)
    (small : ∀ lamport ∈ covered intervals, lamport < 2 ^ 63) : Storable intervals := by
  intro interval member
  have nonempty := formed.len_pos interval member
  have last := small (interval.start.toNat + interval.len.toNat - 1)
    ⟨interval.span, List.mem_map_of_mem member, by simp only [Interval.span]; omega,
      by simp only [Interval.span]; omega⟩
  omega

/-- Intervals that end within the range of signed cells and are not empty ask for
the lamports that they cover. -/
theorem asks_iff_covered (request : Request) (row : MessageColumns)
    (nonnegative : 0 ≤ row.lamport.toInt)
    (formed : WellFormed ((request.find row.author).getD []))
    (storable : Storable ((request.find row.author).getD [])) :
    Asks request row ↔ row.lamport.toInt.toNat ∈ covered ((request.find row.author).getD []) := by
  have each : ∀ interval ∈ (request.find row.author).getD [],
      ((MessagesDao.bounds interval).1.toInt ≤ row.lamport.toInt ∧
        row.lamport.toInt ≤ (MessagesDao.bounds interval).2.toInt ↔
          Spans.Within interval.span row.lamport.toInt.toNat) := by
    intro interval listed
    rw [bounds_hold interval (formed.len_pos interval listed) (storable interval listed)]
    exact and_iff_right nonnegative
  constructor
  · rintro ⟨interval, listed, between⟩
    exact ⟨interval.span, List.mem_map_of_mem listed, (each interval listed).mp between⟩
  · rintro ⟨span, listed, within⟩
    obtain ⟨interval, member, rfl⟩ := List.mem_map.mp listed
    exact ⟨interval, member, (each interval member).mpr within⟩

/-- What makes a returned request reliable: the build checks the lists, or there is
nothing to find out. -/
def Trusted (source : MessagesTable) (puller : Replica) : Prop :=
  puller.ndebug = false ∨ source.Distinct ∧ puller.messages.Distinct

/-- A trusted request that was returned for the header of a table asks for the rows
whose identity is in the table and not at the puller. -/
theorem request_asks_iff {source : MessagesTable} {puller after : Replica}
    (reliable : puller.Reliable) (trusted : Trusted source puller) (sourcePlain : Plain source)
    (pullerPlain : Plain puller.messages) {request : Request}
    (returned : (getRequest (tableHeaders source)).run puller = .ok request after)
    (row : MessageColumns) (nonnegative : 0 ≤ row.lamport.toInt) :
    Asks request row ↔ row.identity ∈ source.columns.map MessageColumns.identity ∧
      row.identity ∉ puller.messages.columns.map MessageColumns.identity := by
  have listed := find_table_headers source row.author row.author
    (sole_of_clean sourcePlain.clean row.author)
  rcases get_request_cases reliable (tableHeaders source) with ⟨passes, ran⟩ | ⟨_, stopped⟩
  · have same : (tableHeaders source).mapValues (fun k v =>
        sweepAll v (((tableHeaders puller.messages).find k).getD [])) = request := by
      rw [ran] at returned
      injection returned
    have asked : request.find row.author = ((tableHeaders source).find row.author).map fun v =>
        sweepAll v (((tableHeaders puller.messages).find row.author).getD []) := by
      rw [← same, SortedMap.find_map_values]
    by_cases silent : lamportsOf source.columns row.author = []
    · -- The header does not list the author, so the request does not either.
      rw [if_pos silent] at listed
      rw [Asks, asked, listed, ← identity_stored_iff source row nonnegative, silent]
      simp
    · rw [if_neg silent] at listed
      have accepted := passes _ ((SortedMap.find_eq_some_iff _ _ _).mp listed)
      have distinct : (lamportsOf source.columns row.author).Nodup ∧
          (lamportsOf puller.messages.columns row.author).Nodup := by
        rcases trusted with checks | ⟨sourceDistinct, pullerDistinct⟩
        · rw [Passes, checks, Bool.false_or, Bool.and_eq_true] at accepted
          exact ⟨(sourcePlain.accepted_iff row.author).mp (listed ▸ accepted.1),
            (pullerPlain.accepted_iff row.author).mp accepted.2⟩
        · exact ⟨lamports_nodup _ sourceDistinct _, lamports_nodup _ pullerDistinct _⟩
      obtain ⟨formed, sourceCovered⟩ := sourcePlain.header_exact row.author distinct.1
      obtain ⟨pullerFormed, pullerCovered⟩ := pullerPlain.header_exact row.author distinct.2
      obtain ⟨sweptFormed, difference, _⟩ := sweep_all_exact _ _ formed pullerFormed
      have intervals : (request.find row.author).getD [] =
          sweepAll (((tableHeaders source).find row.author).getD [])
            (((tableHeaders puller.messages).find row.author).getD []) := by
        rw [asked, listed]
        rfl
      rw [← intervals] at sweptFormed difference
      have storable : Storable ((request.find row.author).getD []) := by
        refine storable_of_covered sweptFormed fun lamport within => ?_
        rw [difference, sourceCovered] at within
        exact Int.ofNat_lt.mp (sourcePlain.bounded row.author _ within.1).2
      rw [asks_iff_covered request row nonnegative sweptFormed storable, difference, sourceCovered,
        pullerCovered, ← identity_stored_iff source row nonnegative,
        ← identity_stored_iff puller.messages row nonnegative]
      exact Iff.rfl
  · rw [stopped] at returned
    cases returned

end Log

end Replikon
