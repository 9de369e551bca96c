import Replikon.Refinement.Requests

/-!
# One complete pull

Between two tables whose rows are told apart by author and lamport, a pull hands
out exactly the rows of the source that the puller lacks, and the puller stores
those of them that verify. The headers, the interval sweep and the interval join
are used here only through their exactness.
-/

namespace Replikon

open Foundation

/-- What identifies a message. -/
def MessageColumns.identity (row : MessageColumns) : Text × Int64 := (row.author, row.lamport)

/-- No two rows have the same author and lamport. -/
def MessagesTable.Distinct (table : MessagesTable) : Prop :=
  (table.columns.map MessageColumns.identity).Nodup

/-- What identifies a row is found among the rows of its author. -/
theorem identity_of_author (rows : List MessageColumns) (row : MessageColumns) :
    row.identity ∈ rows.map MessageColumns.identity ↔
      row.identity ∈ (rows.filter fun other => other.author = row.author).map
        MessageColumns.identity := by
  constructor
  · intro held
    obtain ⟨other, member, same⟩ := List.mem_map.mp held
    have own : other.author = row.author := congrArg Prod.fst same
    exact same ▸ List.mem_map_of_mem (List.mem_filter.mpr ⟨member, by simpa using own⟩)
  · intro held
    obtain ⟨other, member, same⟩ := List.mem_map.mp held
    exact same ▸ List.mem_map_of_mem (List.mem_filter.mp member).1

/-- The lamports of one author are distinct. -/
theorem lamports_nodup (rows : List MessageColumns)
    (distinct : (rows.map MessageColumns.identity).Nodup) (author : Text) :
    (MessagesTable.lamportsOf rows author).Nodup := by
  have apart : rows.Pairwise (fun left right => left.identity ≠ right.identity) :=
    List.pairwise_map.mp distinct
  rw [MessagesTable.lamportsOf, List.Nodup, List.pairwise_map]
  refine List.Pairwise.imp_of_mem ?_ (apart.sublist List.filter_sublist)
  intro left right leftMember rightMember different same
  have leftAuthor : left.author = author := by simpa using (List.mem_filter.mp leftMember).2
  have rightAuthor : right.author = author := by simpa using (List.mem_filter.mp rightMember).2
  exact different (Prod.ext (leftAuthor.trans rightAuthor.symm) (Int64.toInt_inj.mp same))

/-- Rows are told apart when those of each author are. -/
theorem distinct_of_authors (rows : List MessageColumns)
    (each : ∀ author, ((rows.filter fun row => row.author = author).map
      MessageColumns.identity).Nodup) : (rows.map MessageColumns.identity).Nodup := by
  induction rows with
  | nil => exact List.nodup_nil
  | cons row rest inductionHypothesis =>
    have own := each row.author
    rw [List.filter_cons_of_pos (by simp), List.map_cons, List.nodup_cons] at own
    rw [List.map_cons, List.nodup_cons]
    constructor
    · intro again
      obtain ⟨other, member, same⟩ := List.mem_map.mp again
      have author : other.author = row.author := congrArg Prod.fst same
      exact own.1 (same ▸ List.mem_map_of_mem (List.mem_filter.mpr ⟨member, by simp [author]⟩))
    · apply inductionHypothesis
      intro author
      refine (each author).sublist (List.Sublist.map _ ?_)
      exact (List.sublist_cons_self row rest).filter _

namespace Log

variable {Signature : Type} (sodium : Sodium Signature)

/-- A table whose rows can be told apart, sorted and read back: author and
lamport identify a row, lamports are not negative, texts are free of NUL bytes
and signatures have a reading. -/
structure Sound (table : MessagesTable) : Prop where
  distinct : table.Distinct
  nonnegative : ∀ row ∈ table.columns, 0 ≤ row.lamport.toInt
  clean : ∀ row ∈ table.columns, (0 : Byte) ∉ row.author ∧ (0 : Byte) ∉ row.body
  readable : Readable sodium table

/-- The rows of an author that the first table has and the second lacks. -/
def lacking (source puller : MessagesTable) (author : Text) : List MessageColumns :=
  source.columns.filter fun row =>
    row.author = author ∧ row.identity ∉ puller.columns.map MessageColumns.identity

/-- Whether a row is lacking is decided among the rows of its author. -/
theorem lacking_of_author (source puller : MessagesTable) (author : Text) :
    lacking source puller author =
      (source.columns.filter fun row => row.author = author).filter fun row =>
        row.identity ∉ (puller.columns.filter fun other => other.author = author).map
          MessageColumns.identity := by
  rw [lacking, List.filter_filter]
  apply List.filter_congr
  intro row _
  by_cases own : row.author = author
  · have held := identity_of_author puller.columns row
    rw [own] at held
    simp [own, held]
  · simp [own]

/-- The rows that an update offers under a key. -/
def rowsUnder (update : Update Signature) (key : Text) : List MessageColumns :=
  (offersUnder key ((update.find key).getD [])).map (Offer.row sodium)

/-- The update offers under each author exactly the rows the puller lacks, in the
order of the join. -/
def Supplies (update : Update Signature) (source puller : MessagesTable) : Prop :=
  ∀ author, (rowsUnder sodium update author).Perm (lacking source puller author)

variable {sodium}

/-- Every author's rows are filed under the author itself. -/
theorem Sound.sole {table : MessagesTable} (sound : Sound sodium table) (author : Text) :
    Sole table author author :=
  sole_of_clean (fun row member => (sound.clean row member).1) author

/-- The header of a sound table is exact. -/
theorem Sound.headers {table : MessagesTable} (sound : Sound sodium table) (author : Text) :
    WellFormed (((tableHeaders table).find author).getD []) ∧
      covered (((tableHeaders table).find author).getD []) =
        {lamport : Nat | (lamport : Int) ∈ MessagesTable.lamportsOf table.columns author} := by
  refine table_headers_exact table author author (sound.sole author)
    (lamports_nodup _ sound.distinct author) ?_
  intro lamport member
  obtain ⟨row, present, _, rfl⟩ := (mem_lamports_of _ _ _).mp member
  exact ⟨sound.nonnegative row present, row.lamport.toInt_lt⟩

/-- A readable row without NUL bytes is handed out and stored again unchanged. -/
theorem hand_out_row (row : MessageColumns)
    (clean : (0 : Byte) ∉ row.author ∧ (0 : Byte) ∉ row.body)
    (readable : (sodium.ofBytes row.signature).isSome) (key : Text) :
    ∃ handed, handOut sodium (MessagesDao.fromRow row) = some handed ∧
      Offer.row sodium ⟨key, handed.1, handed.2⟩ = row := by
  obtain ⟨signature, read⟩ := Option.isSome_iff_exists.mp readable
  refine ⟨(signature, (MessagesDao.fromRow row).msg), ?_, ?_⟩
  · rw [handOut]
    change (sodium.ofBytes row.signature).map _ = _
    rw [read]
    rfl
  · have bytes := sodium.to_of_bytes _ _ read
    cases row
    simp only [Offer.row, MessagesDao.toColumns, MessagesDao.fromRow] at *
    simp [bytes, c_string_whole _ clean.1, c_string_whole _ clean.2]

/-- Handing rows out and reading them as rows again gives the same rows. -/
theorem hand_out_rows (rows : List MessageColumns)
    (clean : ∀ row ∈ rows, (0 : Byte) ∉ row.author ∧ (0 : Byte) ∉ row.body)
    (readable : ∀ row ∈ rows, (sodium.ofBytes row.signature).isSome) (key : Text) :
    (offersUnder key ((rows.map MessagesDao.fromRow).filterMap (handOut sodium))).map
      (Offer.row sodium) = rows := by
  induction rows with
  | nil => rfl
  | cons row rest inductionHypothesis =>
    obtain ⟨handed, given, same⟩ := hand_out_row row (clean row List.mem_cons_self)
      (readable row List.mem_cons_self) key
    have later := inductionHypothesis
      (fun other member => clean other (List.mem_cons_of_mem _ member))
      (fun other member => readable other (List.mem_cons_of_mem _ member))
    rw [List.map_cons, List.filterMap_cons, given]
    change Offer.row sodium _ :: _ = _
    rw [same]
    exact congrArg (row :: ·) later

/-- For the difference of two headers the query delivers the rows that are lacking. -/
theorem by_intervals_lacking {source puller : MessagesTable} (sourceSound : Sound sodium source)
    (pullerSound : Sound sodium puller) (author : Text) :
    (source.byIntervals (some author)
        ((sweepAll (((tableHeaders source).find author).getD [])
          (((tableHeaders puller).find author).getD [])).map MessagesDao.bounds)).Perm
      (lacking source puller author) := by
  obtain ⟨sourceFormed, sourceCovered⟩ := sourceSound.headers author
  obtain ⟨pullerFormed, pullerCovered⟩ := pullerSound.headers author
  obtain ⟨formed, difference, _⟩ := sweep_all_exact _ _ sourceFormed pullerFormed
  have storable : Storable (sweepAll (((tableHeaders source).find author).getD [])
      (((tableHeaders puller).find author).getD [])) := by
    intro interval member
    have nonempty := formed.len_pos interval member
    have lastCovered : interval.start.toNat + interval.len.toNat - 1 ∈ covered
        (sweepAll (((tableHeaders source).find author).getD [])
          (((tableHeaders puller).find author).getD [])) := by
      refine ⟨interval.span, List.mem_map_of_mem member, ?_, ?_⟩
      · simp only [Interval.span]
        omega
      · simp only [Interval.span]
        omega
    rw [difference, sourceCovered] at lastCovered
    obtain ⟨row, _, _, last⟩ := (mem_lamports_of _ _ _).mp lastCovered.1
    have bound := row.lamport.toInt_lt
    omega
  have rows := by_intervals_exact source author _ formed storable
    (fun row => decide (row.identity ∉ puller.columns.map MessageColumns.identity)) ?_
  · simpa only [lacking, decide_eq_true_eq] using rows
  · intro row member own
    have nonnegative := sourceSound.nonnegative row member
    have present : row.lamport.toInt.toNat ∈
        covered (((tableHeaders source).find author).getD []) := by
      rw [sourceCovered]
      exact (mem_lamports_of _ _ _).mpr ⟨row, member, own, by omega⟩
    have stored : row.lamport.toInt.toNat ∈
        covered (((tableHeaders puller).find author).getD []) ↔
          row.identity ∈ puller.columns.map MessageColumns.identity := by
      rw [pullerCovered]
      change ((row.lamport.toInt.toNat : Nat) : Int) ∈
        MessagesTable.lamportsOf puller.columns author ↔ _
      rw [Int.toNat_of_nonneg nonnegative, mem_lamports_of, List.mem_map]
      constructor
      · rintro ⟨other, found, otherAuthor, same⟩
        exact ⟨other, found, Prod.ext (otherAuthor.trans own.symm) (Int64.toInt_inj.mp same)⟩
      · rintro ⟨other, found, same⟩
        have parts := Prod.mk.inj same
        exact ⟨other, found, parts.1.trans own, congrArg Int64.toInt parts.2⟩
    rw [decide_eq_true_eq, difference]
    constructor
    · intro lacks
      exact ⟨nonnegative, present, fun held => lacks (stored.mp held)⟩
    · rintro ⟨_, _, unheld⟩ held
      exact unheld (stored.mpr held)

/-- Every list of a sound table's header passes the guard. -/
theorem Sound.monotonic {table : MessagesTable} (sound : Sound sodium table)
    (entry : Text × List Interval) (member : entry ∈ (tableHeaders table).entries) :
    isMonotonicNonColliding entry.2 = true := by
  have found := (SortedMap.find_eq_some_iff _ entry.1 entry.2).mpr member
  have formed := (sound.headers entry.1).1
  rw [found] at formed
  exact formed.monotonic

variable (sodium)

/-- A pull between sound tables completes. Its update supplies what the puller
lacks, the puller stores what verifies, and the source's messages stay. -/
theorem pull_run {source puller : Replica} (sourceReliable : source.Reliable)
    (pullerReliable : puller.Reliable) (sourceSound : Sound sodium source.messages)
    (pullerSound : Sound sodium puller.messages) :
    ∃ pulled searched, pull sodium source puller = .ok pulled ∧
      pulled.source = { source with searchIntervals := searched } ∧
      pulled.puller = puller.store (acceptedRows sodium puller pulled.update) ∧
      Supplies sodium pulled.update source.messages puller.messages := by
  let remote := tableHeaders source.messages
  let request : Request := remote.mapValues fun k v =>
    sweepAll v (((tableHeaders puller.messages).find k).getD [])
  have requested : (getRequest (tableHeaders source.messages)).run puller =
      .ok request puller := by
    refine get_request_run pullerReliable _ ?_
    intro entry member
    exact ⟨sourceSound.monotonic entry member, (pullerSound.headers entry.1).1.monotonic⟩
  obtain ⟨searched, updated⟩ := get_update_run sodium sourceReliable request
  let update : Update Signature := request.mapValues fun k v =>
    (selected source.messages k v).filterMap (handOut sodium)
  have handed : handOutAll sodium source.messages request.entries SortedMap.empty = some update := by
    rw [hand_out_all_readable _ sourceSound.readable, SortedMap.assign_all_entries]
  rw [handed] at updated
  simp only at updated
  let status : MergeStatus :=
    if reported (accepted sodium puller update).length puller.stack then .merged else .skipped
  refine ⟨⟨update, status, { source with searchIntervals := searched },
    puller.store (acceptedRows sodium puller update)⟩, searched, ?_, rfl, rfl, ?_⟩
  · rw [pull, get_header_run sourceReliable]
    simp only [requested, updated, merge_run pullerReliable update]
    rfl
  · intro author
    have delivered := by_intervals_lacking sourceSound pullerSound author
    cases found : remote.find author with
    | some v =>
      have entry : (update.find author).getD [] =
          (selected source.messages author
            (sweepAll v (((tableHeaders puller.messages).find author).getD []))).filterMap
              (handOut sodium) := by
        simp [update, request, SortedMap.find_map_values, found]
      rw [found, Option.getD_some] at delivered
      rw [rowsUnder, entry, selected, hand_out_rows]
      · exact delivered
      · intro row member
        exact sourceSound.clean row ((mem_by_intervals _ _ _ _).mp member).1
      · intro row member
        exact sourceSound.readable row ((mem_by_intervals _ _ _ _).mp member).1
    | none =>
      have unasked : rowsUnder sodium update author = [] := by
        simp [rowsUnder, offersUnder, update, request, SortedMap.find_map_values, found]
      have complete : lacking source.messages puller.messages author = [] := by
        rw [lacking, List.filter_eq_nil_iff]
        intro row member wanted
        have own : row.author = author := by
          simp only [decide_eq_true_eq] at wanted
          exact wanted.1
        have stored : row.lamport.toInt.toNat ∈
            covered (((tableHeaders source.messages).find author).getD []) := by
          rw [(sourceSound.headers author).2]
          have nonnegative := sourceSound.nonnegative row member
          exact (mem_lamports_of _ _ _).mpr ⟨row, member, own, by omega⟩
        rw [found, Option.getD_none, covered_nil] at stored
        exact stored
      rw [unasked, complete]

section Supplied

variable {sodium} {update : Update Signature} {source puller : MessagesTable}
  (supplies : Supplies sodium update source puller)
include supplies

/-- The rows of an entry carry the author they are filed under. -/
theorem Supplies.owned (entry : Text × List (Signature × ChatMessage))
    (member : entry ∈ update.entries) (row : MessageColumns)
    (offered : row ∈ (offersUnder entry.1 entry.2).map (Offer.row sodium)) :
    row ∈ lacking source puller entry.1 ∧ row.author = entry.1 := by
  have found := (SortedMap.find_eq_some_iff update entry.1 entry.2).mpr member
  have listed : row ∈ lacking source puller entry.1 := by
    rw [← (supplies entry.1).mem_iff, rowsUnder, found]
    exact offered
  have own := (List.mem_filter.mp listed).2
  simp only [decide_eq_true_eq] at own
  exact ⟨listed, own.1⟩

/-- The rows offered for one author are those under its key. -/
theorem Supplies.of_author (author : Text) :
    ((offers update).map (Offer.row sodium)).filter (fun row => row.author = author) =
      rowsUnder sodium update author := by
  rw [offers, List.map_flatMap, rowsUnder]
  have filtered := SortedMap.filter_flat_map update
    (fun key messages => (offersUnder key messages).map (Offer.row sodium)) MessageColumns.author
    (fun entry member row offered => (supplies.owned entry member row offered).2) author
  rw [filtered]
  cases update.find author <;> rfl

/-- Every offered row is one of the source that the puller lacks. -/
theorem Supplies.lacked (row : MessageColumns)
    (offered : row ∈ (offers update).map (Offer.row sodium)) :
    row ∈ source.columns ∧ row.identity ∉ puller.columns.map MessageColumns.identity := by
  have listed : row ∈ lacking source puller row.author := by
    rw [← (supplies row.author).mem_iff, ← supplies.of_author row.author]
    exact List.mem_filter.mpr ⟨offered, by simp⟩
  obtain ⟨present, wanted⟩ := List.mem_filter.mp listed
  simp only [decide_eq_true_eq] at wanted
  exact ⟨present, wanted.2⟩

/-- Storing some of the offered rows keeps rows apart. -/
theorem Supplies.store_distinct (sourceDistinct : source.Distinct) (pullerDistinct : puller.Distinct)
    (rows : List MessageColumns) (part : rows.Sublist ((offers update).map (Offer.row sodium))) :
    ((puller.columns ++ rows).map MessageColumns.identity).Nodup := by
  have offered : (((offers update).map (Offer.row sodium)).map MessageColumns.identity).Nodup := by
    apply distinct_of_authors
    intro author
    rw [supplies.of_author, ((supplies author).map _).nodup_iff]
    exact sourceDistinct.sublist (List.filter_sublist.map _)
  rw [List.map_append, List.nodup_append]
  refine ⟨pullerDistinct, offered.sublist (part.map _), ?_⟩
  rintro identity held other added rfl
  obtain ⟨row, member, rfl⟩ := List.mem_map.mp added
  exact (supplies.lacked row (part.subset member)).2 held

end Supplied

/-- The accepted rows are some of the offered ones. -/
theorem accepted_rows_sublist (replica : Replica) (update : Update Signature) :
    (acceptedRows sodium replica update).Sublist ((offers update).map (Offer.row sodium)) :=
  List.filter_sublist.map _

/-- A complete pull is exact and complete. The update holds under each author
the rows of the source that the puller lacks, each once and unchanged; the puller
then has its old rows and those of the update that verify; the source keeps its
table. -/
theorem complete_pull_exact (source puller : Replica) (sourceReliable : source.Reliable)
    (pullerReliable : puller.Reliable) (sourceSound : Sound sodium source.messages)
    (pullerSound : Sound sodium puller.messages)
    (agree : ∀ row ∈ source.messages.columns, ∀ other ∈ puller.messages.columns,
      row.identity = other.identity → row = other) :
    ∃ pulled, pull sodium source puller = .ok pulled ∧
      (∀ author, (rowsUnder sodium pulled.update author).Perm
        (source.messages.columns.filter fun row =>
          row.author = author ∧ row ∉ puller.messages.columns)) ∧
      pulled.puller.messages.columns =
        puller.messages.columns ++ acceptedRows sodium puller pulled.update ∧
      pulled.puller.messages.Distinct ∧
      pulled.source.messages = source.messages := by
  obtain ⟨pulled, searched, completes, sourceAfter, pullerAfter, supplies⟩ :=
    pull_run sodium sourceReliable pullerReliable sourceSound pullerSound
  have columns : pulled.puller.messages.columns =
      puller.messages.columns ++ acceptedRows sodium puller pulled.update := by
    rw [pullerAfter, Replica.store_columns]
  refine ⟨pulled, completes, ?_, columns, ?_, ?_⟩
  · intro author
    refine (supplies author).trans (List.Perm.of_eq ?_)
    apply List.filter_congr
    intro row member
    have same : row.identity ∈ puller.messages.columns.map MessageColumns.identity ↔
        row ∈ puller.messages.columns := by
      constructor
      · intro held
        obtain ⟨other, found, identity⟩ := List.mem_map.mp held
        rw [agree row member other found identity.symm]
        exact found
      · intro held
        exact List.mem_map_of_mem held
    simp only [same]
  · rw [MessagesTable.Distinct, columns]
    exact supplies.store_distinct sourceSound.distinct pullerSound.distinct _
      (accepted_rows_sublist sodium puller pulled.update)
  · rw [sourceAfter]

/-- The row of the first message of author `a`. -/
def sampleRow : MessageColumns := MessagesDao.toColumns ⟨sampleMessage, sampleSignature⟩

/-- The replica of author `a` after its first message. -/
def sampleSource : Replica :=
  (Replica.fresh false (ascii "a") (Sodium.transparent.publicKey (sampleKey 1)) (sampleKey 1)
    []).store [sampleRow]

/-- The row of a message signed with a sample key. -/
def signedRow (key : Byte) (message : ChatMessage) : MessageColumns :=
  MessagesDao.toColumns
    ⟨message, Sodium.transparent.signDetached (Serde.chatMessage message) (sampleKey key)⟩

/-- That replica with messages of two authors, all with gaps and none in order. -/
def scatteredSource : Replica :=
  sampleSource.store [signedRow 3 ⟨ascii "c", 4, 1, ascii "four"⟩,
    signedRow 1 ⟨ascii "a", 6, 7, ascii "six"⟩, signedRow 3 ⟨ascii "c", 2, 9, ascii "two"⟩,
    signedRow 1 ⟨ascii "a", 3, 9, ascii "three"⟩, signedRow 1 ⟨ascii "a", 4, 2, ascii "four"⟩]

theorem scattered_source_sound : Sound Sodium.transparent scatteredSource.messages := by
  refine ⟨?_, ?_, ?_, ?_⟩
  · unfold MessagesTable.Distinct
    decide
  · decide
  · decide
  · unfold Readable
    decide

/-- A replica with a message of its own and the first message of `a`. It knows
the key of `a` and not that of `c`. -/
def partialPuller : Replica :=
  sampleReplica.store [signedRow 2 ⟨ascii "b", 1, 3, ascii "mine"⟩, sampleRow]

theorem complete_pull_exact_sample :
    ∃ pulled, pull Sodium.transparent scatteredSource partialPuller = .ok pulled ∧
      (∀ author, (rowsUnder Sodium.transparent pulled.update author).Perm
        (scatteredSource.messages.columns.filter fun row =>
          row.author = author ∧ row ∉ partialPuller.messages.columns)) ∧
      pulled.puller.messages.columns =
        partialPuller.messages.columns ++
          acceptedRows Sodium.transparent partialPuller pulled.update ∧
      pulled.puller.messages.Distinct ∧
      pulled.source.messages = scatteredSource.messages := by
  refine complete_pull_exact Sodium.transparent scatteredSource partialPuller rfl rfl
    scattered_source_sound ⟨?_, ?_, ?_, ?_⟩ ?_
  · unfold MessagesTable.Distinct
    decide
  · decide
  · decide
  · unfold Readable
    decide
  · decide

end Log

end Replikon
