import Replikon.Model.Application
import Replikon.Network.FaultyAdditions

/-!
# `main` run again and again

Each run of `main` opens the same database under new keys, adds three messages and
prints the log. A run may be killed anywhere, in the constructor as well. The log
stays what it should be: numbered from one without a gap, with the messages of each
run from its first one on, as far as the run came; and the next run that is not
disturbed prints all of it.
-/

namespace Replikon

open Foundation

namespace Log

variable {Signature : Type} {sodium : Sodium Signature}

/-- For the header of a sound table the query delivers all rows. -/
theorem by_intervals_all {table : MessagesTable} (sound : Sound sodium table) (author : Text) :
    (table.byIntervals (some author)
        ((((tableHeaders table).find author).getD []).map MessagesDao.bounds)).Perm
      (table.columns.filter fun row => row.author = author) := by
  obtain ⟨formed, covers⟩ := sound.headers author
  have inside : ∀ lamport : Nat,
      lamport ∈ covered (((tableHeaders table).find author).getD []) ↔
        (lamport : Int) ∈ MessagesTable.lamportsOf table.columns author := by
    intro lamport
    rw [covers]
    rfl
  have storable : Storable (((tableHeaders table).find author).getD []) := by
    intro interval member
    have nonempty := formed.len_pos interval member
    have last : interval.start.toNat + interval.len.toNat - 1 ∈
        covered (((tableHeaders table).find author).getD []) := by
      refine ⟨interval.span, List.mem_map_of_mem member, ?_, ?_⟩
      · simp only [Interval.span]
        omega
      · simp only [Interval.span]
        omega
    obtain ⟨row, _, _, same⟩ := (mem_lamports_of _ _ _).mp ((inside _).mp last)
    have bound := row.lamport.toInt_lt
    omega
  have rows := by_intervals_exact table author _ formed storable (fun _ => true) ?_
  · simpa only [and_true] using rows
  · intro row member own
    have nonnegative := sound.nonnegative row member
    refine ⟨fun _ => ⟨nonnegative, (inside _).mpr ?_⟩, fun _ => rfl⟩
    exact (mem_lamports_of _ _ _).mpr ⟨row, member, own, by omega⟩

/-- If the header is one interval and the rows stand in the order of the index, they
are selected in that order. -/
theorem selected_in_order {table : MessagesTable} (sound : Sound sodium table) (author : Text)
    (interval : Interval) (header : (tableHeaders table).find author = some [interval])
    (ordered : (table.columns.filter fun row => row.author = author).Pairwise
      fun left right => left.indexKey ≤ right.indexKey) :
    selected table author [interval] =
      (table.columns.filter fun row => row.author = author).map MessagesDao.fromRow := by
  have index : table.indexed (some author) =
      table.columns.filter fun row => row.author = author := by
    have own : (table.columns.filter fun row => some row.author = some author) =
        table.columns.filter fun row => row.author = author := by
      simp only [Option.some.injEq]
    rw [MessagesTable.indexed, own]
    exact ordered.insertionSort_eq
  have delivered : table.byIntervals (some author) ([interval].map MessagesDao.bounds) =
      (table.indexed (some author)).filter (MessagesTable.holds (MessagesDao.bounds interval)) :=
    List.flatMap_singleton _ _
  have all := (by_intervals_all sound author).length_eq
  rw [header, Option.getD_some, delivered, index] at all
  rw [selected, delivered, index, List.filter_sublist.eq_of_length all]

end Log

namespace Application

open MessagesTable

variable {Signature : Type} (sodium : Sodium Signature)

/-- The table is the log of these bodies: a row for each of them in order, by one
author at time 1, numbered from one, with a signature that can be read. -/
structure Kept (author : Author) (table : MessagesTable) (bodies : List Text) : Prop where
  authors : ∀ row ∈ table.columns, row.author = author
  times : ∀ row ∈ table.columns, row.originTs = 1
  lamports : table.columns.map (·.lamport.toInt) = (List.range' 1 bodies.length).map Int.ofNat
  texts : table.columns.map (·.body) = bodies
  readable : Log.Readable sodium table
  clean : ∀ body ∈ bodies, (0 : Byte) ∉ body

/-- Readable rows without NUL bytes are handed out with their bodies. -/
theorem handed_bodies (rows : List MessageColumns)
    (readable : ∀ row ∈ rows, (sodium.ofBytes row.signature).isSome)
    (clean : ∀ row ∈ rows, (0 : Byte) ∉ row.body) :
    ((rows.map MessagesDao.fromRow).filterMap (Log.handOut sodium)).map (·.2.body) =
      rows.map (·.body) := by
  induction rows with
  | nil => rfl
  | cons row rest inductionHypothesis =>
    obtain ⟨signature, read⟩ := Option.isSome_iff_exists.mp (readable row List.mem_cons_self)
    have handed : Log.handOut sodium (MessagesDao.fromRow row) =
        some (signature, (MessagesDao.fromRow row).msg) := by
      change (sodium.ofBytes row.signature).map _ = _
      rw [read]
      rfl
    have whole : (MessagesDao.fromRow row).msg.body = row.body :=
      c_string_whole _ (clean row List.mem_cons_self)
    rw [List.map_cons, List.filterMap_cons, handed, List.map_cons, List.map_cons, whole,
      inductionHypothesis (fun other member => readable other (List.mem_cons_of_mem _ member))
        fun other member => clean other (List.mem_cons_of_mem _ member)]

section Keeping

variable {sodium} {author : Author} {table : MessagesTable} {bodies : List Text}
  (kept : Kept sodium author table bodies)
include kept

theorem Kept.filter : table.columns.filter (fun row => row.author = author) = table.columns :=
  List.filter_eq_self.mpr fun row member => decide_eq_true (kept.authors row member)

/-- The numbers of the author are all numbers of the table. -/
theorem Kept.numbered :
    lamportsOf table.columns author = (List.range' 1 bodies.length).map Int.ofNat := by
  rw [lamportsOf, kept.filter]
  exact kept.lamports

/-- Such a table is sound. -/
theorem Kept.sound (named : (0 : Byte) ∉ author) : Log.Sound sodium table := by
  have numbers : (table.columns.map (·.lamport.toInt)).Nodup := by
    rw [kept.lamports]
    exact List.Nodup.map Int.ofNat_injective List.nodup_range'
  refine ⟨?_, ?_, ?_, kept.readable⟩
  · have same : table.columns.map (·.lamport.toInt) =
        (table.columns.map MessageColumns.identity).map (·.2.toInt) := by
      rw [List.map_map]
      rfl
    rw [same] at numbers
    exact numbers.of_map _
  · intro row member
    have listed : row.lamport.toInt ∈ table.columns.map (·.lamport.toInt) :=
      List.mem_map_of_mem member
    rw [kept.lamports] at listed
    obtain ⟨number, _, equal⟩ := List.mem_map.mp listed
    rw [← equal]
    exact Int.natCast_nonneg number
  · intro row member
    refine ⟨kept.authors row member ▸ named, kept.clean row.body ?_⟩
    have listed : row.body ∈ table.columns.map (·.body) := List.mem_map_of_mem member
    rwa [kept.texts] at listed

/-- A message that is added continues the log. -/
theorem Kept.add {replica : Replica} (same : replica.messages = table)
    (few : bodies.length + 1 < 2 ^ 63) (lamport : UInt64) (body : Text)
    (clean : (0 : Byte) ∉ body) :
    Kept sodium author
      (replica.holding [Log.addedRow sodium replica author
        ⟨author, lamport, 1, body⟩]).messages (bodies ++ [body]) := by
  have numbered : lamportsOf replica.messages.columns author =
      (List.range' 1 bodies.length).map Int.ofNat := by
    rw [same]
    exact kept.numbered
  have assigned := Network.assigned_lamport_consecutive replica author bodies.length few numbered
  have number := Log.small_lamport (bodies.length + 1) few
  have columns : (replica.holding [Log.addedRow sodium replica author
      ⟨author, lamport, 1, body⟩]).messages.columns =
        table.columns ++ [Log.addedRow sodium replica author ⟨author, lamport, 1, body⟩] := by
    rw [← same]
    exact MessagesTable.insert_all_columns _ _
  refine ⟨?_, ?_, ?_, ?_, ?_, ?_⟩
  · intro row member
    rw [columns] at member
    rcases List.mem_append.mp member with old | new
    · exact kept.authors row old
    · rw [List.mem_singleton.mp new]
      rfl
  · intro row member
    rw [columns] at member
    rcases List.mem_append.mp member with old | new
    · exact kept.times row old
    · rw [List.mem_singleton.mp new]
      rfl
  · rw [columns, List.map_append, kept.lamports, List.length_append, List.length_singleton,
      List.range'_1_concat, List.map_append, Nat.add_comm 1 bodies.length]
    congr 1
    exact congrArg (fun lamport => [lamport]) ((congrArg (·.toInt64.toInt) assigned).trans number)
  · rw [columns, List.map_append, kept.texts]
    rfl
  · intro row member
    rw [columns] at member
    rcases List.mem_append.mp member with old | new
    · exact kept.readable row old
    · rw [List.mem_singleton.mp new]
      exact Option.isSome_iff_exists.mpr ⟨_, sodium.of_to_bytes _⟩
  · intro other member
    rcases List.mem_append.mp member with old | new
    · exact kept.clean other old
    · exact List.mem_singleton.mp new ▸ clean

/-- Its rows stand in the order of the index: times are equal and lamports ascend. -/
theorem Kept.ordered :
    table.columns.Pairwise fun left right => left.indexKey ≤ right.indexKey := by
  have ascending : (table.columns.map (·.lamport.toInt)).Pairwise (· < ·) := by
    rw [kept.lamports]
    have numbers : (List.range' 1 bodies.length).Pairwise (· < ·) := List.pairwise_lt_range'
    exact List.pairwise_map.mpr (numbers.imp Int.ofNat_lt.mpr)
  refine (List.pairwise_map.mp ascending).imp_of_mem ?_
  intro left right leftMember rightMember before
  have together : left.originTs.toInt = right.originTs.toInt := by
    rw [kept.times left leftMember, kept.times right rightMember]
  exact Prod.Lex.toLex_le_toLex.mpr
    (.inr ⟨together, Prod.Lex.toLex_le_toLex.mpr (.inl before)⟩)

/-- Its header is one interval of the author. -/
theorem Kept.headers (named : (0 : Byte) ∉ author) (few : bodies.length < 2 ^ 63)
    (nonempty : bodies ≠ []) :
    tableHeaders table =
      SortedMap.empty.insert author [⟨1, UInt64.ofNat bodies.length⟩] := by
  have sound := kept.sound named
  apply SortedMap.ext_find
  intro query
  rw [SortedMap.find_insert, SortedMap.find_empty]
  have sole := sound.sole query
  by_cases own : query = author
  · subst own
    rw [if_pos rfl]
    rw [find_consecutive_header table query query sole bodies.length few
      (List.Perm.of_eq kept.numbered), if_neg (by simpa using nonempty)]
  · rw [if_neg own]
    have none : lamportsOf table.columns query = (List.range' 1 0).map Int.ofNat := by
      rw [lamportsOf, List.filter_eq_nil_iff.mpr]
      · rfl
      · intro row member same
        exact own ((of_decide_eq_true same).symm.trans (kept.authors row member))
    rw [find_consecutive_header table query query sole 0 (by decide) (List.Perm.of_eq none), if_pos rfl]

/-- All its messages are handed out for its header, in order. -/
theorem Kept.handed_out (named : (0 : Byte) ∉ author) (few : bodies.length < 2 ^ 63)
    (nonempty : bodies ≠ []) :
    ∃ messages, Log.handOutAll sodium table (tableHeaders table).entries SortedMap.empty =
        .some (SortedMap.empty.insert author messages) ∧
      messages.map (·.2.body) = bodies := by
  have header := kept.headers named few nonempty
  have found : (tableHeaders table).find author = .some [⟨1, UInt64.ofNat bodies.length⟩] := by
    rw [header, SortedMap.find_insert, if_pos rfl]
  have selection := Log.selected_in_order (kept.sound named) author _ found (by
    rw [kept.filter]
    exact kept.ordered)
  rw [kept.filter] at selection
  refine ⟨(table.columns.map MessagesDao.fromRow).filterMap (Log.handOut sodium), ?_, ?_⟩
  · rw [Log.hand_out_all_readable table kept.readable, header, ← selection]
    rfl
  · rw [handed_bodies sodium table.columns kept.readable ?_, kept.texts]
    intro row member
    refine kept.clean row.body ?_
    rw [← kept.texts]
    exact List.mem_map_of_mem member

end Keeping

/-- The bodies of messages to add. -/
def texts (messages : List Given) : List Text := messages.map (·.2.2)

/-- The log after the first of the messages were added. -/
def KeptSome (author : Author) (bodies : List Text) (messages : List Given)
    (table : MessagesTable) : Prop :=
  ∃ count, count ≤ messages.length ∧
    Kept sodium author table (bodies ++ texts (messages.take count))

section Adding

variable {sodium} {author : Author} {replica : Replica} {bodies : List Text}

/-- While no call fails, messages are added one after another until the process is
killed. -/
theorem add_each_disturbed (messages : List Given) (unfailing : replica.Unfailing)
    (kept : Kept sodium author replica.messages bodies)
    (clean : ∀ body ∈ texts messages, (0 : Byte) ∉ body)
    (timed : ∀ message ∈ messages, message.2.1 = 1)
    (few : bodies.length + messages.length < 2 ^ 63) :
    Guarantees (addEach sodium author messages) replica
      (fun _ after => after.Unfailing ∧ Kept sodium author after.messages (bodies ++ texts messages))
      (fun after => KeptSome sodium author bodies messages after.messages) := by
  induction messages generalizing replica bodies with
  | nil => exact guarantees_pure () ⟨unfailing, by simpa [texts] using kept⟩
  | cons message rest inductionHypothesis =>
    obtain ⟨lamport, originTs, body⟩ := message
    have time : originTs = 1 := timed _ List.mem_cons_self
    subst time
    rw [List.length_cons] at few
    have here : (0 : Byte) ∉ body := clean body List.mem_cons_self
    have next := kept.add rfl (by omega) lamport body here
    have stops : ∀ after, Spent replica after →
        KeptSome sodium author bodies ((lamport, 1, body) :: rest) after.messages := by
      intro after spent
      refine ⟨0, Nat.zero_le _, ?_⟩
      have same : after.messages = replica.messages := by
        rw [spent.same]
        rfl
      rw [same, List.take_zero, texts, List.map_nil, List.append_nil]
      exact kept
    have returns : ∀ (_ : Unit) after,
        (Spent (replica.holding (Log.storedRow sodium replica author
            ⟨author, lamport, 1, body⟩).toList) after ∧
          (replica.Unfailing → Log.storedRow sodium replica author ⟨author, lamport, 1, body⟩ =
            some (Log.addedRow sodium replica author ⟨author, lamport, 1, body⟩))) →
        Spent (replica.holding [Log.addedRow sodium replica author
          ⟨author, lamport, 1, body⟩]) after := by
      rintro _ after ⟨spent, whole⟩
      rwa [whole unfailing] at spent
    have first := (Log.add_new_message_spent sodium replica author ⟨author, lamport, 1, body⟩).mono
      returns fun after stopped => stops after stopped.1
    apply first.bind
    intro _ after spent
    have same : after.messages = (replica.holding [Log.addedRow sodium replica author
        ⟨author, lamport, 1, body⟩]).messages := by
      rw [spent.same]
      rfl
    rw [← same] at next
    have later := inductionHypothesis (spent.unfailing unfailing) next
      (fun other member => clean other (List.mem_cons_of_mem _ member))
      (fun other member => timed other (List.mem_cons_of_mem _ member))
      (by rw [List.length_append, List.length_singleton]; omega)
    refine later.mono (fun _ final reached => ⟨reached.1, ?_⟩) fun final => ?_
    · rw [texts, List.map_cons, List.append_cons]
      exact reached.2
    · rintro ⟨count, bound, held⟩
      refine ⟨count + 1, Nat.succ_le_succ bound, ?_⟩
      rw [List.take_succ_cons, texts, List.map_cons, List.append_cons]
      exact held

/-- On a database that does not fail, all of them are added. -/
theorem add_each_returns (messages : List Given) (reliable : replica.Reliable) :
    ∃ after, (addEach sodium author messages).run replica = .ok () after ∧ after.Reliable := by
  induction messages generalizing replica with
  | nil => exact ⟨replica, rfl, reliable⟩
  | cons message rest inductionHypothesis =>
    obtain ⟨lamport, originTs, body⟩ := message
    obtain ⟨after, ran, kept⟩ := inductionHypothesis (reliable.store
      [Log.addedRow sodium replica author ⟨author, lamport, originTs, body⟩])
    refine ⟨after, ?_, kept⟩
    rw [addEach, bind_ok _ (Log.add_new_message_run reliable _ _), ran]

end Adding

/-- What `main` prints of a log: one interval, and the messages. -/
def printed (bodies : List Text) : List Line :=
  .interval me 1 (UInt64.ofNat bodies.length).toInt64 :: bodies.map (.message me)

/-- The database that runs of `main` leave, one after another. -/
def rerun (database : Database) : List Process → Database
  | [] => database
  | process :: rest => rerun (main sodium database process).database rest

/-- The bodies that runs have added, given how far each of them came. -/
def addedBy (counts : List Nat) : List Text :=
  counts.flatMap fun count => texts (mainMessages.take count)

/-- How far a run comes: not at all, part of the way, or to its end if nothing
disturbs it. -/
def Came (process : Process) (count : Nat) : Prop :=
  count ≤ 3 ∧ (process.script = [] → count = 3)

/-- A run adds at most three bodies. -/
theorem added_by_length (counts : List Nat) : (addedBy counts).length ≤ 3 * counts.length := by
  induction counts with
  | nil => exact Nat.le_refl 0
  | cons count rest inductionHypothesis =>
    have first : (texts (mainMessages.take count)).length ≤ 3 := by
      rw [texts, List.length_map, List.length_take]
      exact Nat.min_le_right _ _
    rw [addedBy, List.flatMap_cons, List.length_append, List.length_cons]
    exact Nat.le_trans (Nat.add_le_add first inductionHypothesis) (by omega)

section Running

variable {sodium} {bodies : List Text}

/-- The messages of `main` are as they should be. -/
theorem main_texts_clean : ∀ body ∈ texts mainMessages, (0 : Byte) ∉ body := by decide

/-- All of them are given the time 1. -/
theorem main_messages_timed : ∀ message ∈ mainMessages, message.2.1 = 1 := by decide

/-- What `main` leaves of its instance when no call fails. -/
theorem use_instance_left (replica : Replica) (unfailing : replica.Unfailing)
    (kept : Kept sodium me replica.messages bodies) (few : bodies.length + 3 < 2 ^ 63) :
    ∃ count, count ≤ 3 ∧ (replica.Reliable → count = 3) ∧
      Kept sodium me (useInstance sodium replica).database.contents.1
        (bodies ++ texts (mainMessages.take count)) := by
  have adds := add_each_disturbed mainMessages unfailing kept main_texts_clean
    main_messages_timed few
  unfold Guarantees at adds
  cases added : (addEach sodium me mainMessages).run replica with
  | error reason after =>
    rw [added] at adds
    obtain ⟨count, bound, held⟩ := adds
    refine ⟨count, bound, ?_, ?_⟩
    · intro reliable
      obtain ⟨_, returned, _⟩ := @add_each_returns _ sodium me replica mainMessages reliable
      rw [added] at returned
      cases returned
    · simp only [useInstance, added]
      exact held
  | ok value after =>
    rw [added] at adds
    refine ⟨3, Nat.le_refl 3, fun _ => rfl, ?_⟩
    have headerReads : Keeps Reads Log.getHeader := keeps_reads Log.keeps_get_header
    have updateReads : ∀ request, Keeps Reads (Log.getUpdate sodium request) :=
      fun request => keeps_reads (Log.keeps_get_update sodium request)
    cases asked : Log.getHeader.run after with
    | error reason first =>
      have read := Reads.stopped headerReads asked
      simp only [useInstance, added, asked, Replica.database, Database.contents, Option.getD_some,
        read.messages]
      exact adds.2
    | ok headers first =>
      have read := Reads.returned headerReads asked
      cases answered : (Log.getUpdate sodium headers).run first with
      | error reason second =>
        have readUpdate := Reads.stopped (updateReads headers) answered
        simp only [useInstance, added, asked, answered, Replica.database, Database.contents,
          Option.getD_some, readUpdate.messages, read.messages]
        exact adds.2
      | ok msgs second =>
        have readUpdate := Reads.returned (updateReads headers) answered
        simp only [useInstance, added, asked, answered, Replica.database, Database.contents,
          Option.getD_some, readUpdate.messages, read.messages]
        exact adds.2

/-- A run of `main` in which no call fails adds the first of its messages, and all
of them if nothing disturbs it. -/
theorem main_left (database : Database) (process : Process)
    (unfailing : ∀ outcome ∈ process.script, outcome ≠ .fails)
    (kept : Kept sodium me database.contents.1 bodies) (few : bodies.length + 3 < 2 ^ 63) :
    ∃ count, count ≤ 3 ∧ (process.script = [] → count = 3) ∧
      Kept sodium me (main sodium database process).database.contents.1
        (bodies ++ texts (mainMessages.take count)) := by
  let self : SecurityUserInfo := ⟨me, sodium.publicKey process.privKey, some process.privKey, false⟩
  have calmly := Instance.construct_run self process.ndebug database
  cases opened : (Instance.construct self).run
      (Instance.opening process.ndebug database process.script) with
  | error reason after =>
    refine ⟨0, by omega, ?_, ?_⟩
    · intro undisturbed
      rw [undisturbed, calmly] at opened
      cases opened
    · have retained := Instance.keeps_construct self
        (Instance.opening process.ndebug database process.script)
      unfold Guarantees at retained
      rw [opened] at retained
      have same : (main sodium database process).database = after.database := by
        simp only [main, self, opened]
      rw [same, retained.contents, List.take_zero, texts, List.map_nil, List.append_nil]
      exact kept
  | ok privKey after =>
    obtain ⟨given, rest, later, stored⟩ := Instance.construct_disturbed self process.ndebug database
      process.script unfailing privKey after opened
    let replica : Replica := ⟨process.ndebug, me, sodium.publicKey process.privKey, privKey,
      database.contents.1, [], database.contents.2.1, database.contents.2.2, rest, process.stack⟩
    have found : Instance.ofOpening self privKey process.stack after = some replica := by
      rw [stored]
      rfl
    have used : main sodium database process = useInstance sodium replica := by
      simp only [main, self, opened, found]
    obtain ⟨count, bound, whole, left⟩ := use_instance_left replica later kept few
    rw [← used] at left
    refine ⟨count, bound, fun undisturbed => whole ?_, left⟩
    rw [undisturbed, calmly] at opened
    injection opened with _ state
    rw [stored] at state
    exact (congrArg Opening.script state).symm

/-- Undisturbed, `main` prints its log with the messages that it adds. -/
theorem use_instance_lines (replica : Replica) (reliable : replica.Reliable)
    (kept : Kept sodium me replica.messages bodies) (few : bodies.length + 3 < 2 ^ 63) :
    (useInstance sodium replica).lines = printed (bodies ++ texts mainMessages) := by
  have unfailing : replica.Unfailing := by
    rw [Replica.Unfailing, show replica.script = [] from reliable]
    exact fun _ member => absurd member List.not_mem_nil
  have adds := add_each_disturbed mainMessages unfailing kept main_texts_clean
    main_messages_timed few
  obtain ⟨after, added, afterReliable⟩ := @add_each_returns _ sodium me replica mainMessages reliable
  unfold Guarantees at adds
  rw [added] at adds
  obtain ⟨_, whole⟩ := adds
  have named : (0 : Byte) ∉ me := by decide
  have fits : (bodies ++ texts mainMessages).length < 2 ^ 63 := by
    rw [List.length_append]
    exact few
  have nonempty : bodies ++ texts mainMessages ≠ [] := List.append_ne_nil_of_right_ne_nil _ (by decide)
  have header := whole.headers named fits nonempty
  obtain ⟨messages, handed, same⟩ := whole.handed_out named fits nonempty
  obtain ⟨searched, answered⟩ := Log.get_update_run sodium afterReliable (tableHeaders after.messages)
  rw [handed] at answered
  have bodiesPrinted : messages.map (fun m => Line.message me (cString m.2.body)) =
      (bodies ++ texts mainMessages).map (.message me) := by
    rw [← same, List.map_map]
    apply List.map_congr_left
    intro m member
    have listed : m.2.body ∈ messages.map (·.2.body) := List.mem_map_of_mem member
    rw [same] at listed
    exact congrArg (Line.message me) (c_string_whole _ (whole.clean _ listed))
  have name : cString me = me := c_string_whole me named
  simp only [useInstance, added, Log.get_header_run afterReliable, answered, printed]
  rw [← bodiesPrinted, header]
  change ([Line.interval (cString me) _ _] ++ []) ++
    (messages.map (fun m => Line.message (cString me) (cString m.2.body)) ++ []) = _
  rw [name, List.append_nil, List.append_nil]
  rfl

/-- Runs in which no call fails continue the log one after another. -/
theorem rerun_kept (database : Database) (processes : List Process)
    (unfailing : ∀ process ∈ processes, ∀ outcome ∈ process.script, outcome ≠ .fails)
    (kept : Kept sodium me database.contents.1 bodies)
    (few : bodies.length + 3 * processes.length < 2 ^ 63) :
    ∃ counts, List.Forall₂ Came processes counts ∧
      Kept sodium me (rerun sodium database processes).contents.1 (bodies ++ addedBy counts) := by
  induction processes generalizing database bodies with
  | nil =>
    refine ⟨[], .nil, ?_⟩
    rw [addedBy, List.flatMap_nil, List.append_nil]
    exact kept
  | cons process rest inductionHypothesis =>
    rw [List.length_cons] at few
    obtain ⟨count, bound, whole, left⟩ := main_left database process
      (unfailing process List.mem_cons_self) kept (by omega)
    have short : (texts (mainMessages.take count)).length ≤ 3 := by
      rw [texts, List.length_map, List.length_take]
      exact Nat.le_trans (Nat.min_le_left _ _) bound
    obtain ⟨counts, came, final⟩ := inductionHypothesis _
      (fun other member => unfailing other (List.mem_cons_of_mem _ member)) left
      (by rw [List.length_append]; omega)
    refine ⟨count :: counts, .cons ⟨bound, whole⟩ came, ?_⟩
    rw [addedBy, List.flatMap_cons, ← List.append_assoc]
    exact final

/-- However often `main` was run before on its database, under whatever keys and
killed wherever it was, a run that is not disturbed prints one interval from 1 on
that counts everything, and then the messages: for each earlier run its first ones,
all three if nothing disturbed it, and then its own. -/
theorem main_prints_log (processes : List Process) (last : Process)
    (unfailing : ∀ process ∈ processes, ∀ outcome ∈ process.script, outcome ≠ .fails)
    (undisturbed : last.script = []) (few : 3 * processes.length + 3 < 2 ^ 63) :
    ∃ counts, List.Forall₂ Came processes counts ∧
      (main sodium (rerun sodium .empty processes) last).lines =
        printed (addedBy counts ++ texts mainMessages) := by
  have begun : Kept sodium me Database.empty.contents.1 [] := by
    constructor
    · exact fun _ member => absurd member List.not_mem_nil
    · exact fun _ member => absurd member List.not_mem_nil
    · rfl
    · rfl
    · exact fun _ member => absurd member List.not_mem_nil
    · exact fun _ member => absurd member List.not_mem_nil
  obtain ⟨counts, came, kept⟩ := rerun_kept .empty processes unfailing begun
    (by rw [List.length_nil]; omega)
  refine ⟨counts, came, ?_⟩
  have short := added_by_length counts
  rw [← came.length_eq] at short
  rw [List.nil_append] at kept
  let database := rerun sodium Database.empty processes
  let self : SecurityUserInfo := ⟨me, sodium.publicKey last.privKey, some last.privKey, false⟩
  let replica : Replica := ⟨last.ndebug, me, sodium.publicKey last.privKey, last.privKey,
    database.contents.1, [], database.contents.2.1, database.contents.2.2, [], last.stack⟩
  have opened := Instance.construct_run self last.ndebug database
  have used : main sodium database last = useInstance sodium replica := by
    rw [main, undisturbed]
    simp only [self] at opened
    simp only [opened, Instance.of_opening_created]
    rfl
  rw [used]
  exact use_instance_lines replica rfl kept (by omega)

/-- A process that runs to its end. -/
def sampleProcess : Process := ⟨false, sampleKey 7, [], []⟩

/-- One that is killed at its fourth call. -/
def killedProcess : Process := ⟨false, sampleKey 8, [.completes, .completes, .completes, .stops], []⟩

/-- After a whole run and one that was killed, `main` prints at least six messages. -/
theorem main_prints_log_sample :
    ∃ count, count ≤ 3 ∧
      (main Sodium.transparent (rerun Sodium.transparent .empty [sampleProcess, killedProcess])
        sampleProcess).lines =
          printed (texts mainMessages ++ texts (mainMessages.take count) ++ texts mainMessages) := by
  obtain ⟨counts, came, printedLog⟩ := @main_prints_log _ Sodium.transparent
    [sampleProcess, killedProcess] sampleProcess (by decide) rfl (by decide)
  cases came with
  | cons first rest =>
    cases rest with
    | cons second final =>
      cases final
      refine ⟨_, second.1, ?_⟩
      have whole : mainMessages.take 3 = mainMessages := rfl
      rw [printedLog, first.2 rfl, addedBy, List.flatMap_cons, List.flatMap_cons,
        List.flatMap_nil, List.append_nil, whole]

end Running

end Application

end Replikon
