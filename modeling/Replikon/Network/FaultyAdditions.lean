import Replikon.Network.CausalDelivery
import Replikon.Refinement.Calls
import Replikon.Refinement.InterruptedPulls

/-!
# Messages that are added while calls fail

`addNewMessage` makes ten calls: three to look up the next number and seven to
insert. It looks at what the look-up reports, but not at what its bind reports: if
the name could not be bound, no row is found and the number is 1. Any other call of
it may fail, and the process may be killed, without harm to the numbers: they stay
those from 1 on, each once. Which messages are stored, and with which columns, can
be read off the outcomes of the calls.
-/

namespace Replikon

open Foundation

variable {Signature : Type} (sodium : Sodium Signature)

namespace Log

/-- The next number is read when the process lives through the three calls of the
look-up, its statement is prepared and its step made. -/
def NumberRead (script : List Outcome) : Prop :=
  (∀ index < 3, script[index]? ≠ some .stops) ∧ ∀ index ∈ [0, 2], script[index]? ≠ some .fails

instance (script : List Outcome) : Decidable (NumberRead script) :=
  inferInstanceAs (Decidable (_ ∧ _))

/-- A message is stored when its number is read and its insertion, which begins with
the fourth call, stores a row. -/
def MessageStored (script : List Outcome) : Prop :=
  NumberRead script ∧ MessagesDao.Stores (script.drop 3)

instance (script : List Outcome) : Decidable (MessageStored script) :=
  inferInstanceAs (Decidable (_ ∧ _))

/-- The number that `addNewMessage` reads, when it reads one: its second call binds
the name, and without a name no row is found. -/
def readLamport (replica : Replica) (author : Author) : UInt64 :=
  if replica.script[1]? = some .fails then 1 else assignedLamport replica author

/-- The message with the number that is read. -/
def numbered (replica : Replica) (author : Author) (v : ChatMessage) : ChatMessage :=
  { v with lamport := readLamport replica author }

/-- The row that is to be inserted then. -/
def numberedRow (replica : Replica) (author : Author) (v : ChatMessage) : MessageColumns :=
  MessagesDao.toColumns ⟨numbered replica author v,
    sodium.toBytes (sodium.signDetached (Serde.chatMessage (numbered replica author v))
      replica.selfPrivKey)⟩

/-- What `addNewMessage` stores when its calls end as the script has it. -/
def storedRow (replica : Replica) (author : Author) (v : ChatMessage) : Option MessageColumns :=
  if NumberRead replica.script then
    MessagesDao.insertedRow (replica.script.drop 3) (numberedRow sodium replica author v)
  else none

end Log

/-- Without a name the number is 1. -/
theorem MessagesTable.next_lamport_unbound (table : MessagesTable) :
    (Sql.toInt64 (table.nextLamport none)).toUInt64 = 1 := by
  have none : table.columns.filter (fun row => some row.author = none) = [] :=
    List.filter_eq_nil_iff.mpr fun row _ same => by simp at same
  rw [MessagesTable.nextLamport, none]
  rfl

/-- The number is read exactly if the outcomes of the calls let it be. -/
theorem MessagesDao.get_next_lamport_made (replica : Replica) (author : Author) :
    Guarantees (getNextLamport author) replica
      (fun next after =>
        (next = .ok (Log.readLamport replica author) ∧ Made 3 replica after ∧
          Log.NumberRead replica.script) ∨
        (next = .error .sqliteError ∧ Spent replica after ∧ ¬ Log.NumberRead replica.script))
      (fun after => Spent replica after ∧ ¬ Log.NumberRead replica.script) := by
  have killed : ∀ index < 3, ∀ after,
      Spent replica after ∧ replica.script[index]? = some .stops →
        Spent replica after ∧ ¬ Log.NumberRead replica.script :=
    fun index within after stopped => ⟨stopped.1, fun read => read.1 index within stopped.2⟩
  refine ((prepare_made (made_none replica)).mono (fun _ _ => id) (killed 0 (by decide))).bind ?_
  rintro prepared first ⟨made, going, rfl⟩
  by_cases unprepared : replica.script[0]? = some .fails
  · rw [if_pos unprepared]
    exact guarantees_pure _ (.inr ⟨rfl, ⟨_, made⟩, fun read => read.2 0 (by decide) unprepared⟩)
  rw [if_neg unprepared]
  refine ((bind_made made author).mono (fun _ _ => id) (killed 1 (by decide))).bind ?_
  rintro ⟨result, bound⟩ second ⟨made, going1, name⟩
  apply guarantees_get_bind
  have messages : second.messages = replica.messages := by
    rw [made]
    rfl
  refine ((fetch_row_made made _).mono (fun _ _ => id) (killed 2 (by decide))).bind ?_
  rintro ⟨stepped, fetched⟩ third ⟨made, going2, row⟩
  dsimp only at name row
  by_cases stepFails : replica.script[2]? = some .fails
  · rw [if_pos stepFails] at row
    subst row
    exact guarantees_pure _ (.inr ⟨rfl, ⟨_, made⟩, fun read => read.2 2 (by decide) stepFails⟩)
  · rw [if_neg stepFails] at row
    subst row
    refine guarantees_pure _ (.inl ⟨?_, made, ?_, by simp [unprepared, stepFails]⟩)
    · rw [messages, name, Log.readLamport]
      split
      · rw [replica.messages.next_lamport_unbound]
      · rfl
    · intro index within
      interval_cases index <;> assumption

namespace Log

/-- A number below 2^63 is stored as it is. -/
theorem small_lamport (number : Nat) (few : number < 2 ^ 63) :
    (UInt64.ofNat number).toInt64.toInt = Int.ofNat number := by
  have small : (UInt64.ofNat number).toNat = number := by
    apply UInt64.toNat_ofNat_of_lt'
    rw [UInt64.size]
    omega
  rw [signed_value, small, if_pos few]
  rfl

/-- While no call fails, the number that is read is the next one. -/
theorem numbered_row_unfailing {replica : Replica} (unfailing : replica.Unfailing) (author : Author)
    (v : ChatMessage) : numberedRow sodium replica author v = addedRow sodium replica author v := by
  have same : numbered replica author v = assigned replica author v := by
    rw [numbered, readLamport, if_neg (unfailing.head 1)]
    rfl
  rw [numberedRow, same]
  rfl

/-- Whatever becomes of its calls, `addNewMessage` stores what they let it store.
While no call fails it stores its row, unless the process is killed. -/
theorem add_new_message_spent (replica : Replica) (author : Author) (v : ChatMessage) :
    Guarantees (addNewMessage sodium author v) replica
      (fun _ after => Spent (replica.holding (storedRow sodium replica author v).toList) after ∧
        (replica.Unfailing →
          storedRow sodium replica author v = some (addedRow sodium replica author v)))
      (fun after => Spent replica after ∧ storedRow sodium replica author v = none) := by
  refine ((MessagesDao.get_next_lamport_made replica author).mono (fun _ _ => id) ?_).bind ?_
  · rintro after ⟨spent, unread⟩
    exact ⟨spent, if_neg unread⟩
  rintro next first (⟨rfl, made, read⟩ | ⟨rfl, spent, unread⟩)
  · have stores : storedRow sodium replica author v =
        MessagesDao.insertedRow first.script (numberedRow sodium replica author v) := by
      rw [storedRow, if_pos read, made]
      rfl
    have privKey : first.selfPrivKey = replica.selfPrivKey := by
      rw [made]
      rfl
    rw [Guarantees, bind_ok _ (value_of_run _), bind_ok _ (SecurityProvider.sign_run first _),
      privKey, stores]
    refine ((MessagesDao.insert_message_made first ⟨numbered replica author v,
      sodium.toBytes (sodium.signDetached (Serde.chatMessage (numbered replica author v))
        replica.selfPrivKey)⟩).mono (fun _ _ => id) ?_).bind ?_
    · rintro after ⟨spent, nothing⟩
      exact ⟨trans_of Spent ⟨3, made⟩ spent, nothing⟩
    · rintro result after ⟨⟨calls, inserted, _⟩, whole⟩
      refine guarantees_pure _ ⟨?_, fun unfailing => ?_⟩
      · exact trans_of Spent (Spent.stored ⟨3, made⟩ _) ⟨calls, inserted⟩
      · have later : first.Unfailing := Spent.unfailing ⟨3, made⟩ unfailing
        rw [← numbered_row_unfailing sodium unfailing]
        exact MessagesDao.inserted_row_whole _ (whole later) later
  · have stopped : ∃ reason, (valueOf (.error .sqliteError) : Program UInt64).run first =
        .error reason first := by
      cases build : first.ndebug with
      | false => exact ⟨_, bind_error _ (assert_stops_run false rfl build)⟩
      | true => exact ⟨_, bind_ok _ (assert_unmade_run false build)⟩
    obtain ⟨reason, stopped⟩ := stopped
    rw [Guarantees, bind_error _ stopped]
    exact ⟨spent, if_neg unread⟩

/-- A row that is stored of an offer has the author of its message. -/
theorem Fragments.authors {script : List Outcome} {offers : List (Offer Signature)}
    {rows : List MessageColumns} (fragments : Fragments sodium script offers rows) :
    ∀ row ∈ rows, ∃ offer ∈ offers, row.author = offer.message.author := by
  induction fragments with
  | nothing => exact fun row member => absurd member List.not_mem_nil
  | calls _ _ inductionHypothesis => exact inductionHypothesis
  | omits _ _ inductionHypothesis =>
    intro row member
    obtain ⟨offer, listed, same⟩ := inductionHypothesis row member
    exact ⟨offer, List.mem_cons_of_mem _ listed, same⟩
  | stores _ stored _ inductionHypothesis =>
    intro row member
    rcases List.mem_cons.mp member with rfl | later
    · exact ⟨_, List.mem_cons_self, (MessagesDao.inserted_row_identity stored).1⟩
    · obtain ⟨offer, listed, same⟩ := inductionHypothesis row later
      exact ⟨offer, List.mem_cons_of_mem _ listed, same⟩

end Log

namespace Instance

/-- The rows of an author. -/
def rowsOf (author : Author) (table : MessagesTable) : List MessageColumns :=
  table.columns.filter fun row => row.author = author

/-- The row is what an addition with these outcomes stores of the message under the
number, signed with some key. -/
def Written (script : List Outcome) (v : ChatMessage) (number : Nat) (row : MessageColumns) : Prop :=
  ∃ privKey, MessagesDao.insertedRow (script.drop 3) (MessagesDao.toColumns
    ⟨{ v with lamport := UInt64.ofNat number }, sodium.toBytes (sodium.signDetached
      (Serde.chatMessage { v with lamport := UInt64.ofNat number }) privKey)⟩) = some row

/-- The message of the author that a visit is to add, with what becomes of its calls. -/
def Visit.spoken (author : Author) : Visit Signature → Option (List Outcome × ChatMessage)
  | .call script _ (.addNewMessage _ v) => if v.author = author then some (script, v) else none
  | _ => none

/-- Of the messages given those are written that are stored, in their order and under
the numbers from 1 on. -/
def OwnLog (author : Author) (given : List (List Outcome × ChatMessage)) (table : MessagesTable) :
    Prop :=
  List.Forall₂ (fun entry row => Written sodium entry.1.1 entry.1.2 entry.2 row)
    ((given.filter fun told => Log.MessageStored told.1).zipIdx 1) (rowsOf author table)

variable {sodium} {author : Author} {given : List (List Outcome × ChatMessage)}
  {table : MessagesTable}

/-- A number below 2^63 is the lamport of the row that is written under it. -/
theorem Written.lamport {script : List Outcome} {v : ChatMessage} {number : Nat}
    {row : MessageColumns} (written : Written sodium script v number row)
    (few : number < 2 ^ 63) : row.lamport.toInt = Int.ofNat number := by
  obtain ⟨privKey, stored⟩ := written
  rw [(MessagesDao.inserted_row_identity stored).2]
  exact Log.small_lamport number few

/-- The numbers of such a log. -/
theorem written_lamports (kept : List (List Outcome × ChatMessage)) (start : Nat)
    (rows : List MessageColumns) (few : start + kept.length < 2 ^ 63)
    (written : List.Forall₂ (fun entry row => Written sodium entry.1.1 entry.1.2 entry.2 row)
      (kept.zipIdx start) rows) :
    rows.map (·.lamport.toInt) = (List.range' start kept.length).map Int.ofNat := by
  induction kept generalizing start rows with
  | nil =>
    cases written
    rfl
  | cons v rest inductionHypothesis =>
    rw [List.length_cons] at few
    rw [List.zipIdx_cons] at written
    cases written with
    | cons first later =>
      rw [List.map_cons, first.lamport (by omega),
        inductionHypothesis (start + 1) _ (by omega) later, List.length_cons, List.range'_succ,
        List.map_cons]

/-- One more message is written under the next number, if it is stored. -/
theorem OwnLog.add {replica : Replica} (log : OwnLog sodium author given replica.messages)
    (few : given.length + 1 < 2 ^ 63) (v : ChatMessage) (named : v.author = author)
    (bound : replica.script[1]? ≠ some .fails) :
    OwnLog sodium author (given ++ [(replica.script, v)])
      (replica.messages.insertAll (Log.storedRow sodium replica author v).toList) := by
  let kept := given.filter fun told => Log.MessageStored told.1
  have bounded : kept.length ≤ given.length := List.length_filter_le _ _
  have lamports := written_lamports kept 1 _ (by omega) log
  have assigned := Network.assigned_lamport_consecutive replica author kept.length (by omega) lamports
  have read : Log.readLamport replica author = UInt64.ofNat (kept.length + 1) := by
    rw [Log.readLamport, if_neg bound, assigned]
  have columns : rowsOf author (replica.messages.insertAll
      (Log.storedRow sodium replica author v).toList) = rowsOf author replica.messages ++
        (Log.storedRow sodium replica author v).toList.filter fun row => row.author = author := by
    rw [rowsOf, MessagesTable.insert_all_columns, List.filter_append]
    rfl
  unfold OwnLog
  rw [columns, List.filter_append]
  by_cases stored : Log.MessageStored replica.script
  · obtain ⟨numberRead, stores⟩ := stored
    have row : Log.storedRow sodium replica author v = some (MessagesDao.boundColumns
        (replica.script.drop 3) (Log.numberedRow sodium replica author v)) := by
      rw [Log.storedRow, if_pos numberRead, MessagesDao.insertedRow, if_pos stores]
    have last : Written sodium replica.script v (kept.length + 1) (MessagesDao.boundColumns
        (replica.script.drop 3) (Log.numberedRow sodium replica author v)) := by
      refine ⟨replica.selfPrivKey, ?_⟩
      rw [← read]
      exact if_pos stores
    have own : [MessagesDao.boundColumns (replica.script.drop 3)
        (Log.numberedRow sodium replica author v)].filter (fun row => row.author = author) = [_] :=
      List.filter_cons_of_pos (decide_eq_true named)
    have counted : [(replica.script, v)].filter (fun told => Log.MessageStored told.1) = [_] :=
      List.filter_cons_of_pos (decide_eq_true ⟨numberRead, stores⟩)
    rw [row, Option.toList_some, own, counted, List.zipIdx_append]
    apply List.rel_append log
    rw [Nat.add_comm]
    exact .cons last .nil
  · have nothing : Log.storedRow sodium replica author v = none := by
      rw [Log.storedRow]
      split
      · rename_i numberRead
        exact if_neg fun stores => stored ⟨numberRead, stores⟩
      · rfl
    rw [nothing, List.filter_cons_of_neg (by simpa using stored), List.filter_nil, List.append_nil]
    exact (List.append_nil (rowsOf author replica.messages)).symm ▸ log

variable {layouts : KeysCrdt.Layouts}

end Instance

end Replikon
