import Replikon.Model.Log

/-!
# What `merge` and `addNewMessage` do to a replica

The unique index of `messages` contains the primary key, which every insertion
chooses anew: the index never conflicts, and INSERT OR IGNORE always inserts. On
a reliable database a merge therefore appends, in the order of the update, every
message whose signature verifies under the key it is filed under, whether or not
the table holds it already.
-/

namespace Replikon

/-- The index never refuses the next row. -/
theorem MessagesTable.no_conflict (table : MessagesTable) (lamport : Int64) :
    table.conflicts table.nextId lamport = false := by
  rw [MessagesTable.conflicts, List.any_eq_false]
  intro row member
  have older := table.id_lt_next_id row member
  have different : row.id ≠ table.nextId := Nat.ne_of_lt older
  simp [different]

/-- INSERT OR IGNORE inserts. -/
theorem MessagesTable.insert_or_ignore_columns (table : MessagesTable) (row : MessageColumns) :
    (table.insertOrIgnore row).columns = table.columns ++ [row] := by
  rw [MessagesTable.insertOrIgnore, if_neg (by simp [table.no_conflict])]
  simp [MessagesTable.columns]

/-- Insert rows one after another. -/
def MessagesTable.insertAll (table : MessagesTable) (rows : List MessageColumns) : MessagesTable :=
  rows.foldl MessagesTable.insertOrIgnore table

theorem MessagesTable.insert_all_columns (table : MessagesTable) (rows : List MessageColumns) :
    (table.insertAll rows).columns = table.columns ++ rows := by
  induction rows generalizing table with
  | nil => simp [MessagesTable.insertAll]
  | cons row rest inductionHypothesis =>
    have inserted : table.insertAll (row :: rest) = (table.insertOrIgnore row).insertAll rest := rfl
    rw [inserted, inductionHypothesis, insert_or_ignore_columns, List.append_assoc,
      List.singleton_append]

/-- The replica after rows were inserted: each insertion uses up one
uninitialised local. -/
def Replica.store (replica : Replica) (rows : List MessageColumns) : Replica :=
  { replica with
    messages := replica.messages.insertAll rows
    stack := replica.stack.drop rows.length }

section Store

variable (replica : Replica) (rows : List MessageColumns)

@[simp] theorem Replica.store_columns :
    (replica.store rows).messages.columns = replica.messages.columns ++ rows :=
  MessagesTable.insert_all_columns replica.messages rows

/-- To store nothing changes nothing. -/
theorem Replica.store_nothing : replica.store [] = replica := rfl

@[simp] theorem Replica.store_security : (replica.store rows).security = replica.security := rfl

@[simp] theorem Replica.store_priv_key :
    (replica.store rows).selfPrivKey = replica.selfPrivKey := rfl

@[simp] theorem Replica.store_stack :
    (replica.store rows).stack = replica.stack.drop rows.length := rfl

theorem Replica.store_append (more : List MessageColumns) :
    replica.store (rows ++ more) = (replica.store rows).store more := by
  simp [Replica.store, MessagesTable.insertAll, List.foldl_append, List.drop_drop]

theorem Replica.store_cons (row : MessageColumns) :
    replica.store (row :: rows) = (replica.store [row]).store rows :=
  replica.store_append [row] rows

variable {replica}

theorem Replica.Reliable.store (reliable : replica.Reliable) : (replica.store rows).Reliable :=
  reliable

end Store

/-- Which key an author has decides what verifies. -/
theorem Replica.verifies_congr {Signature : Type} (sodium : Sodium Signature)
    {left right : Replica} (same : left.security = right.security) :
    left.verifies sodium = right.verifies sodium := by
  funext author bytes signature
  rw [Replica.verifies, Replica.verifies, same]

/-- An insertion stores its row. -/
theorem MessagesDao.insert_message_stores {replica : Replica} (reliable : replica.Reliable)
    (signedMsg : SignedChatMeesage) :
    (insertMessage signedMsg).run replica =
      .ok (if replica.stack.head?.getD .ok = .ok then .ok else .error)
        (replica.store [toColumns signedMsg]) := by
  rw [insert_message_run reliable, Replica.store, List.length_singleton, List.drop_one]
  rfl

namespace Log

/-- A signed message as an update offers it, with the map key it is filed under. -/
structure Offer (Signature : Type) where
  key : Text
  signature : Signature
  message : ChatMessage

variable {Signature : Type} (sodium : Sodium Signature)

/-- The offers filed under one key. -/
def offersUnder (key : Text) (messages : List (Signature × ChatMessage)) : List (Offer Signature) :=
  messages.map fun entry => ⟨key, entry.1, entry.2⟩

/-- The offers of an update, in the order in which a merge visits them. -/
def offers (update : Update Signature) : List (Offer Signature) :=
  update.entries.flatMap fun entry => offersUnder entry.1 entry.2

/-- The check that a merge makes of an offer. -/
def Offer.verifies (replica : Replica) (offer : Offer Signature) : Bool :=
  replica.verifies sodium offer.key (Serde.chatMessage offer.message) offer.signature

/-- The row that a merge inserts for an offer. -/
def Offer.row (offer : Offer Signature) : MessageColumns :=
  MessagesDao.toColumns ⟨offer.message, sodium.toBytes offer.signature⟩

/-- The offers of an update that verify at a replica. -/
def accepted (replica : Replica) (update : Update Signature) : List (Offer Signature) :=
  (offers update).filter (Offer.verifies sodium replica)

/-- The rows that a merge adds at a replica. -/
def acceptedRows (replica : Replica) (update : Update Signature) : List MessageColumns :=
  (accepted sodium replica update).map (Offer.row sodium)

/-- Whether one of the next insertions reports success. -/
def reported : Nat → List SqliteResult → Bool
  | 0, _ => false
  | count + 1, stack => stack.head?.getD .ok = .ok || reported count stack.tail

theorem reported_add (first second : Nat) (stack : List SqliteResult) :
    reported (first + second) stack = (reported first stack || reported second (stack.drop first)) := by
  induction first generalizing stack with
  | zero => simp [reported]
  | succ first inductionHypothesis =>
    rw [Nat.succ_add, reported, reported, inductionHypothesis, List.drop_tail, Bool.or_assoc]

section Reliable

variable {sodium} {replica : Replica} (reliable : replica.Reliable)
include reliable

/-- The inner loop stores the rows of the offers that verify. -/
theorem merge_messages_run (key : Text) (messages : List (Signature × ChatMessage)) (merged : Bool) :
    (mergeMessages sodium key messages merged).run replica =
      let taken := (offersUnder key messages).filter (Offer.verifies sodium replica)
      .ok (merged || reported taken.length replica.stack)
        (replica.store (taken.map (Offer.row sodium))) := by
  induction messages generalizing replica merged with
  | nil => simp [mergeMessages, offersUnder, reported, Replica.store_nothing]
  | cons entry rest inductionHypothesis =>
    obtain ⟨signature, message⟩ := entry
    let offer : Offer Signature := ⟨key, signature, message⟩
    rw [mergeMessages, bind_ok _ (SecurityProvider.is_valid_run reliable signature key message)]
    by_cases valid : offer.verifies sodium replica = true
    · have checked : replica.verifies sodium key (Serde.chatMessage message) signature = true := valid
      have same : Offer.verifies sodium (replica.store [offer.row sodium]) =
          Offer.verifies sodium replica := rfl
      rw [if_pos checked, bind_ok _ (MessagesDao.insert_message_stores reliable _)]
      change (mergeMessages sodium key rest _).run (replica.store [offer.row sodium]) = _
      rw [inductionHypothesis (reliable.store _), same]
      have taken : (offersUnder key ((signature, message) :: rest)).filter
          (Offer.verifies sodium replica) =
            offer :: (offersUnder key rest).filter (Offer.verifies sodium replica) :=
        List.filter_cons_of_pos valid
      simp only [taken, List.map_cons, List.length_cons, reported]
      rw [replica.store_cons (((offersUnder key rest).filter _).map _), Replica.store_stack,
        List.length_singleton, List.drop_one, ← Bool.or_assoc]
      cases replica.stack.head?.getD .ok <;> rfl
    · have refused : ¬ replica.verifies sodium key (Serde.chatMessage message) signature = true :=
        valid
      rw [if_neg refused, inductionHypothesis reliable]
      have taken : (offersUnder key ((signature, message) :: rest)).filter
          (Offer.verifies sodium replica) =
            (offersUnder key rest).filter (Offer.verifies sodium replica) :=
        List.filter_cons_of_neg valid
      simp only [taken]

/-- The outer loop stores the rows of all entries in order. -/
theorem merge_entries_run (entries : List (Text × List (Signature × ChatMessage))) (merged : Bool) :
    (mergeEntries sodium entries merged).run replica =
      let taken := (entries.flatMap fun entry => offersUnder entry.1 entry.2).filter
        (Offer.verifies sodium replica)
      .ok (merged || reported taken.length replica.stack)
        (replica.store (taken.map (Offer.row sodium))) := by
  induction entries generalizing replica merged with
  | nil => simp [mergeEntries, reported, Replica.store_nothing]
  | cons entry rest inductionHypothesis =>
    rw [mergeEntries, bind_ok _ (merge_messages_run reliable entry.1 entry.2 merged)]
    dsimp only
    rw [inductionHypothesis (reliable.store _)]
    simp only [List.flatMap_cons, List.filter_append, List.map_append, List.length_append,
      reported_add, Replica.store_append, Bool.or_assoc]
    simp only [Replica.store_stack, List.length_map]
    rfl

/-- A merge appends the rows of exactly the offers that verify, and reports
MERGED exactly when one of the insertions reported success. -/
theorem merge_run (update : Update Signature) :
    (merge sodium update).run replica =
      .ok (if reported (accepted sodium replica update).length replica.stack then .merged
          else .skipped)
        (replica.store (acceptedRows sodium replica update)) := by
  rw [merge, bind_ok _ (merge_entries_run reliable update.entries false)]
  rfl

/-- The lamport that `addNewMessage` assigns. -/
def assignedLamport (replica : Replica) (author : Author) : UInt64 :=
  (Sql.toInt64 (replica.messages.nextLamport (some author))).toUInt64

/-- A message as `addNewMessage` signs it. -/
def assigned (replica : Replica) (author : Author) (message : ChatMessage) : ChatMessage :=
  { message with lamport := assignedLamport replica author }

/-- The row that `addNewMessage` adds. -/
def addedRow (sodium : Sodium Signature) (replica : Replica) (author : Author)
    (message : ChatMessage) : MessageColumns :=
  MessagesDao.toColumns ⟨assigned replica author message,
    sodium.toBytes (sodium.signDetached (Serde.chatMessage (assigned replica author message))
      replica.selfPrivKey)⟩

/-- `addNewMessage` appends one row: the message with the next lamport, signed
with the replica's own key. -/
theorem add_new_message_run (author : Author) (message : ChatMessage) :
    (addNewMessage sodium author message).run replica =
      .ok () (replica.store [addedRow sodium replica author message]) := by
  rw [addNewMessage, bind_ok _ (MessagesDao.get_next_lamport_run reliable author),
    bind_ok _ (value_of_run _), bind_ok _ (SecurityProvider.sign_run replica _),
    bind_ok _ (MessagesDao.insert_message_stores reliable _)]
  rfl

end Reliable

/-- What a merge leaves. -/
theorem merge_leaves {sodium : Sodium Signature} {replica : Replica} (reliable : replica.Reliable)
    (update : Update Signature) :
    (merge sodium update).leaves replica = replica.store (acceptedRows sodium replica update) := by
  rw [Program.leaves, merge_run reliable update]

/-- What `addNewMessage` leaves. -/
theorem add_new_message_leaves {sodium : Sodium Signature} {replica : Replica}
    (reliable : replica.Reliable) (author : Author) (message : ChatMessage) :
    (addNewMessage sodium author message).leaves replica =
      replica.store [addedRow sodium replica author message] := by
  rw [Program.leaves, add_new_message_run reliable author message]

/-- A new replica that knows the key of author `a`. -/
def sampleReplica : Replica :=
  { Replica.fresh false (ascii "b") (Sodium.transparent.publicKey (sampleKey 2)) (sampleKey 2) [] with
    security := SecurityTable.empty.insertPublicOnly (ascii "a")
      (Sodium.transparent.publicKey (sampleKey 1)) }

/-- The first message of author `a`. -/
def sampleMessage : ChatMessage := ⟨ascii "a", 1, 5, ascii "hi"⟩

/-- The signature of the author under its message. -/
def sampleSignature : Buffer :=
  Sodium.transparent.signDetached (Serde.chatMessage sampleMessage) (sampleKey 1)

/-- An update with that message. -/
def sampleUpdate : Update Buffer :=
  Foundation.SortedMap.empty.insert (ascii "a") [(sampleSignature, sampleMessage)]

/-- The message is accepted once its author's key is known. -/
example : (accepted Sodium.transparent sampleReplica sampleUpdate).length = 1 := by decide

end Log

end Replikon
