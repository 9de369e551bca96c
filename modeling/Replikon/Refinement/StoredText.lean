import Replikon.Refinement.Directory
import Replikon.Refinement.MergeLaws
import Replikon.Refinement.RoundTrip

/-!
# What is read back of what was stored

Strings are bound with their length and read through a C string, which ends at
the first NUL byte. Everything else of a message comes back as it was stored. The
end of a search interval is stored as a signed cell, so an interval is searched
whole when it ends at `2^63` or before. A message whose strings have no NUL is
therefore found by such an interval, listed under its author and still verifies
where it is handed out; any other message is not.
-/

namespace Replikon

open Foundation

namespace MessagesDao

/-- Insert messages one after another. -/
def insertMessages : List SignedChatMeesage → Program Unit
  | [] => pure ()
  | signedMsg :: rest => do
    let _ ← insertMessage signedMsg
    insertMessages rest

/-- The insertions store the messages' rows. -/
theorem insert_messages_run {replica : Replica} (reliable : replica.Reliable)
    (inserted : List SignedChatMeesage) :
    (insertMessages inserted).run replica = .ok () (replica.store (inserted.map toColumns)) := by
  induction inserted generalizing replica with
  | nil => rfl
  | cons signedMsg rest inductionHypothesis =>
    rw [insertMessages, bind_ok _ (insert_message_stores reliable signedMsg),
      inductionHypothesis (reliable.store _), List.map_cons, ← Replica.store_cons]

/-- A message is read back as it is exactly when its strings have no NUL. -/
theorem read_back_iff (message : SignedChatMeesage) :
    fromRow (toColumns message) = message ↔
      (0 : Byte) ∉ message.msg.author ∧ (0 : Byte) ∉ message.msg.body := by
  obtain ⟨⟨author, lamport, originTs, body⟩, sign⟩ := message
  simp [fromRow, toColumns, c_string_eq_iff]

/-- The bounds of an interval that contains a lamport hold its cell exactly when
the interval ends at `2^63` or before. A later end is negative as a signed cell,
or smaller than the start when the sum wrapped. -/
theorem contained_bounds_iff (interval : Interval) (lamport : UInt64)
    (below : lamport.toNat < 2 ^ 63) (after : interval.start.toNat ≤ lamport.toNat)
    (inside : lamport.toNat < interval.start.toNat + interval.len.toNat) :
    ((bounds interval).1.toInt ≤ lamport.toInt64.toInt ∧
        lamport.toInt64.toInt ≤ (bounds interval).2.toInt) ↔
      interval.start.toNat + interval.len.toNat ≤ 2 ^ 63 := by
  have start : (bounds interval).1.toInt = interval.start.toNat := by
    rw [bounds, signed_value, if_pos (by omega)]
  have number : lamport.toInt64.toInt = lamport.toNat := by
    rw [signed_value, if_pos below]
  have finish : (bounds interval).2.toInt =
      if interval.last.toNat < 2 ^ 63 then (interval.last.toNat : Int)
      else (interval.last.toNat : Int) - 2 ^ 64 := signed_value interval.last
  have wrapped : interval.last.toNat =
      (2 ^ 64 - 1 + (interval.start.toNat + interval.len.toNat) % 2 ^ 64) % 2 ^ 64 := by
    simp [Interval.last, UInt64.toNat_sub, UInt64.toNat_add]
  have startBound := interval.start.toNat_lt
  have lenBound := interval.len.toNat_lt
  rw [start, number, finish]
  split <;> omega

end MessagesDao

/-- The strings of the message have no NUL and the interval ends at `2^63` or before. -/
def Preserved (message : SignedChatMeesage) (interval : Interval) : Prop :=
  (0 : Byte) ∉ message.msg.author ∧ (0 : Byte) ∉ message.msg.body ∧
    interval.start.toNat + interval.len.toNat ≤ 2 ^ 63

/-- The store returns the message: reading its author's messages over the
interval gives an equal record, and the headers list its exact author. -/
def Returned (stored : Replica) (message : SignedChatMeesage) (interval : Interval) : Prop :=
  (∃ records after, (MessagesDao.getAllMessages message.msg.author [interval]).run stored =
      .ok (.ok records) after ∧ message ∈ records) ∧
    ∃ headers, MessagesDao.getHeaders.run stored = .ok (.ok headers) stored ∧
      (headers.find message.msg.author).isSome

/-- The headers list exactly the authors as they are read. -/
theorem header_listed_iff (table : MessagesTable) (key : Text) :
    ((tableHeaders table).find key).isSome ↔ ∃ row ∈ table.columns, cString row.author = key := by
  rw [tableHeaders, find_push_headers]
  constructor
  · intro listed
    split at listed
    · simp at listed
    · next some =>
      obtain ⟨row, member⟩ := List.exists_mem_of_ne_nil _ some
      obtain ⟨inRows, same⟩ := List.mem_filter.mp member
      obtain ⟨stored, present, author⟩ := header_row_author table row inRows
      exact ⟨stored, present, by simpa [author] using same⟩
  · rintro ⟨stored, present, same⟩
    have lamport : stored.lamport.toInt ∈ MessagesTable.lamportsOf table.columns stored.author :=
      (mem_lamports_of _ _ _).mpr ⟨stored, present, rfl, rfl⟩
    obtain ⟨row, member, _⟩ := author_rows_complete stored.lamport.toInt lamport
    obtain ⟨inRows, author⟩ := List.mem_filter.mp member
    have filed : row ∈ table.headerRows.filter fun row => cString row.author = key := by
      refine List.mem_filter.mpr ⟨inRows, ?_⟩
      simp only [decide_eq_true_eq] at author ⊢
      rw [author, same]
    rw [if_neg (List.ne_nil_of_mem filed)]
    rfl

namespace Log

/-- The messages selected by one interval are the author's rows inside its
bounds, as they are read. -/
theorem mem_selected_iff (table : MessagesTable) (author : Text) (interval : Interval)
    (signedMsg : SignedChatMeesage) :
    signedMsg ∈ selected table author [interval] ↔
      ∃ row ∈ table.columns, row.author = author ∧
        ((MessagesDao.bounds interval).1.toInt ≤ row.lamport.toInt ∧
          row.lamport.toInt ≤ (MessagesDao.bounds interval).2.toInt) ∧
        MessagesDao.fromRow row = signedMsg := by
  simp only [selected, List.mem_map, mem_by_intervals, List.mem_singleton, exists_eq_left]
  constructor
  · rintro ⟨row, ⟨present, own, held⟩, read⟩
    exact ⟨row, present, own, held, read⟩
  · rintro ⟨row, present, own, held, read⟩
    exact ⟨row, ⟨present, own, held⟩, read⟩

section Stored

variable {table : MessagesTable} {inserted : List SignedChatMeesage}
  (columns : table.columns = inserted.map MessagesDao.toColumns) (message : SignedChatMeesage)
  (present : message ∈ inserted) (below : message.msg.lamport.toNat < 2 ^ 63) (interval : Interval)
  (after : interval.start.toNat ≤ message.msg.lamport.toNat)
  (inside : message.msg.lamport.toNat < interval.start.toNat + interval.len.toNat)
include columns present below after inside

/-- An inserted message is selected as it is exactly when it is preserved. -/
theorem selected_iff : message ∈ selected table message.msg.author [interval] ↔
    Preserved message interval := by
  have ends := MessagesDao.contained_bounds_iff interval message.msg.lamport below after inside
  rw [mem_selected_iff]
  constructor
  · rintro ⟨row, _, _, held, read⟩
    have lamport : row.lamport = message.msg.lamport.toInt64 := by
      rw [← read]
      exact (Int64.toInt64_toUInt64 row.lamport).symm
    refine ⟨?_, ?_, ends.mp (lamport ▸ held)⟩ <;> rw [← read]
    · exact c_string_clean row.author
    · exact c_string_clean row.body
  · rintro ⟨author, body, ending⟩
    refine ⟨MessagesDao.toColumns message, ?_, rfl, ends.mpr ending,
      (MessagesDao.read_back_iff message).mpr ⟨author, body⟩⟩
    rw [columns]
    exact List.mem_map_of_mem present

/-- An inserted message is returned exactly when it is preserved. -/
theorem returned_iff {stored : Replica} (reliable : stored.Reliable)
    (same : stored.messages = table) : Returned stored message interval ↔
      Preserved message interval := by
  have selection := selected_iff columns message present below interval after inside
  have records := MessagesDao.get_all_messages_run reliable message.msg.author [interval]
  have listed : (stored.messages.byIntervals (some message.msg.author)
      ([interval].map MessagesDao.bounds)).map MessagesDao.fromRow =
        selected table message.msg.author [interval] := by
    rw [selected, same]
  rw [listed] at records
  constructor
  · rintro ⟨⟨found, _, ran, member⟩, _⟩
    rw [records] at ran
    injection ran with value _
    injection value with value
    exact selection.mp (value ▸ member)
  · intro preserved
    refine ⟨⟨_, _, records, selection.mpr preserved⟩, _, MessagesDao.get_headers_run reliable, ?_⟩
    refine (header_listed_iff stored.messages message.msg.author).mpr
      ⟨MessagesDao.toColumns message, ?_, c_string_whole _ preserved.1⟩
    rw [same, columns]
    exact List.mem_map_of_mem present

end Stored

variable {Signature : Type} (sodium : Sodium Signature)

/-- The update that is handed out for the request has, with the signature of the
message, something that verifies at the peer. -/
def StillVerifies (stored peer : Replica) (request : Request) (message : SignedChatMeesage) :
    Prop :=
  ∃ update after, (getUpdate sodium request).run stored = .ok update after ∧
    ∃ sent ∈ (update.find message.msg.author).getD [], sodium.toBytes sent.1 = message.sign ∧
      (SecurityProvider.isValid sodium Serde.chatMessage sent.1 message.msg.author sent.2).run peer =
        .ok true peer

/-- The message as `addNewMessage` stores it. -/
def signedMessage (replica : Replica) (author : Author) (message : ChatMessage) :
    SignedChatMeesage :=
  ⟨assigned replica author message, sodium.toBytes
    (sodium.signDetached (Serde.chatMessage (assigned replica author message)) replica.selfPrivKey)⟩

variable {sodium}

/-- A request is answered with what is selected for each of its entries. -/
theorem get_update_readable {replica : Replica} (reliable : replica.Reliable)
    (readable : Readable sodium replica.messages) (request : Request) :
    ∃ after, (getUpdate sodium request).run replica =
      .ok (request.mapValues fun k v =>
        (selected replica.messages k v).filterMap (handOut sodium)) after := by
  obtain ⟨searched, ran⟩ := get_update_run sodium reliable request
  rw [hand_out_all_readable _ readable, SortedMap.assign_all_entries] at ran
  exact ⟨_, ran⟩

/-- The rows of messages with readable signatures are readable. -/
theorem readable_of_inserted {table : MessagesTable} {inserted : List SignedChatMeesage}
    (columns : table.columns = inserted.map MessagesDao.toColumns)
    (readings : ∀ message ∈ inserted, (sodium.ofBytes message.sign).isSome) :
    Readable sodium table := by
  intro row member
  rw [columns] at member
  obtain ⟨message, listed, rfl⟩ := List.mem_map.mp member
  exact readings message listed

section Signed

variable (ideal : sodium.Ideal) {stored peer : Replica} (reliable : stored.Reliable)
  (peerReliable : peer.Reliable) {inserted : List SignedChatMeesage}
  (columns : stored.messages.columns = inserted.map MessagesDao.toColumns)
  (readings : ∀ message ∈ inserted, (sodium.ofBytes message.sign).isSome)
  (sizes : ∀ message ∈ inserted, Serde.chatMessageSerializer.Fits message.msg)
  (message : SignedChatMeesage) (present : message ∈ inserted)
  (below : message.msg.lamport.toNat < 2 ^ 63) (interval : Interval)
  (after : interval.start.toNat ≤ message.msg.lamport.toNat)
  (inside : message.msg.lamport.toNat < interval.start.toNat + interval.len.toNat)
  (request : Request) (asked : request.find message.msg.author = some [interval])
  (privKey : PrivKey)
  (registered : peer.registeredKey message.msg.author = some (sodium.publicKey privKey))
  (signed : message.sign =
    sodium.toBytes (sodium.signDetached (Serde.chatMessage message.msg) privKey))

include columns sizes in
/-- What is selected is not longer than what was inserted. -/
theorem selected_fits (author : Text) (selection : SignedChatMeesage)
    (member : selection ∈ selected stored.messages author [interval]) :
    Serde.chatMessageSerializer.Fits selection.msg := by
  obtain ⟨row, inTable, _, _, rfl⟩ := (mem_selected_iff _ _ _ _).mp member
  rw [columns] at inTable
  obtain ⟨original, listed, rfl⟩ := List.mem_map.mp inTable
  obtain ⟨author, body⟩ := (Serde.chat_message_fits_iff _).mp (sizes original listed)
  exact (Serde.chat_message_fits_iff _).mpr
    ⟨(c_string_length _).trans_lt author, (c_string_length _).trans_lt body⟩

include ideal reliable peerReliable columns readings sizes present below after inside asked
  registered signed

/-- A signed message still verifies where it is handed out exactly when it is
preserved: its signature is good for no other bytes. -/
theorem still_verifies_iff :
    StillVerifies sodium stored peer request message ↔ Preserved message interval := by
  have selection := selected_iff columns message present below interval after inside
  obtain ⟨left, ran⟩ := get_update_readable reliable (readable_of_inserted columns readings) request
  have answer : ((request.mapValues fun k v =>
      (selected stored.messages k v).filterMap (handOut sodium)).find message.msg.author).getD [] =
        (selected stored.messages message.msg.author [interval]).filterMap (handOut sodium) := by
    rw [SortedMap.find_map_values, asked]
    rfl
  have reading : sodium.ofBytes message.sign =
      some (sodium.signDetached (Serde.chatMessage message.msg) privKey) := by
    rw [signed, sodium.of_to_bytes]
  rw [← selection]
  constructor
  · rintro ⟨update, final, updated, sent, member, sameSign, valid⟩
    rw [ran] at updated
    injection updated with sameUpdate _
    rw [← sameUpdate, answer] at member
    obtain ⟨found, inSelection, handed⟩ := List.mem_filterMap.mp member
    obtain ⟨signature, read, rfl⟩ := Option.map_eq_some_iff.mp handed
    have foundSign : found.sign = message.sign :=
      (sodium.to_of_bytes _ _ read).symm.trans sameSign
    rw [foundSign, reading] at read
    injection read with sameSignature
    rw [SecurityProvider.is_valid_run peerReliable] at valid
    injection valid with verified _
    obtain ⟨key, sameKey, verified⟩ := (peer.verifies_iff sodium _ _ _).mp verified
    rw [← sameSignature] at verified
    have bytes := (ideal.verified_bytes verified (ideal.verifies_signed _ privKey)).1
    have messages : found.msg = message.msg :=
      Serde.chat_message_composed.round_trip.injective _ _
        (selected_fits columns sizes interval _ found inSelection) (sizes message present) bytes
    have whole : found = message := by
      obtain ⟨foundMsg, foundBytes⟩ := found
      obtain ⟨msg, signBytes⟩ := message
      simp_all
    exact whole ▸ inSelection
  · intro inSelection
    refine ⟨_, left, ran, (sodium.signDetached (Serde.chatMessage message.msg) privKey,
      message.msg), ?_, signed.symm, ?_⟩
    · rw [answer]
      refine List.mem_filterMap.mpr ⟨message, inSelection, ?_⟩
      rw [handOut, reading]
      rfl
    · rw [SecurityProvider.is_valid_run peerReliable]
      have verified := (peer.verifies_iff sodium message.msg.author
        (Serde.chatMessage message.msg)
          (sodium.signDetached (Serde.chatMessage message.msg) privKey)).mpr
            ⟨_, registered, ideal.verifies_signed _ privKey⟩
      rw [verified]

end Signed

end Log

namespace KeyValueDao

/-- Insert texts one after another. -/
def insertTextValues : List (Text × Text) → Program Unit
  | [] => pure ()
  | (key, value) :: rest => do
    let _ ← insertTextValue key value
    insertTextValues rest

/-- The last text inserted for a key. -/
def lastText (key : Text) (texts : List (Text × Text)) : Option Text :=
  ((texts.filter fun entry => entry.1 = key).getLast?).map (·.2)

/-- The insertions leave the last text of every key they name and nothing else new. -/
theorem insert_text_values_run {replica : Replica} (reliable : replica.Reliable)
    (texts : List (Text × Text)) :
    ∃ kept, kept.Reliable ∧ (insertTextValues texts).run replica = .ok () kept ∧
      ∀ key, kept.keyValue.find key =
        ((lastText key texts).map Sql.Value.text).or (replica.keyValue.find key) := by
  induction texts generalizing replica with
  | nil => exact ⟨replica, reliable, rfl, fun key => rfl⟩
  | cons entry rest inductionHypothesis =>
    obtain ⟨inserted, value⟩ := entry
    let changed : Replica :=
      { replica with keyValue := replica.keyValue.insertOrReplace inserted (.text value) }
    have changedReliable : changed.Reliable := reliable
    obtain ⟨kept, keptReliable, ran, found⟩ := inductionHypothesis changedReliable
    refine ⟨kept, keptReliable, ?_, ?_⟩
    · rw [insertTextValues, insertTextValue, bind_ok _ (insert_value_run reliable _ _)]
      exact ran
    · intro key
      have first : changed.keyValue.find key =
          if key = inserted then some (.text value) else replica.keyValue.find key :=
        KeyValueTable.find_insert_or_replace _ _ _ _
      rw [found, first]
      by_cases same : inserted = key
      · subst same
        have last : lastText inserted ((inserted, value) :: rest) =
            (lastText inserted rest).or (some value) := by
          rw [lastText, lastText, List.filter_cons_of_pos (by simp), List.getLast?_cons]
          cases (rest.filter fun entry => entry.1 = inserted).getLast? <;> rfl
        rw [last, if_pos rfl]
        cases lastText inserted rest <;> rfl
      · have skipped : lastText key ((inserted, value) :: rest) = lastText key rest := by
          simp [lastText, same]
        rw [skipped, if_neg (Ne.symm same)]

end KeyValueDao

namespace Log

variable {Signature : Type} {sodium : Sodium Signature}

/-- After any sequence of insertions an inserted message is returned, and still
verifies at a peer that knows its signer, exactly when its strings have no NUL
and the interval asked for ends at `2^63` or before; a call of `addNewMessage`
is one more insertion of a signed message. The last text of a key is returned
exactly when it has no NUL. -/
theorem store_returns_iff (ideal : sodium.Ideal) (start : Replica) (reliable : start.Reliable)
    (blank : start.messages = MessagesTable.empty) (inserted : List SignedChatMeesage)
    (readings : ∀ message ∈ inserted, (sodium.ofBytes message.sign).isSome)
    (sizes : ∀ message ∈ inserted, Serde.chatMessageSerializer.Fits message.msg)
    (lamports : ∀ message ∈ inserted, message.msg.lamport.toNat < 2 ^ 63)
    (texts : List (Text × Text)) :
    ∃ stored kept, (MessagesDao.insertMessages inserted).run start = .ok () stored ∧
      (KeyValueDao.insertTextValues texts).run start = .ok () kept ∧
      (∀ message ∈ inserted, ∀ interval : Interval,
        interval.start.toNat ≤ message.msg.lamport.toNat →
        message.msg.lamport.toNat < interval.start.toNat + interval.len.toNat →
          (Returned stored message interval ↔ Preserved message interval) ∧
          ∀ (peer : Replica) (request : Request) (privKey : PrivKey), peer.Reliable →
            request.find message.msg.author = some [interval] →
            peer.registeredKey message.msg.author = some (sodium.publicKey privKey) →
            message.sign =
              sodium.toBytes (sodium.signDetached (Serde.chatMessage message.msg) privKey) →
            (StillVerifies sodium stored peer request message ↔ Preserved message interval)) ∧
      (∀ author v, ∃ after, (addNewMessage sodium author v).run stored = .ok () after ∧
        (MessagesDao.insertMessages (inserted ++ [signedMessage sodium stored author v])).run start =
          .ok () after) ∧
      ∀ key text, KeyValueDao.lastText key texts = some text →
        ((KeyValueDao.getStringValue key).run kept = .ok (.ok (some text)) kept ↔
          (0 : Byte) ∉ text) := by
  obtain ⟨kept, keptReliable, keptRan, found⟩ := KeyValueDao.insert_text_values_run reliable texts
  have stores := MessagesDao.insert_messages_run reliable
  have storedReliable := reliable.store (inserted.map MessagesDao.toColumns)
  have columns : (start.store (inserted.map MessagesDao.toColumns)).messages.columns =
      inserted.map MessagesDao.toColumns := by
    rw [Replica.store_columns, blank]
    rfl
  refine ⟨_, kept, stores inserted, keptRan, ?_, ?_, ?_⟩
  · intro message present interval after inside
    refine ⟨returned_iff columns message present (lamports message present) interval after inside
      storedReliable rfl, ?_⟩
    intro peer request privKey peerReliable asked registered signed
    exact still_verifies_iff ideal storedReliable peerReliable columns readings sizes message present
      (lamports message present) interval after inside request asked privKey registered signed
  · intro author v
    refine ⟨_, add_new_message_run storedReliable author v, ?_⟩
    rw [stores, List.map_append, Replica.store_append]
    rfl
  · intro key text last
    have value := found key
    rw [last] at value
    rw [KeyValueDao.getStringValue, KeyValueDao.get_value_run keptReliable, value,
      ← c_string_eq_iff]
    simp [Sql.Value.columnText, Sql.Value.bytes]

/-- One message and one text, both without NUL. -/
theorem store_returns_iff_sample :
    ∃ stored kept, (MessagesDao.insertMessages [⟨sampleMessage, sampleSignature⟩]).run
        sampleReplica = .ok () stored ∧
      (KeyValueDao.insertTextValues [(ascii "k", ascii "v")]).run sampleReplica = .ok () kept ∧
      Returned stored ⟨sampleMessage, sampleSignature⟩ ⟨1, 1⟩ ∧
      (KeyValueDao.getStringValue (ascii "k")).run kept = .ok (.ok (some (ascii "v"))) kept := by
  obtain ⟨stored, kept, storedRan, keptRan, messages, _, strings⟩ :=
    store_returns_iff Sodium.transparent_ideal sampleReplica rfl rfl
      [⟨sampleMessage, sampleSignature⟩] (by simp [Sodium.transparent])
      (by simp only [List.mem_singleton, forall_eq]
          exact (Serde.chat_message_fits_iff _).mpr ⟨by decide, by decide⟩)
      (by simp only [List.mem_singleton, forall_eq]; decide) [(ascii "k", ascii "v")]
  obtain ⟨returned, _⟩ := messages _ (List.mem_singleton_self _) ⟨1, 1⟩ (by decide) (by decide)
  exact ⟨stored, kept, storedRan, keptRan, returned.mpr ⟨by decide, by decide, by decide⟩,
    (strings _ _ rfl).mpr (by decide)⟩

/-- A message with a NUL in its body. -/
def nulMessage : SignedChatMeesage := ⟨⟨ascii "a", 1, 5, [104, 0, 105]⟩, List.replicate 64 0⟩

/-- A body with a NUL is cut off when it is read. -/
theorem nul_message_not_returned :
    ¬ ∀ (inserted : List SignedChatMeesage) (stored : Replica),
      (∀ message ∈ inserted, 1 ≤ message.msg.lamport.toNat ∧
        message.msg.lamport.toNat < 2 ^ 63 ∧ message.sign.length = 64) →
      (MessagesDao.insertMessages inserted).run sampleReplica = .ok () stored →
      ∀ message ∈ inserted, ∀ interval : Interval,
        interval.start.toNat ≤ message.msg.lamport.toNat →
        message.msg.lamport.toNat < interval.start.toNat + interval.len.toNat →
          Returned stored message interval := by
  intro returns
  have reliable : sampleReplica.Reliable := rfl
  have returned := returns [nulMessage] _
    (by simp only [List.mem_singleton, forall_eq]; decide)
    (MessagesDao.insert_messages_run reliable [nulMessage]) nulMessage (List.mem_singleton_self _)
    ⟨1, 1⟩ (by decide) (by decide)
  have columns : (sampleReplica.store ([nulMessage].map MessagesDao.toColumns)).messages.columns =
      [nulMessage].map MessagesDao.toColumns := by
    rw [Replica.store_columns]
    rfl
  have preserved := (returned_iff columns nulMessage (List.mem_singleton_self _) (by decide) ⟨1, 1⟩
    (by decide) (by decide) (reliable.store _) rfl).mp returned
  exact preserved.2.1 (by decide)

end Log

end Replikon
