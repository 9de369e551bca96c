import Replikon.Refinement.Merge

/-!
# Whose signature a merged row carries

`merge` checks a signature under the key registered for the map key of the
update, and inserts the message under the author it names itself. The row is
signed by its own author when the two have the same registered key; nothing in
`merge` compares them.
-/

namespace Replikon

/-- The public key registered for an author. -/
def Replica.registeredKey (replica : Replica) (author : Text) : Option PubKey :=
  (replica.security.find author).map (·.publicKey)

/-- A check verifies exactly under the registered key. -/
theorem Replica.verifies_iff {Signature : Type} (sodium : Sodium Signature) (replica : Replica)
    (author : Text) (bytes : Buffer) (signature : Signature) :
    replica.verifies sodium author bytes signature = true ↔
      ∃ key, replica.registeredKey author = some key ∧
        sodium.verifyDetached signature bytes key = true := by
  rw [Replica.verifies, Replica.registeredKey]
  cases replica.security.find author with
  | none => simp
  | some row => simp

namespace Log

variable {Signature : Type} (sodium : Sodium Signature)

/-- The message that a row stores. -/
def storedMessage (row : MessageColumns) : ChatMessage :=
  ⟨row.author, row.lamport.toUInt64, row.originTs.toUInt64, row.body⟩

/-- The signature of a row verifies, over the row's message, under the key
registered for the row's own author. -/
def ownSignature (replica : Replica) (row : MessageColumns) : Bool :=
  match sodium.ofBytes row.signature with
  | some signature =>
    replica.verifies sodium row.author (Serde.chatMessage (storedMessage row)) signature
  | none => false

/-- Every row that merging the update adds is signed by its own author. -/
def Authentic (replica : Replica) (update : Update Signature) : Prop :=
  ∃ status after added, (merge sodium update).run replica = .ok status after ∧
    after.messages.columns = replica.messages.columns ++ added ∧
    ∀ row ∈ added, ownSignature sodium replica row = true

variable {sodium}

/-- The row of an offer stores the offered message. -/
theorem stored_message_row (offer : Offer Signature) :
    storedMessage (offer.row sodium) = offer.message := by
  obtain ⟨key, signature, message⟩ := offer
  simp [storedMessage, Offer.row, MessagesDao.toColumns]

/-- The row of an offer is signed by its author exactly when the offered
signature verifies under the author's registered key. -/
theorem own_signature_row (replica : Replica) (offer : Offer Signature) :
    ownSignature sodium replica (offer.row sodium) =
      replica.verifies sodium offer.message.author (Serde.chatMessage offer.message)
        offer.signature := by
  have read : sodium.ofBytes (offer.row sodium).signature = some offer.signature :=
    sodium.of_to_bytes offer.signature
  rw [ownSignature, read, stored_message_row]
  rfl

/-- With ideal signatures, an offer that verifies under its map key verifies
under its author's key exactly when the two keys are one. -/
theorem author_verifies_iff (ideal : sodium.Ideal) (replica : Replica) (offer : Offer Signature)
    (valid : offer.verifies sodium replica = true) :
    replica.verifies sodium offer.message.author (Serde.chatMessage offer.message)
        offer.signature = true ↔
      replica.registeredKey offer.message.author = replica.registeredKey offer.key := by
  obtain ⟨key, registered, checked⟩ := (replica.verifies_iff sodium _ _ _).mp valid
  constructor
  · intro own
    obtain ⟨authorKey, authorRegistered, authorChecked⟩ := (replica.verifies_iff sodium _ _ _).mp own
    obtain ⟨_, same⟩ := ideal.verified_bytes authorChecked checked
    rw [authorRegistered, registered, same]
  · intro same
    exact (replica.verifies_iff sodium _ _ _).mpr ⟨key, same.trans registered, checked⟩

variable (sodium)

/-- All rows that a merge adds are signed by their own authors exactly when
every accepted message names an author with the key it was checked under. -/
theorem authentic_iff (ideal : sodium.Ideal) (replica : Replica) (reliable : replica.Reliable)
    (update : Update Signature) :
    Authentic sodium replica update ↔
      ∀ offer ∈ accepted sodium replica update,
        replica.registeredKey offer.message.author = replica.registeredKey offer.key := by
  have ran := @merge_run _ sodium _ reliable update
  have columns := replica.store_columns (acceptedRows sodium replica update)
  constructor
  · rintro ⟨status, after, added, again, stored, own⟩ offer member
    have same : replica.store (acceptedRows sodium replica update) = after := by
      rw [ran] at again
      injection again
    have rows : acceptedRows sodium replica update = added := by
      rw [← same, columns] at stored
      exact List.append_cancel_left stored
    have row := own (offer.row sodium) (rows ▸ List.mem_map_of_mem member)
    rw [own_signature_row] at row
    exact (author_verifies_iff ideal replica offer (List.mem_filter.mp member).2).mp row
  · intro matching
    refine ⟨_, _, acceptedRows sodium replica update, ran, columns, ?_⟩
    intro row member
    obtain ⟨offer, found, rfl⟩ := List.mem_map.mp member
    rw [own_signature_row]
    exact (author_verifies_iff ideal replica offer (List.mem_filter.mp found).2).mpr
      (matching offer found)

theorem authentic_iff_sample :
    Authentic Sodium.transparent sampleReplica sampleUpdate ↔
      ∀ offer ∈ accepted Sodium.transparent sampleReplica sampleUpdate,
        sampleReplica.registeredKey offer.message.author =
          sampleReplica.registeredKey offer.key :=
  authentic_iff Sodium.transparent Sodium.transparent_ideal sampleReplica rfl sampleUpdate

/-- A replica that knows a second author besides `a`. -/
def sharedReplica : Replica :=
  { sampleReplica with
    security := sampleReplica.security.insertPublicOnly (ascii "e")
      (Sodium.transparent.publicKey (sampleKey 3)) }

/-- A message in the name of `a`, signed by `e` and filed under `e`. -/
def forgedUpdate : Update Buffer :=
  Foundation.SortedMap.empty.insert (ascii "e")
    [(Sodium.transparent.signDetached (Serde.chatMessage sampleMessage) (sampleKey 3), sampleMessage)]

/-- The forged message is stored as a message of `a`. -/
theorem forged_update_not_authentic :
    ¬ Authentic Sodium.transparent sharedReplica forgedUpdate := by
  rintro ⟨status, after, added, ran, stored, own⟩
  have reliable : sharedReplica.Reliable := rfl
  rw [merge_run reliable] at ran
  injection ran with _ same
  subst same
  rw [Replica.store_columns] at stored
  have rows := List.append_cancel_left stored
  subst rows
  exact absurd own (by decide +kernel)

end Log

end Replikon
