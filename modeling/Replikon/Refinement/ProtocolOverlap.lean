import Replikon.Refinement.KeyBinding

/-!
# What one protocol's signature is worth in the other one

Chat messages and key directory updates are signed by the same keys over bytes
that carry no type tag, and both start with a framed author. Behind it a chat
message has two 8-byte numbers and a framed body, and an update a 2-byte version,
an 8-byte count and as many bytes of the list's memory. The fields are aligned
here byte by byte, which decides when the two are the same bytes.

What `addKey` signs is no such payload: its total length is fixed by its first
number, and no chat message is that short.
-/

namespace Replikon.KeysCrdt

open Foundation ByteFraming

/-- The number that stands where an update has its version. -/
def readVersion (message : ChatMessage) : Nat := message.lamport.toNat % 2 ^ 16

/-- The number that stands where an update has its count of keys. -/
def readCount (message : ChatMessage) : Nat :=
  message.lamport.toNat / 2 ^ 16 + 2 ^ 48 * (message.originTs.toNat % 2 ^ 16)

/-- The bytes that stand where an update has those of its keys. -/
def readKeys (message : ChatMessage) : Buffer :=
  Serde.arithmetic 6 (message.originTs.toNat / 2 ^ 16) ++ Serde.string message.body

/-- The update says what its fields read in the bytes of the chat message. -/
def Overlap (layouts : Layouts) (message : ChatMessage) (contents : Contents) : Prop :=
  contents.1 = message.author ∧ contents.2.1.toNat = readVersion message ∧
    contents.2.2.length = readCount message ∧ emitted layouts contents.2.2 = readKeys message

instance overlapDecidable (layouts : Layouts) (message : ChatMessage) (contents : Contents) :
    Decidable (Overlap layouts message contents) := inferInstanceAs (Decidable (_ ∧ _ ∧ _ ∧ _))

/-- The bytes of a chat message, cut where an update has its fields. -/
theorem chat_message_framed (message : ChatMessage) :
    Serde.chatMessage message =
      lengthPrefixed 8 message.author ++ (littleEndian 2 (readVersion message) ++
        (littleEndian 8 (readCount message) ++ readKeys message)) := by
  obtain ⟨author, lamport, originTs, body⟩ := message
  have lamportBound := lamport.toNat_lt
  have originBound := originTs.toNat_lt
  have lamportCut : littleEndian 8 lamport.toNat =
      littleEndian 2 (lamport.toNat % 2 ^ 16) ++ littleEndian 6 (lamport.toNat / 2 ^ 16) := by
    rw [little_endian_append 2 6 _ _ (by omega)]
    congr 1
    omega
  have originCut : littleEndian 8 originTs.toNat =
      littleEndian 2 (originTs.toNat % 2 ^ 16) ++ littleEndian 6 (originTs.toNat / 2 ^ 16) := by
    rw [little_endian_append 2 6 _ _ (by omega)]
    congr 1
    omega
  have countJoined : littleEndian 6 (lamport.toNat / 2 ^ 16) ++
      littleEndian 2 (originTs.toNat % 2 ^ 16) =
        littleEndian 8 (lamport.toNat / 2 ^ 16 + 2 ^ 48 * (originTs.toNat % 2 ^ 16)) := by
    have power : 256 ^ 6 = 2 ^ 48 := by decide
    rw [little_endian_append 6 2 _ _ (by omega), power]
  have whole : Serde.chatMessage ⟨author, lamport, originTs, body⟩ =
      lengthPrefixed 8 author ++ (littleEndian 8 lamport.toNat ++
        (littleEndian 8 originTs.toNat ++ Serde.string body)) := by
    simp [Serde.chatMessage, Serde.tuple, Serde.string, Serde.arithmetic, lengthPrefixed]
  rw [whole, lamportCut, originCut]
  simp only [readVersion, readCount, readKeys, Serde.arithmetic, ← countJoined, List.append_assoc]

/-- The bytes `merge` verifies are those of a chat message exactly when the
fields overlap. -/
theorem to_check_eq_chat_message_iff (layouts : Layouts) (message : ChatMessage)
    (contents : Contents) (messageFits : message.author.length < 2 ^ 64)
    (contentsFit : Addressable contents) :
    toCheck layouts contents = Serde.chatMessage message ↔ Overlap layouts message contents := by
  rw [to_check_framed, chat_message_framed]
  constructor
  · intro same
    have lamportBound := message.lamport.toNat_lt
    have counted : readCount message < 256 ^ 8 := by
      unfold readCount
      omega
    have versioned : readVersion message < 256 ^ 2 := by
      unfold readVersion
      omega
    obtain ⟨authors, rest⟩ :=
      length_prefixed_append_injective 8 _ _ _ _ contentsFit.1 messageFits same
    obtain ⟨versions, lists⟩ :=
      little_endian_append_injective 2 _ _ _ _ (UInt16.toNat_lt _) versioned rest
    obtain ⟨lengths, bytes⟩ :=
      little_endian_append_injective 8 _ _ _ _ contentsFit.2 counted lists
    exact ⟨authors, versions, lengths, bytes⟩
  · rintro ⟨authors, versions, lengths, bytes⟩
    rw [authors, versions, lengths, bytes]

/-- An overlapping update lists fourteen keys and one more for each byte of the body. -/
theorem Overlap.count {layouts : Layouts} {message : ChatMessage} {contents : Contents}
    (overlap : Overlap layouts message contents) :
    contents.2.2.length = 14 + message.body.length := by
  have emittedLength : (emitted layouts contents.2.2).length = contents.2.2.length := by
    simp [emitted, Nat.min_eq_left (Serde.length_le_memory layouts.pair contents.2.2)]
  rw [← emittedLength, overlap.2.2.2, readKeys, List.length_append, Serde.string_length,
    Serde.arithmetic, little_endian_length]
  omega

/-- The bytes `addKey` signs are never those of a chat message: equal first
numbers would make the list as long as the author, and the message is longer. -/
theorem vector_ne_chat_message {T : Type} (layout : Serde.ObjectLayout T) (pairs : List T)
    (message : ChatMessage) (pairsFit : pairs.length < 2 ^ 64)
    (messageFits : message.author.length < 2 ^ 64) :
    Serde.vector layout pairs ≠ Serde.chatMessage message := by
  intro same
  have whole : Serde.chatMessage message =
      littleEndian 8 message.author.length ++ (message.author ++
        (littleEndian 2 (readVersion message) ++
          (littleEndian 8 (readCount message) ++ readKeys message))) := by
    rw [chat_message_framed, lengthPrefixed, List.append_assoc]
  have total := congrArg List.length same
  rw [Serde.vector_length, whole] at total
  rw [Serde.vector, Serde.arithmetic, whole] at same
  obtain ⟨lengths, _⟩ := little_endian_append_injective 8 _ _ _ _ pairsFit messageFits same
  simp only [List.length_append, little_endian_length] at total
  omega

variable {Signature : Type} (sodium : Sodium Signature) (layouts : Layouts)

/-- With ideal signatures and one key pair for both protocols: a signature made
on a chat message is accepted for an update exactly when the update's author has
the signer's key registered and the fields of the two overlap. A signature made
in `addKey` is never accepted for a chat message. -/
theorem signatures_interchange_iff (ideal : sodium.Ideal) (message : ChatMessage)
    (contents : Contents) (pairs : List (Author × PubKey)) (privKey : PrivKey) (replica : Replica)
    (reliable : replica.Reliable) (messageFits : message.author.length < 2 ^ 64)
    (contentsFit : Addressable contents) (pairsFit : pairs.length < 2 ^ 64) :
    (toCheck layouts contents = Serde.chatMessage message ↔ Overlap layouts message contents) ∧
    Serde.vector layouts.tuple pairs ≠ Serde.chatMessage message ∧
    ((SecurityProvider.isValid sodium (toCheck layouts)
        (sodium.signDetached (Serde.chatMessage message) privKey) contents.1 contents).run replica =
          .ok true replica ↔
      replica.registeredKey contents.1 = some (sodium.publicKey privKey) ∧
        Overlap layouts message contents) ∧
    ∀ author, (SecurityProvider.isValid sodium Serde.chatMessage
      (sodium.signDetached (Serde.vector layouts.tuple pairs) privKey) author message).run replica =
        .ok false replica := by
  have bytes := to_check_eq_chat_message_iff layouts message contents messageFits contentsFit
  have apart := vector_ne_chat_message layouts.tuple pairs message pairsFit messageFits
  refine ⟨bytes, apart, ?_, ?_⟩
  · rw [SecurityProvider.is_valid_run reliable]
    have accepted : (EStateM.Result.ok (replica.verifies sodium contents.1 (toCheck layouts contents)
        (sodium.signDetached (Serde.chatMessage message) privKey)) replica :
          EStateM.Result Stop Replica Bool) = .ok true replica ↔
        replica.verifies sodium contents.1 (toCheck layouts contents)
          (sodium.signDetached (Serde.chatMessage message) privKey) = true := by
      simp
    rw [accepted, replica.verifies_iff]
    have signed := ideal.verifies_signed (Serde.chatMessage message) privKey
    constructor
    · rintro ⟨key, registered, verified⟩
      obtain ⟨same, keys⟩ := ideal.verified_bytes verified signed
      exact ⟨keys ▸ registered, bytes.mp same⟩
    · rintro ⟨registered, overlap⟩
      exact ⟨_, registered, (bytes.mpr overlap).symm ▸ signed⟩
  · intro author
    rw [SecurityProvider.is_valid_run reliable]
    congr 1
    apply Bool.eq_false_iff.mpr
    intro valid
    obtain ⟨key, _, verified⟩ := (replica.verifies_iff sodium _ _ _).mp valid
    exact apart (ideal.verified_bytes (ideal.verifies_signed _ privKey) verified).1

/-- Fourteen keys of different authors, the empty name first. -/
def fourteenKeys : PubKeyMap :=
  (List.range 14).map fun index =>
    (List.replicate index 97, Sodium.transparent.publicKey (sampleKey (Fin.ofNat 256 index)))

/-- The version one and the count fourteen in one number, an early time and no body. -/
def disguisedMessage : ChatMessage := ⟨ascii "admin", 917505, 0, []⟩

theorem signatures_interchange_iff_sample :
    (SecurityProvider.isValid Sodium.transparent (toCheck sampleLayouts)
        (Sodium.transparent.signDetached (Serde.chatMessage disguisedMessage) (sampleKey 9))
          (ascii "admin") (ascii "admin", 1, fourteenKeys)).run
        (Knowing (ascii "admin") (Sodium.transparent.publicKey (sampleKey 9)) (sampleKey 9)) =
      .ok true
        (Knowing (ascii "admin") (Sodium.transparent.publicKey (sampleKey 9)) (sampleKey 9)) :=
  (signatures_interchange_iff Sodium.transparent sampleLayouts Sodium.transparent_ideal
    disguisedMessage (ascii "admin", 1, fourteenKeys) fourteenKeys (sampleKey 9)
    (Knowing (ascii "admin") (Sodium.transparent.publicKey (sampleKey 9)) (sampleKey 9)) rfl
    (by decide) ⟨by decide, by decide⟩ (by decide)).2.2.1.mpr
      ⟨knowing_registered _ _ _, by decide⟩

/-- The bytes signed for a chat message are the bytes verified for an update. -/
theorem disguised_message_collides :
    ¬ ((∀ (layouts : Layouts) (message : ChatMessage) (contents : Contents),
          Serde.chatMessage message ≠ toCheck layouts contents) ∧
        ∀ (layouts : Layouts) (pairs : List (Author × PubKey)) (message : ChatMessage),
          Serde.vector layouts.tuple pairs ≠ Serde.chatMessage message) := by
  rintro ⟨differ, _⟩
  exact differ sampleLayouts disguisedMessage (ascii "admin", 1, fourteenKeys) (by decide)

end Replikon.KeysCrdt
