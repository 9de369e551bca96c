import Replikon.Foundation.Runs
import Replikon.Network.CausalDelivery
import Replikon.Refinement.Calls
import Replikon.Refinement.ProtocolOverlap
import Replikon.Refinement.RoundTrip

/-!
# Outsiders change nothing

The replicas are those of a group whose members register each other's keys only.
Every call of every replica may be made with any arguments: whoever is between
the members may hold back, repeat, reorder and make up what they send. What it
cannot do is sign for a member: a signature that verifies under a member's key
is for bytes that the member signed in the run before. Then every stored row is
a message that its author added, under the number the author gave it, and no
replica has other keys than those that were registered with it. Chat messages
and directory updates are told apart by their sizes only, which is why there is
a bound on how many messages a member adds.
-/

namespace Replikon.Network

open Foundation MessagesTable

variable {ι : Type} {Signature : Type} (sodium : Sodium Signature) (layouts : KeysCrdt.Layouts)
  (name : ι → Author) (start : ι → Replica)

/-- The replicas, and what their members have done: the messages that each added,
the keys that each registered and the bytes that were signed, with the signers. -/
structure World (ι : Type) where
  state : ι → Replica
  spoken : ι → List (UInt64 × Text)
  registered : ι → Text → Option PubKey
  signed : List (ι × Buffer)

/-- A call at a member. -/
abbrev Move (ι Signature : Type) := ι × Instance.Call Signature

/-- What a call has its author say. -/
def speaks : Instance.Call Signature → List (UInt64 × Text)
  | .addNewMessage _ v => [(v.originTs, v.body)]
  | _ => []

/-- Nothing has been done. -/
def World.initial : World ι where
  state := start
  spoken _ := []
  registered replica := (start replica).registeredKey
  signed := []

/-- One step. A call may stop; what it leaves goes on. -/
def conduct [DecidableEq ι] (world : World ι) (move : Move ι Signature) : Option (World ι) :=
  let (member, call) := move
  let replica := world.state member
  some
    { state := Function.update world.state member ((call.program sodium layouts).leaves replica)
      spoken := Function.update world.spoken member (world.spoken member ++ speaks call)
      registered := Function.update world.registered member
        (Instance.registers (world.registered member) call)
      signed := world.signed ++ (Instance.signs layouts replica call).map fun bytes => (member, bytes) }

/-- The key of a member. -/
def MemberKey (key : PubKey) : Prop := ∃ member, sodium.publicKey (start member).selfPrivKey = key

/-- If the signature verifies for the bytes under a member's key, then the owner of
the key has signed them. -/
def Unforged (world : World ι) (signature : Signature) (bytes : Buffer) : Prop :=
  ∀ member, sodium.verifyDetached signature bytes (sodium.publicKey (start member).selfPrivKey) =
    true → ∃ signer, sodium.publicKey (start signer).selfPrivKey =
      sodium.publicKey (start member).selfPrivKey ∧ (signer, bytes) ∈ world.signed

/-- What may happen. Members speak in their own names, register keys of members and
merge anything that is not forged. The sizes are values of `size_t`; a member
adds fewer than `14 * 2 ^ 16` messages, with bodies of less than `2 ^ 48 - 14` bytes. -/
def Permitted (world : World ι) : Move ι Signature → Prop
  | (member, .addNewMessage author v) =>
    author = name member ∧ v.author = name member ∧
      (world.spoken member).length + 1 < 14 * 2 ^ 16 ∧ v.body.length + 14 < 2 ^ 48
  | (_, .logMerge update) => ∀ offer ∈ Log.offers update,
    offer.message.author.length < 2 ^ 64 ∧ offer.message.body.length < 2 ^ 64 ∧
      Unforged sodium start world offer.signature (Serde.chatMessage offer.message)
  | (_, .keysMerge update) =>
    KeysCrdt.Addressable (update.author, update.version, update.pubKeys) ∧
      Unforged sodium start world update.sign
        (KeysCrdt.toCheck layouts (update.author, update.version, update.pubKeys))
  | (member, .addKey _ pubKey) =>
    MemberKey sodium start pubKey ∧ (world.state member).security.rows.length + 1 < 2 ^ 64
  | (_, .setAdmin _ pubKey) => MemberKey sodium start pubKey
  | _ => True

/-- The author added the message, as the one with its number. -/
def Genuine (spoken : ι → List (UInt64 × Text)) (message : ChatMessage) : Prop :=
  ∃ author number entry, (spoken author)[number]? = some entry ∧
    message = authoredMessage name author (entry, number + 1)

/-- The members start without messages, under distinct names, with keys of members
only and databases that do not fail. -/
structure Group : Prop where
  reliable : ∀ replica, (start replica).Reliable
  empty : ∀ replica, (start replica).messages.columns = []
  distinct : Function.Injective name
  sized : ∀ member, (name member).length < 2 ^ 64
  members : ∀ replica author key, (start replica).registeredKey author = some key →
    MemberKey sodium start key

/-- What protects a group through a run: what is signed is either a message of the
signer or a list of keys, and the messages are too few and too short to pass for
directory updates. -/
structure Guarded (world : World ι) : Prop where
  reliable : ∀ replica, (world.state replica).Reliable
  privKey : ∀ replica, (world.state replica).selfPrivKey = (start replica).selfPrivKey
  keys : ∀ replica, (world.state replica).registeredKey = world.registered replica
  members : ∀ replica author key, world.registered replica author = some key →
    MemberKey sodium start key
  genuine : ∀ replica, ∀ row ∈ (world.state replica).messages.columns,
    Genuine name world.spoken (Log.storedMessage row)
  complete : ∀ author number entry, (world.spoken author)[number]? = some entry →
    authoredRow sodium name start author (entry, number + 1) ∈
      (world.state author).messages.columns
  signed : ∀ signer bytes, (signer, bytes) ∈ world.signed →
    (∃ number entry, (world.spoken signer)[number]? = some entry ∧
      bytes = Serde.chatMessage (authoredMessage name signer (entry, number + 1))) ∨
    ∃ pairs : List (Author × PubKey), pairs.length < 2 ^ 64 ∧
      bytes = Serde.vector layouts.tuple pairs
  few : ∀ author, (world.spoken author).length < 14 * 2 ^ 16
  brief : ∀ author, ∀ entry ∈ world.spoken author, entry.2.length + 14 < 2 ^ 48

variable {sodium layouts name start} {world : World ι}

/-- The row of an authored message stores it. -/
theorem stored_authored (author : ι) (entry : (UInt64 × Text) × Nat) :
    Log.storedMessage (authoredRow sodium name start author entry) =
      authoredMessage name author entry :=
  Log.stored_message_row (⟨name author, sodium.signDetached
    (Serde.chatMessage (authoredMessage name author entry)) (start author).selfPrivKey,
      authoredMessage name author entry⟩ : Log.Offer Signature)

/-- A row that stores an authored message has its author and its number. -/
theorem authored_identity (author : ι) (entry : UInt64 × Text) (number : Nat) (row : MessageColumns)
    (same : Log.storedMessage row = authoredMessage name author (entry, number))
    (few : number < 2 ^ 63) :
    row.author = name author ∧ row.lamport.toInt = Int.ofNat number := by
  have lamport : row.lamport.toUInt64 = UInt64.ofNat number := congrArg ChatMessage.lamport same
  have small : (UInt64.ofNat number).toNat = number := by
    apply UInt64.toNat_ofNat_of_lt'
    rw [UInt64.size]
    omega
  have back := unsigned_value row.lamport
  have upper := row.lamport.toInt_lt
  have lower := row.lamport.le_toInt
  rw [lamport, small] at back
  refine ⟨congrArg ChatMessage.author same, ?_⟩
  split at back
  · exact back.symm
  · omega

/-- What `addKey` signs is no directory update: equal first numbers would make the
list as long as the author, and the update is longer. -/
theorem vector_ne_to_check (pairs : List (Author × PubKey)) (pairsFit : pairs.length < 2 ^ 64)
    (contents : KeysCrdt.Contents) (contentsFit : KeysCrdt.Addressable contents) :
    Serde.vector layouts.tuple pairs ≠ KeysCrdt.toCheck layouts contents := by
  intro same
  have total := congrArg List.length same
  rw [Serde.vector_length, KeysCrdt.to_check_framed] at total
  rw [Serde.vector, Serde.arithmetic, KeysCrdt.to_check_framed, ByteFraming.lengthPrefixed,
    List.append_assoc] at same
  obtain ⟨lengths, _⟩ := ByteFraming.little_endian_append_injective 8 _ _ _ _ pairsFit contentsFit.1
    same
  simp only [ByteFraming.lengthPrefixed, List.length_append, ByteFraming.little_endian_length]
    at total
  omega

/-- An early and short message is no directory update: the number that stands where
the update counts its keys is too small or too large. -/
theorem authored_ne_to_check (author : ι) (entry : UInt64 × Text) (number : Nat)
    (sized : (name author).length < 2 ^ 64) (few : number < 14 * 2 ^ 16)
    (brief : entry.2.length + 14 < 2 ^ 48) (contents : KeysCrdt.Contents)
    (contentsFit : KeysCrdt.Addressable contents) :
    KeysCrdt.toCheck layouts contents ≠
      Serde.chatMessage (authoredMessage name author (entry, number)) := by
  intro same
  have overlap := (KeysCrdt.to_check_eq_chat_message_iff layouts _ contents sized contentsFit).mp same
  have counted := overlap.count
  have small : (UInt64.ofNat number).toNat = number := by
    apply UInt64.toNat_ofNat_of_lt'
    rw [UInt64.size]
    omega
  have read : contents.2.2.length = number / 2 ^ 16 + 2 ^ 48 * (entry.1.toNat % 2 ^ 16) := by
    rw [overlap.2.2.1, KeysCrdt.readCount]
    simp only [authoredMessage, small]
  have body : (authoredMessage name author (entry, number)).body.length = entry.2.length := rfl
  omega

section Guarding

variable (guarded : Guarded sodium layouts name start world)
include guarded

/-- What verifies at a replica was signed by a member, if it is not forged. -/
theorem Guarded.signed_of_verifies {signature : Signature} {bytes : Buffer}
    (unforged : Unforged sodium start world signature bytes) (replica : ι) (author : Text)
    (verifies : (world.state replica).verifies sodium author bytes signature = true) :
    ∃ signer, (signer, bytes) ∈ world.signed := by
  obtain ⟨key, registered, checked⟩ := (Replica.verifies_iff sodium _ _ _ _).mp verifies
  rw [guarded.keys replica] at registered
  obtain ⟨member, rfl⟩ := guarded.members replica author key registered
  obtain ⟨signer, _, listed⟩ := unforged member checked
  exact ⟨signer, listed⟩

variable (group : Group sodium name start)
include group

/-- A directory update that is not forged passes no check. -/
theorem Guarded.update_refused (replica : ι) (update : KeysCrdt.Update Signature)
    (contentsFit : KeysCrdt.Addressable (update.author, update.version, update.pubKeys))
    (unforged : Unforged sodium start world update.sign
      (KeysCrdt.toCheck layouts (update.author, update.version, update.pubKeys))) :
    KeysCrdt.checked sodium layouts (world.state replica) update = false := by
  refine Bool.eq_false_iff.mpr fun verifies => ?_
  obtain ⟨signer, listed⟩ := guarded.signed_of_verifies unforged replica update.author verifies
  rcases guarded.signed signer _ listed with ⟨number, entry, spoken, same⟩ | ⟨pairs, fits, same⟩
  · obtain ⟨below, _⟩ := List.getElem?_eq_some_iff.mp spoken
    have few := guarded.few signer
    have brief := guarded.brief signer entry (List.mem_of_getElem? spoken)
    exact authored_ne_to_check signer entry (number + 1) (group.sized signer) (by omega) brief _
      contentsFit same
  · exact vector_ne_to_check pairs fits _ contentsFit same.symm

/-- An offer that is not forged, if it verifies, is of a message that was added. -/
theorem Guarded.offer_genuine (replica : ι) (offer : Log.Offer Signature)
    (authorFits : offer.message.author.length < 2 ^ 64)
    (bodyFits : offer.message.body.length < 2 ^ 64)
    (unforged : Unforged sodium start world offer.signature (Serde.chatMessage offer.message))
    (verifies : offer.verifies sodium (world.state replica) = true) :
    Genuine name world.spoken offer.message := by
  obtain ⟨signer, listed⟩ := guarded.signed_of_verifies unforged replica offer.key verifies
  rcases guarded.signed signer _ listed with ⟨number, entry, spoken, same⟩ | ⟨pairs, fits, same⟩
  · refine ⟨signer, number, entry, spoken, ?_⟩
    have brief := guarded.brief signer entry (List.mem_of_getElem? spoken)
    refine Serde.chat_message_composed.round_trip.injective _ _
      ((Serde.chat_message_fits_iff _).mpr ⟨authorFits, bodyFits⟩)
      ((Serde.chat_message_fits_iff _).mpr ⟨group.sized signer, ?_⟩) same
    have body : (authoredMessage name signer (entry, number + 1)).body.length = entry.2.length := rfl
    omega
  · exact absurd same.symm (KeysCrdt.vector_ne_chat_message layouts.tuple pairs offer.message fits
      authorFits)

/-- A member's next message gets the number after those it has added. -/
theorem Guarded.next_message (member : ι) (v : ChatMessage) (own : v.author = name member) :
    Log.assigned (world.state member) (name member) v =
      authoredMessage name member ((v.originTs, v.body), (world.spoken member).length + 1) := by
  have few := guarded.few member
  have within : ∀ row ∈ (world.state member).messages.columns, row.author = name member →
      ∃ number, number ≤ (world.spoken member).length ∧ row.lamport.toInt = Int.ofNat number := by
    intro row stored named
    obtain ⟨author, number, entry, spoken, same⟩ := guarded.genuine member row stored
    obtain ⟨below, _⟩ := List.getElem?_eq_some_iff.mp spoken
    have limit := guarded.few author
    obtain ⟨author_same, lamport⟩ :=
      authored_identity author entry (number + 1) row same (by omega)
    obtain rfl := group.distinct (author_same.symm.trans named)
    exact ⟨number + 1, below, lamport⟩
  have reached : (world.spoken member).length = 0 ∨
      ∃ row ∈ (world.state member).messages.columns, row.author = name member ∧
        row.lamport.toInt = Int.ofNat (world.spoken member).length := by
    rcases Nat.eq_zero_or_pos (world.spoken member).length with empty | spoke
    · exact .inl empty
    · obtain ⟨number, equal⟩ := Nat.exists_eq_succ_of_ne_zero (Nat.pos_iff_ne_zero.mp spoke)
      have last := List.getElem?_eq_getElem (show number < (world.spoken member).length by omega)
      let entry := (world.spoken member)[number]
      have stored := guarded.complete member number entry last
      have same : Log.storedMessage (authoredRow sodium name start member (entry, number + 1)) =
          authoredMessage name member (entry, number + 1) := stored_authored member _
      obtain ⟨named, lamport⟩ := authored_identity member entry (number + 1) _ same (by omega)
      exact .inr ⟨_, stored, named, lamport.trans (congrArg Int.ofNat equal.symm)⟩
  have lamport := assigned_lamport_numbered (world.state member) (name member)
    (world.spoken member).length (by omega) within reached
  rw [Log.assigned, lamport, authoredMessage, ← own]

end Guarding

section Growing

variable [DecidableEq ι]

/-- What everyone has said after a call at a member. -/
abbrev spokenAfter (world : World ι) (member : ι) (call : Instance.Call Signature) :
    ι → List (UInt64 × Text) :=
  Function.update world.spoken member (world.spoken member ++ speaks call)

/-- What was said stays said. -/
theorem spoken_stays (member : ι) (call : Instance.Call Signature) (author : ι) (number : Nat)
    (entry : UInt64 × Text) (spoken : (world.spoken author)[number]? = some entry) :
    (spokenAfter world member call author)[number]? = some entry := by
  by_cases same : author = member
  · subst same
    obtain ⟨below, _⟩ := List.getElem?_eq_some_iff.mp spoken
    rw [spokenAfter, Function.update_self, List.getElem?_append_left below, spoken]
  · rw [spokenAfter, Function.update_of_ne same, spoken]

/-- What is said after a call was said before, or is what the call says. -/
theorem spoken_before (member : ι) (call : Instance.Call Signature) (author : ι) (number : Nat)
    (entry : UInt64 × Text) (spoken : (spokenAfter world member call author)[number]? = some entry) :
    (world.spoken author)[number]? = some entry ∨ author = member ∧
      (speaks call)[number - (world.spoken member).length]? = some entry ∧
        (world.spoken member).length ≤ number := by
  by_cases same : author = member
  · subst same
    rw [spokenAfter, Function.update_self] at spoken
    rcases Nat.lt_or_ge number (world.spoken author).length with below | beyond
    · rw [List.getElem?_append_left below] at spoken
      exact .inl spoken
    · rw [List.getElem?_append_right beyond] at spoken
      exact .inr ⟨rfl, spoken, beyond⟩
  · rw [spokenAfter, Function.update_of_ne same] at spoken
    exact .inl spoken

/-- A message that was added has been added later, too. -/
theorem Genuine.stays (member : ι) (call : Instance.Call Signature) {message : ChatMessage}
    (genuine : Genuine name world.spoken message) :
    Genuine name (spokenAfter world member call) message := by
  obtain ⟨author, number, entry, spoken, same⟩ := genuine
  exact ⟨author, number, entry, spoken_stays member call author number entry spoken, same⟩

variable (guarded : Guarded sodium layouts name start world) (group : Group sodium name start)
include guarded group

/-- The messages that a permitted call adds are genuine. -/
theorem Guarded.brought_genuine (member : ι) (call : Instance.Call Signature)
    (permitted : Permitted sodium layouts name start world (member, call)) (row : MessageColumns)
    (brought : row ∈ Instance.brings sodium (world.state member) call) :
    Genuine name (spokenAfter world member call) (Log.storedMessage row) := by
  cases call with
  | logMerge update =>
    obtain ⟨offer, accepted, rfl⟩ := List.mem_map.mp brought
    obtain ⟨offered, verifies⟩ := List.mem_filter.mp accepted
    obtain ⟨authorFits, bodyFits, unforged⟩ := permitted offer offered
    rw [Log.stored_message_row]
    exact (guarded.offer_genuine group member offer authorFits bodyFits unforged verifies).stays _ _
  | addNewMessage author v =>
    obtain ⟨rfl, own, _, _⟩ := permitted
    obtain rfl := List.mem_singleton.mp brought
    have stored : Log.storedMessage (Log.addedRow sodium (world.state member) (name member) v) =
        Log.assigned (world.state member) (name member) v :=
      Log.stored_message_row (⟨name member, sodium.signDetached (Serde.chatMessage
        (Log.assigned (world.state member) (name member) v)) (world.state member).selfPrivKey,
          Log.assigned (world.state member) (name member) v⟩ : Log.Offer Signature)
    refine ⟨member, (world.spoken member).length, (v.originTs, v.body), ?_, ?_⟩
    · rw [spokenAfter, Function.update_self]
      exact List.getElem?_concat_length
    · rw [stored, guarded.next_message group member v own]
  | logHeader => exact absurd brought List.not_mem_nil
  | logRequest header => exact absurd brought List.not_mem_nil
  | logUpdate request => exact absurd brought List.not_mem_nil
  | keysHeader => exact absurd brought List.not_mem_nil
  | keysRequest header => exact absurd brought List.not_mem_nil
  | keysUpdate request => exact absurd brought List.not_mem_nil
  | keysMerge update => exact absurd brought List.not_mem_nil
  | addKey author pubKey => exact absurd brought List.not_mem_nil
  | setAdmin admin pubKey => exact absurd brought List.not_mem_nil

/-- What a permitted call signs is a message of the signer or a list of keys. -/
theorem Guarded.signs_own (member : ι) (call : Instance.Call Signature)
    (permitted : Permitted sodium layouts name start world (member, call)) (bytes : Buffer)
    (signed : bytes ∈ Instance.signs layouts (world.state member) call) :
    (∃ number entry, (spokenAfter world member call member)[number]? = some entry ∧
      bytes = Serde.chatMessage (authoredMessage name member (entry, number + 1))) ∨
    ∃ pairs : List (Author × PubKey), pairs.length < 2 ^ 64 ∧
      bytes = Serde.vector layouts.tuple pairs := by
  cases call with
  | addNewMessage author v =>
    obtain ⟨rfl, own, _, _⟩ := permitted
    obtain rfl := List.mem_singleton.mp signed
    refine .inl ⟨(world.spoken member).length, (v.originTs, v.body), ?_, ?_⟩
    · rw [spokenAfter, Function.update_self]
      exact List.getElem?_concat_length
    · rw [guarded.next_message group member v own]
  | addKey author pubKey =>
    obtain rfl := List.mem_singleton.mp signed
    refine .inr ⟨_, ?_, rfl⟩
    have longer : (KeysCrdt.keyInserted (world.state member) author pubKey).security.rows.length ≤
        (world.state member).security.rows.length + 1 := by
      simp only [KeysCrdt.keyInserted, SecurityTable.insertPublicOnly, SecurityTable.upsert]
      split <;> simp
    rw [List.length_map]
    exact Nat.lt_of_le_of_lt longer permitted.2
  | logHeader => exact absurd signed List.not_mem_nil
  | logRequest header => exact absurd signed List.not_mem_nil
  | logUpdate request => exact absurd signed List.not_mem_nil
  | logMerge update => exact absurd signed List.not_mem_nil
  | keysHeader => exact absurd signed List.not_mem_nil
  | keysRequest header => exact absurd signed List.not_mem_nil
  | keysUpdate request => exact absurd signed List.not_mem_nil
  | keysMerge update => exact absurd signed List.not_mem_nil
  | setAdmin admin pubKey => exact absurd signed List.not_mem_nil

omit [DecidableEq ι] in
/-- What a permitted call says, it adds under the next number. -/
theorem Guarded.speaks_brings (member : ι) (call : Instance.Call Signature)
    (permitted : Permitted sodium layouts name start world (member, call)) (entry : UInt64 × Text)
    (offset : Nat) (said : (speaks call)[offset]? = some entry) :
    authoredRow sodium name start member (entry, (world.spoken member).length + offset + 1) ∈
      Instance.brings sodium (world.state member) call := by
  cases call with
  | addNewMessage author v =>
    obtain ⟨rfl, own, _, _⟩ := permitted
    obtain ⟨single, rfl⟩ : offset = 0 ∧ (v.originTs, v.body) = entry := by
      cases offset with
      | zero => exact ⟨rfl, Option.some.inj said⟩
      | succ offset => simp [speaks] at said
    subst single
    refine List.mem_singleton.mpr ?_
    rw [Log.addedRow, guarded.next_message group member v own, guarded.privKey member]
    rfl
  | logHeader => cases said
  | logRequest header => cases said
  | logUpdate request => cases said
  | logMerge update => cases said
  | keysHeader => cases said
  | keysRequest header => cases said
  | keysUpdate request => cases said
  | keysMerge update => cases said
  | addKey author pubKey => cases said
  | setAdmin admin pubKey => cases said

omit group in
/-- A permitted call stays within the bounds. -/
theorem Guarded.speaks_little (member : ι) (call : Instance.Call Signature)
    (permitted : Permitted sodium layouts name start world (member, call)) :
    (∀ author, (spokenAfter world member call author).length < 14 * 2 ^ 16) ∧
      ∀ author, ∀ entry ∈ spokenAfter world member call author, entry.2.length + 14 < 2 ^ 48 := by
  have said : (world.spoken member ++ speaks call).length < 14 * 2 ^ 16 ∧
      ∀ entry ∈ speaks call, entry.2.length + 14 < 2 ^ 48 := by
    have few := guarded.few member
    cases call with
    | addNewMessage author v =>
      obtain ⟨_, _, room, brief⟩ := permitted
      refine ⟨by simpa [speaks] using room, fun entry listed => ?_⟩
      obtain rfl := List.mem_singleton.mp listed
      exact brief
    | _ => exact ⟨by simpa [speaks] using few, fun _ none => absurd none List.not_mem_nil⟩
  constructor
  · intro author
    by_cases same : author = member
    · rw [same, spokenAfter, Function.update_self]
      exact said.1
    · rw [spokenAfter, Function.update_of_ne same]
      exact guarded.few author
  · intro author entry listed
    by_cases same : author = member
    · rw [same, spokenAfter, Function.update_self] at listed
      exact (List.mem_append.mp listed).elim (guarded.brief member entry) (said.2 entry)
    · rw [spokenAfter, Function.update_of_ne same] at listed
      exact guarded.brief author entry listed

omit [DecidableEq ι] in
/-- A permitted call registers keys of members only, and they are the ones in effect. -/
theorem Guarded.registers_members (member : ι) (call : Instance.Call Signature)
    (permitted : Permitted sodium layouts name start world (member, call)) :
    ((call.program sodium layouts).leaves (world.state member)).registeredKey =
        Instance.registers (world.registered member) call ∧
      ∀ author key, Instance.registers (world.registered member) call author = some key →
        MemberKey sodium start key := by
  have refused : ∀ update, call = .keysMerge update →
      KeysCrdt.checked sodium layouts (world.state member) update = false := by
    rintro update rfl
    exact guarded.update_refused group member update permitted.1 permitted.2
  refine ⟨?_, ?_⟩
  · rw [Instance.call_registers sodium layouts (guarded.reliable member) call refused,
      guarded.keys member]
  · intro author key registered
    have updated : ∀ (given : Text) (pubKey : PubKey), MemberKey sodium start pubKey →
        Function.update (world.registered member) given (some pubKey) author = some key →
          MemberKey sodium start key := by
      intro given pubKey known found
      rw [Function.update_apply] at found
      split at found
      · exact Option.some.inj found ▸ known
      · exact guarded.members member author key found
    cases call with
    | addKey given pubKey => exact updated given pubKey permitted.1 registered
    | setAdmin given pubKey => exact updated given pubKey permitted registered
    | _ => exact guarded.members member author key registered

/-- A permitted step keeps the group guarded. -/
theorem Guarded.step (move : Move ι Signature)
    (permitted : Permitted sodium layouts name start world move) (next : World ι)
    (stepped : conduct sodium layouts world move = some next) :
    Guarded sodium layouts name start next := by
  obtain ⟨member, call⟩ := move
  obtain rfl := Option.some.inj stepped
  have reliable := guarded.reliable member
  have kept := keeps_leaves (Instance.keeps_call sodium layouts call) (world.state member)
  have columns := Instance.call_brings sodium layouts reliable call
  obtain ⟨registered, known⟩ := guarded.registers_members group member call permitted
  obtain ⟨few, brief⟩ := guarded.speaks_little member call permitted
  refine ⟨?_, ?_, ?_, ?_, ?_, ?_, ?_, few, brief⟩
  · intro replica
    by_cases same : replica = member
    · rw [same]
      simp only [Function.update_self]
      exact changes_reliable kept reliable
    · simp only [Function.update_of_ne same]
      exact guarded.reliable replica
  · intro replica
    by_cases same : replica = member
    · rw [same]
      simp only [Function.update_self]
      exact (changes_identity kept).2.2.2.trans (guarded.privKey member)
    · simp only [Function.update_of_ne same]
      exact guarded.privKey replica
  · intro replica
    by_cases same : replica = member
    · rw [same]
      simp only [Function.update_self]
      exact registered
    · simp only [Function.update_of_ne same]
      exact guarded.keys replica
  · intro replica author key
    by_cases same : replica = member
    · rw [same]
      simp only [Function.update_self]
      exact known author key
    · simp only [Function.update_of_ne same]
      exact guarded.members replica author key
  · intro replica row stored
    by_cases same : replica = member
    · rw [same] at stored
      simp only [Function.update_self, columns] at stored
      rcases List.mem_append.mp stored with old | new
      · exact (guarded.genuine member row old).stays member call
      · exact guarded.brought_genuine group member call permitted row new
    · simp only [Function.update_of_ne same] at stored
      exact (guarded.genuine replica row stored).stays member call
  · intro author number entry spoken
    have held : authoredRow sodium name start author (entry, number + 1) ∈
        (world.state author).messages.columns ∨ author = member ∧
          authoredRow sodium name start author (entry, number + 1) ∈
            Instance.brings sodium (world.state member) call := by
      rcases spoken_before member call author number entry spoken with
        before | ⟨same, said, beyond⟩
      · exact .inl (guarded.complete author number entry before)
      · have brought := guarded.speaks_brings group member call permitted entry _ said
        rw [Nat.add_sub_cancel' beyond, ← same] at brought
        exact .inr ⟨same, same ▸ brought⟩
    by_cases same : author = member
    · subst same
      simp only [Function.update_self, columns]
      exact List.mem_append.mpr (held.imp_right And.right)
    · simp only [Function.update_of_ne same]
      exact held.resolve_right fun here => same here.1
  · intro signer bytes listed
    rcases List.mem_append.mp listed with old | new
    · refine (guarded.signed signer bytes old).imp_left ?_
      rintro ⟨number, entry, spoken, same⟩
      exact ⟨number, entry, spoken_stays member call signer number entry spoken, same⟩
    · obtain ⟨_, signed, same⟩ := List.mem_map.mp new
      obtain ⟨rfl, rfl⟩ := Prod.mk.inj same
      exact guarded.signs_own group member call permitted _ signed

end Growing

/-- At the start nothing has been done. -/
theorem Guarded.initially (group : Group sodium name start) :
    Guarded sodium layouts name start (World.initial start) := by
  refine ⟨group.reliable, fun _ => rfl, fun _ => rfl, group.members, ?_, ?_, ?_, ?_, ?_⟩
  · intro replica row stored
    have none : row ∈ (start replica).messages.columns := stored
    rw [group.empty replica] at none
    exact absurd none List.not_mem_nil
  · intro author number entry spoken
    cases spoken
  · intro signer bytes listed
    exact absurd listed List.not_mem_nil
  · intro author
    exact Nat.zero_lt_of_lt (by decide : 0 < 14 * 2 ^ 16)
  · intro author entry listed
    exact absurd listed List.not_mem_nil

end Replikon.Network
