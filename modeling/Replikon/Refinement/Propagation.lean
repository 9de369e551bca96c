import Replikon.Refinement.Directory

/-!
# Why the key directory does not propagate

`addKey` signs the encoding of the key list alone; `merge` verifies the encoding
of author, version and key list. The second is always longer than the first was
when the list had as many keys or fewer. So no update built from a directory
that was signed in this way is ever taken in: the invariant says how every
stored signature came about, and no operation on any replica breaks it.
-/

namespace Replikon.KeysCrdt

open Foundation

variable {Signature : Type} (sodium : Sodium Signature) (layouts : Layouts)

/-- The bytes are a signature that `addKey` made over a key list of at most the
given length. -/
def SignedList (bytes : Buffer) (bound : Nat) : Prop :=
  ∃ (pubKeys : PubKeyMap) (privKey : PrivKey), pubKeys.length ≤ bound ∧
    bytes = sodium.toBytes (sodium.signDetached (Serde.vector layouts.tuple pubKeys) privKey)

/-- A directory with a version has the signature of a key list no longer than
its table. -/
structure Signed (replica : Replica) : Prop where
  reliable : replica.Reliable
  signature : persistedVersion replica ≠ 0 → ∃ bytes, persistedSignature replica = some bytes ∧
    SignedList sodium layouts bytes replica.security.rows.length

/-- The replicas that the operations of the key directory lead to, in any order
and between any replicas. An update may be merged at any time after it was
built, any number of times. -/
inductive Reached : Replica → Prop where
  | fresh (ndebug : Bool) (self : Author) (pubKey : PubKey) (privKey : PrivKey)
      (stack : List SqliteResult) : Reached (.fresh ndebug self pubKey privKey stack)
  | setAdmin (replica after : Replica) (admin : Author) (pubKey : PubKey)
      (reached : Reached replica) (ran : (setAdmin admin pubKey).run replica = .ok () after) :
      Reached after
  | addKey (replica after : Replica) (author : Author) (pubKey : PubKey)
      (reached : Reached replica)
      (ran : (addKey sodium layouts author pubKey).run replica = .ok () after) : Reached after
  | offer (replica after : Replica) (header : Header) (reached : Reached replica)
      (ran : getHeader.run replica = .ok header after) : Reached after
  | ask (replica after : Replica) (header : Header) (request : Option Request)
      (reached : Reached replica) (ran : (getRequest header).run replica = .ok request after) :
      Reached after
  | serve (replica after : Replica) (request : Request) (update : Update Signature)
      (reached : Reached replica)
      (ran : (getUpdate sodium request).run replica = .ok update after) : Reached after
  | receive (source sourceAfter puller after : Replica) (request : Request)
      (update : Update Signature) (status : MergeStatus) (sourceReached : Reached source)
      (built : (getUpdate sodium request).run source = .ok update sourceAfter)
      (pullerReached : Reached puller)
      (ran : (merge sodium layouts update).run puller = .ok status after) : Reached after

/-- The update carries the signature of a key list no longer than its own. -/
def Built (update : Update Signature) : Prop :=
  update.version ≠ 0 → ∃ (pubKeys : PubKeyMap) (privKey : PrivKey),
    pubKeys.length ≤ update.pubKeys.length ∧
      update.sign = sodium.signDetached (Serde.vector layouts.tuple pubKeys) privKey

variable {sodium layouts}

/-- An upsert removes no row. -/
theorem upsert_length (table : SecurityTable) (inserted : SecurityRow)
    (update : SecurityRow → PubKey × Option PrivKey × Bool) :
    table.rows.length ≤ (table.upsert inserted update).rows.length := by
  unfold SecurityTable.upsert
  split <;> simp

/-- Reading a version keeps the invariant. -/
theorem Signed.settled {replica : Replica} (signed : Signed sodium layouts replica) :
    Signed sodium layouts (settled replica) := by
  refine ⟨settled_reliable signed.reliable, ?_⟩
  rw [settled_version, settled_signature, settled_security]
  exact signed.signature

/-- A replica with a larger table and the same version and signature keeps it too. -/
theorem Signed.grow {replica after : Replica} (signed : Signed sodium layouts replica)
    (reliable : after.Reliable) (keyValue : after.keyValue = replica.keyValue)
    (grown : replica.security.rows.length ≤ after.security.rows.length) :
    Signed sodium layouts after := by
  refine ⟨reliable, ?_⟩
  have version : persistedVersion after = persistedVersion replica := by
    rw [persistedVersion, persistedVersion, keyValue]
  have signature : persistedSignature after = persistedSignature replica := by
    rw [persistedSignature, persistedSignature, keyValue]
  rw [version, signature]
  intro versioned
  obtain ⟨bytes, stored, pubKeys, privKey, few, same⟩ := signed.signature versioned
  exact ⟨bytes, stored, pubKeys, privKey, few.trans grown, same⟩

/-- A request changes nothing but a missing version. -/
theorem get_request_ensures {replica : Replica} (reliable : replica.Reliable) (header : Header) :
    Ensures (getRequest header) replica fun _ after => after = settled replica := by
  refine (get_header_ensures reliable).bind ?_
  rintro stored after ⟨_, rfl⟩
  refine (assert_ensures (stored.1 == header.1)).bind ?_
  rintro _ after rfl
  exact ensures_pure _ rfl

section Operations

variable {replica : Replica} (signed : Signed sodium layouts replica)
include signed

/-- `setAdmin` adds a row or updates one, and signs nothing. -/
theorem set_admin_keeps (admin : Author) (pubKey : PubKey) :
    Ensures (setAdmin admin pubKey) replica fun _ after => Signed sodium layouts after := by
  let inserted : Replica := { replica with
    security := replica.security.insertAdminPublicOnly admin pubKey
    stack := replica.stack.tail }
  have kept : Signed sodium layouts inserted :=
    signed.grow signed.reliable rfl (upsert_length _ _ _)
  have stored : Ensures (SecurityDao.insertAdminPublicKey admin pubKey) replica
      fun _ after => after = inserted :=
    ensures_of_run _ _ (SecurityDao.insert_key_run signed.reliable _ _ _) rfl
  refine stored.bind ?_
  rintro res after rfl
  refine (assert_ensures (res == .ok)).mono ?_
  rintro _ after rfl
  exact kept

/-- `addKey` signs the list that it leaves. -/
theorem add_key_keeps (author : Author) (pubKey : PubKey) :
    Ensures (addKey sodium layouts author pubKey) replica
      fun _ after => Signed sodium layouts after := by
  refine ensures_of_run _ _ (add_key_run signed.reliable author pubKey)
    ⟨key_added_reliable _ _ _ signed.reliable, fun _ => ⟨_, key_added_signature _ _ _ _, ?_⟩⟩
  refine ⟨(keyInserted replica author pubKey).security.rows.map SecurityDao.publicKey,
    replica.selfPrivKey, ?_, rfl⟩
  simp [keyInserted]

/-- An update that a replica builds carries the stored signature. -/
theorem get_update_ensures (request : Request) :
    Ensures (getUpdate sodium request) replica fun update after =>
      Built sodium layouts update ∧ Signed sodium layouts after := by
  intro built after ran
  have cases := template_get_update_cases signed.reliable (ed25519 sodium layouts) request
  rw [ed25519_get_update, ran] at cases
  rcases cases with ⟨update, offers, updated⟩ | ⟨reason, stopped, _, stops⟩
  · injection updated with sameUpdate sameAfter
    subst sameUpdate sameAfter
    refine ⟨fun versioned => ?_, signed.settled⟩
    obtain ⟨bytes, stored, reading⟩ := offers.sign
    obtain ⟨other, storedOther, pubKeys, privKey, few, rfl⟩ :=
      signed.signature (offers.version ▸ versioned)
    rw [stored] at storedOther
    injection storedOther with same
    rw [same] at reading
    have reread := sodium.of_to_bytes
      (sodium.signDetached (Serde.vector layouts.tuple pubKeys) privKey)
    have sign := Option.some.inj (reading.symm.trans reread)
    exact ⟨pubKeys, privKey, by rw [offers.pubKeys, List.length_map]; exact few, sign⟩
  · cases stops

end Operations

/-- With ideal signatures no replica takes such an update in: the verified
encoding is longer than the signed one. -/
theorem merge_skips (ideal : sodium.Ideal) {replica : Replica} (reliable : replica.Reliable)
    (update : Update Signature) (built : Built sodium layouts update) :
    Ensures (merge sodium layouts update) replica fun status after =>
      status = .skipped ∧ after = settled replica := by
  intro status after ran
  cases known : getAdmin.run replica with
  | error reason stopped =>
    rw [← ed25519_merge, template_merge_unknown_run _ known] at ran
    cases ran
  | ok admin unchanged =>
    obtain rfl := get_admin_ensures reliable admin unchanged known
    rw [merge_run reliable known] at ran
    split_ifs at ran with stops old valid
    · injection ran with sameStatus sameAfter
      exact ⟨sameStatus.symm, sameAfter.symm⟩
    · have versioned : update.version ≠ 0 := by
        intro zero
        rw [zero] at old
        exact old (UInt16.zero_le)
      obtain ⟨pubKeys, privKey, few, sign⟩ := built versioned
      obtain ⟨key, _, verified⟩ := (Replica.verifies_iff sodium _ _ _ _).mp valid
      obtain ⟨otherKey, _, same⟩ := (ideal.verifies_iff _ _ _).mp verified
      have encodings := (ideal.binds _ _ _ _ (sign.symm.trans same)).1
      have lengths := congrArg List.length encodings
      simp [toCheck, Serde.tuple, Serde.string_length, Serde.vector_length, Serde.arithmetic,
        ByteFraming.little_endian_length] at lengths
      omega
    · injection ran with sameStatus sameAfter
      exact ⟨sameStatus.symm, sameAfter.symm⟩

/-- Every reached replica has the invariant. -/
theorem reached_signed (ideal : sodium.Ideal) {replica : Replica}
    (reached : Reached sodium layouts replica) : Signed sodium layouts replica := by
  induction reached with
  | fresh ndebug self pubKey privKey stack =>
    exact ⟨rfl, fun versioned => absurd rfl versioned⟩
  | setAdmin replica after admin pubKey _ ran signed =>
    exact set_admin_keeps signed admin pubKey () after ran
  | addKey replica after author pubKey _ ran signed =>
    exact add_key_keeps signed author pubKey () after ran
  | offer replica after header _ ran signed =>
    obtain ⟨_, rfl⟩ := get_header_ensures signed.reliable header after ran
    exact signed.settled
  | ask replica after header request _ ran signed =>
    obtain rfl := get_request_ensures signed.reliable header request after ran
    exact signed.settled
  | serve replica after request update _ ran signed =>
    exact (get_update_ensures signed request update after ran).2
  | receive source sourceAfter puller after request update status _ built _ ran signed pullerSigned =>
    have carried := (get_update_ensures signed request update sourceAfter built).1
    obtain ⟨_, rfl⟩ := merge_skips ideal pullerSigned.reliable update carried status after ran
    exact pullerSigned.settled

variable (sodium layouts)

/-- A complete pull is taken in, and then the puller has the version of the
source and finds every key of its table. -/
def Propagates (source puller : Replica) : Prop :=
  ∃ pulled, pull sodium layouts source puller = .ok pulled ∧ pulled.status = some .merged ∧
    persistedVersion pulled.puller = persistedVersion source ∧
    ∀ row ∈ source.security.rows, ∃ info,
      (SecurityDao.getUserInfo row.author).run pulled.puller =
        .ok (.ok (some info)) pulled.puller ∧ info.pubKey = row.publicKey

/-- The directory of a reached replica propagates to no other replica. -/
theorem directory_never_propagates (ideal : sodium.Ideal) (source puller : Replica)
    (reached : Reached sodium layouts source) (pullerReliable : puller.Reliable) :
    ¬ Propagates sodium layouts source puller := by
  rintro ⟨pulled, completes, status, _, _⟩
  have signed := reached_signed ideal reached
  unfold pull at completes
  cases offered : getHeader.run source with
  | error reason after => simp [offered] at completes
  | ok header sourceOffered =>
    obtain ⟨_, rfl⟩ := get_header_ensures signed.reliable header sourceOffered offered
    cases asked : (getRequest header).run puller with
    | error reason after => simp [offered, asked] at completes
    | ok request pullerAsked =>
      obtain rfl := get_request_ensures pullerReliable header request pullerAsked asked
      cases request with
      | none =>
        simp only [offered, asked] at completes
        injection completes with completes
        rw [← completes] at status
        exact absurd status (by simp)
      | some request =>
        cases built : (getUpdate sodium request).run (settled source) with
        | error reason after => simp [offered, asked, built] at completes
        | ok update sourceBuilt =>
          have carried := (get_update_ensures signed.settled request update sourceBuilt built).1
          cases merged : (merge sodium layouts update).run (settled puller) with
          | error reason after => simp [offered, asked, built, merged] at completes
          | ok mergeStatus pullerMerged =>
            obtain ⟨skipped, _⟩ := merge_skips ideal (settled_reliable pullerReliable) update carried
              mergeStatus pullerMerged merged
            simp only [offered, asked, built, merged] at completes
            injection completes with completes
            rw [← completes, skipped] at status
            exact absurd status (by simp)

/-- The admin's instance after `setAdmin`. -/
def sampleAdmin : Replica :=
  (setAdmin (ascii "r") (Sodium.transparent.publicKey (sampleKey 9))).leaves
    (.fresh false (ascii "r") (Sodium.transparent.publicKey (sampleKey 9)) (sampleKey 9) [])

/-- The admin's instance after one key was added. -/
def sampleDirectory : Replica :=
  (addKey Sodium.transparent sampleLayouts (ascii "a")
    (Sodium.transparent.publicKey (sampleKey 1))).leaves sampleAdmin

/-- Another instance that has the admin registered. -/
def sampleFollower : Replica :=
  (setAdmin (ascii "r") (Sodium.transparent.publicKey (sampleKey 9))).leaves
    (.fresh false (ascii "c") (Sodium.transparent.publicKey (sampleKey 4)) (sampleKey 4) [])

theorem sample_directory_reached : Reached Sodium.transparent sampleLayouts sampleDirectory :=
  .addKey sampleAdmin _ (ascii "a") (Sodium.transparent.publicKey (sampleKey 1))
    (.setAdmin _ _ (ascii "r") (Sodium.transparent.publicKey (sampleKey 9))
      (.fresh false (ascii "r") (Sodium.transparent.publicKey (sampleKey 9)) (sampleKey 9) []) rfl) rfl

theorem directory_never_propagates_sample :
    ¬ Propagates Sodium.transparent sampleLayouts sampleDirectory sampleFollower :=
  directory_never_propagates Sodium.transparent sampleLayouts Sodium.transparent_ideal
    sampleDirectory sampleFollower sample_directory_reached rfl

/-- The admin's first key does not reach a follower with the same admin and
version zero. -/
theorem sample_directory_not_propagated :
    Reached Sodium.transparent sampleLayouts sampleDirectory ∧
      sampleFollower.registeredKey (ascii "r") = sampleDirectory.registeredKey (ascii "r") ∧
      persistedVersion sampleFollower < persistedVersion sampleDirectory ∧
      ¬ Propagates Sodium.transparent sampleLayouts sampleDirectory sampleFollower := by
  refine ⟨sample_directory_reached, by decide +kernel, by decide +kernel, ?_⟩
  rintro ⟨pulled, completes, status, _, _⟩
  have skipped : (pull Sodium.transparent sampleLayouts sampleDirectory sampleFollower).toOption.map
      (·.status) = some (some .skipped) := by decide +kernel
  rw [completes] at skipped
  simp [Except.toOption, status] at skipped

end Replikon.KeysCrdt
