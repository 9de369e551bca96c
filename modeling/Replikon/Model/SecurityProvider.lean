import Replikon.Model.SecurityDao

/-!
# `sec::ED25519SecurityProvider`

The signature functions of libsodium are parameters. The replicated types are
templates over the provider's `Signature`; only its bytes and their reading back
are used. The idealisation of Ed25519 is a hypothesis on the parameters, stated
here once: a signature verifies under a public key exactly for the bytes that
were signed with the matching private key.
-/

namespace Replikon

/-- The functions of libsodium that the provider calls, and the conversions
between a `Signature` and the bytes of a blob. A blob of another length than the
signature's has no reading. -/
structure Sodium (Signature : Type) where
  publicKey : PrivKey → PubKey
  signDetached : Buffer → PrivKey → Signature
  verifyDetached : Signature → Buffer → PubKey → Bool
  toBytes : Signature → Buffer
  ofBytes : Buffer → Option Signature
  of_to_bytes : ∀ signature, ofBytes (toBytes signature) = some signature
  to_of_bytes : ∀ bytes signature, ofBytes bytes = some signature → toBytes signature = bytes

/-- Ideal Ed25519. -/
structure Sodium.Ideal {Signature : Type} (sodium : Sodium Signature) : Prop where
  verifies_iff : ∀ signature bytes pubKey, sodium.verifyDetached signature bytes pubKey = true ↔
    ∃ privKey, sodium.publicKey privKey = pubKey ∧ signature = sodium.signDetached bytes privKey
  binds : ∀ bytes other privKey otherKey,
    sodium.signDetached bytes privKey = sodium.signDetached other otherKey →
      bytes = other ∧ sodium.publicKey privKey = sodium.publicKey otherKey

namespace SecurityProvider

variable {Signature : Type} (sodium : Sodium Signature) {T : Type} (serialize : T → Buffer)

/-- `sign`, for the `Serializer` of the value's type. -/
def sign (value : T) : Program Signature := do
  let replica ← get
  pure (sodium.signDetached (serialize value) replica.selfPrivKey)

/-- `isValid`, for the `Serializer` of the value's type. -/
def isValid (signature : Signature) (author : Text) (value : T) : Program Bool := do
  match ← SecurityDao.getUserInfo author with
  | .ok (some userInfo) =>
    pure (sodium.verifyDetached signature (serialize value) userInfo.pubKey)
  | _ => pure false

end SecurityProvider

/-- The signature verifies for the bytes under the key registered for the author. -/
def Replica.verifies {Signature : Type} (sodium : Sodium Signature) (replica : Replica)
    (author : Text) (bytes : Buffer) (signature : Signature) : Bool :=
  match replica.security.find author with
  | some row => sodium.verifyDetached signature bytes row.publicKey
  | none => false

namespace SecurityProvider

variable {Signature : Type} {sodium : Sodium Signature} {T : Type} {serialize : T → Buffer}

theorem sign_run (replica : Replica) (value : T) :
    (sign sodium serialize value).run replica =
      .ok (sodium.signDetached (serialize value) replica.selfPrivKey) replica := rfl

/-- On a reliable database the check looks the author's key up and verifies. -/
theorem is_valid_run {replica : Replica} (reliable : replica.Reliable) (signature : Signature)
    (author : Text) (value : T) :
    (isValid sodium serialize signature author value).run replica =
      .ok (replica.verifies sodium author (serialize value) signature) replica := by
  rw [isValid, bind_ok _ (SecurityDao.get_user_info_run reliable author)]
  unfold Replica.verifies
  cases replica.security.find author <;> rfl

end SecurityProvider

namespace Sodium.Ideal

variable {Signature : Type} {sodium : Sodium Signature} (ideal : sodium.Ideal)
include ideal

/-- A signature verifies for one byte string only. -/
theorem verified_bytes {signature : Signature} {bytes other : Buffer} {pubKey otherKey : PubKey}
    (first : sodium.verifyDetached signature bytes pubKey = true)
    (second : sodium.verifyDetached signature other otherKey = true) :
    bytes = other ∧ pubKey = otherKey := by
  obtain ⟨privKey, rfl, signed⟩ := (ideal.verifies_iff signature bytes pubKey).mp first
  obtain ⟨privOther, rfl, signedOther⟩ := (ideal.verifies_iff signature other otherKey).mp second
  exact ideal.binds bytes other privKey privOther (signed.symm.trans signedOther)

/-- An honest signature verifies under the signer's public key. -/
theorem verifies_signed (bytes : Buffer) (privKey : PrivKey) :
    sodium.verifyDetached (sodium.signDetached bytes privKey) bytes (sodium.publicKey privKey) =
      true :=
  (ideal.verifies_iff _ _ _).mpr ⟨privKey, rfl, rfl⟩

end Sodium.Ideal

/-- A scheme that meets the idealisation. As in libsodium the second half of a
private key is the public one; a signature shows the private key and the bytes. -/
def Sodium.transparent : Sodium Buffer where
  publicKey privKey := ⟨privKey.toList.drop 32, by simp⟩
  signDetached bytes privKey := privKey.toList ++ bytes
  verifyDetached signature bytes pubKey :=
    64 ≤ signature.length ∧ (signature.take 64).drop 32 = pubKey.toList ∧ signature.drop 64 = bytes
  toBytes := id
  ofBytes := some
  of_to_bytes _ := rfl
  to_of_bytes _ _ read := (Option.some.inj read).symm

theorem Sodium.transparent_ideal : Sodium.transparent.Ideal where
  verifies_iff signature bytes pubKey := by
    simp only [Sodium.transparent, decide_eq_true_eq]
    constructor
    · rintro ⟨long, key, rfl⟩
      refine ⟨⟨signature.take 64, by simpa using long⟩, List.Vector.eq _ _ ?_, ?_⟩
      · exact key
      · exact (List.take_append_drop 64 signature).symm
    · rintro ⟨⟨privKey, length⟩, rfl, rfl⟩
      refine ⟨by simp [length], ?_, ?_⟩
      · simp [List.take_append_of_le_length (Nat.le_of_eq length.symm),
          List.take_of_length_le (Nat.le_of_eq length)]
      · exact List.drop_left' length
  binds := by
    rintro bytes other ⟨privKey, length⟩ ⟨otherKey, otherLength⟩ same
    obtain ⟨keys, rest⟩ := List.append_inj same (length.trans otherLength.symm)
    have equal : privKey = otherKey := keys
    subst equal
    exact ⟨rest, rfl⟩

/-- A private key that repeats one byte. -/
def sampleKey (byte : Byte) : PrivKey := List.Vector.replicate 64 byte

end Replikon
