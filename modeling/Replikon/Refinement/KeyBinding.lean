import Replikon.Model.KeysCrdt
import Replikon.Refinement.Authenticity

/-!
# What the admin's signature binds

`KeysCrdt::merge` verifies a signature over the encoding of author, version and
key list. The encoding frames the author and the version, and of the key list it
determines the length and as many raw bytes as there are keys. Ideal signatures
bind exactly that much.
-/

namespace Replikon.KeysCrdt

open Foundation ByteFraming

/-- What the signature of an update is checked over. -/
abbrev Contents := Author × Version × PubKeyMap

/-- The sizes in the contents are values of `size_t`. -/
def Addressable (contents : Contents) : Prop :=
  contents.1.length < 2 ^ 64 ∧ contents.2.2.length < 2 ^ 64

/-- The raw bytes of a key list that are encoded: one for each key. -/
def emitted (layouts : Layouts) (pubKeys : PubKeyMap) : Buffer :=
  (Serde.memory layouts.pair pubKeys).take pubKeys.length

/-- Different key lists under the same author and version, of the same length
and with the same emitted bytes. -/
def Confusable (layouts : Layouts) (first second : Contents) : Prop :=
  first.1 = second.1 ∧ first.2.1 = second.2.1 ∧ first.2.2.length = second.2.2.length ∧
    emitted layouts first.2.2 = emitted layouts second.2.2 ∧ first.2.2 ≠ second.2.2

/-- The encoding frames the author and the version; the list's length is in
front of the emitted bytes. -/
theorem to_check_framed (layouts : Layouts) (contents : Contents) :
    toCheck layouts contents =
      lengthPrefixed 8 contents.1 ++ (littleEndian 2 contents.2.1.toNat ++
        (littleEndian 8 contents.2.2.length ++ emitted layouts contents.2.2)) := by
  simp [toCheck, Serde.tuple, Serde.string, Serde.vector, Serde.arithmetic, lengthPrefixed,
    emitted]

/-- Two encodings are equal exactly when author, version, length and emitted
bytes are. -/
theorem to_check_eq_iff (layouts : Layouts) (first second : Contents)
    (firstFits : Addressable first) (secondFits : Addressable second) :
    toCheck layouts first = toCheck layouts second ↔
      first.1 = second.1 ∧ first.2.1 = second.2.1 ∧ first.2.2.length = second.2.2.length ∧
        emitted layouts first.2.2 = emitted layouts second.2.2 := by
  rw [to_check_framed, to_check_framed]
  constructor
  · intro same
    obtain ⟨authors, rest⟩ := length_prefixed_append_injective 8 _ _ _ _ firstFits.1 secondFits.1 same
    obtain ⟨versions, lists⟩ := little_endian_append_injective 2 _ _ _ _
      (UInt16.toNat_lt _) (UInt16.toNat_lt _) rest
    obtain ⟨lengths, bytes⟩ := little_endian_append_injective 8 _ _ _ _ firstFits.2 secondFits.2 lists
    exact ⟨authors, UInt16.toNat_inj.mp versions, lengths, bytes⟩
  · rintro ⟨authors, versions, lengths, bytes⟩
    rw [authors, versions, lengths, bytes]

variable {Signature : Type} (sodium : Sodium Signature) (layouts : Layouts)

/-- The check of `merge` accepts the update, under the given registered key. -/
def Accepts (replica : Replica) (key : PubKey) (update : Update Signature) : Prop :=
  replica.registeredKey update.author = some key ∧
    (SecurityProvider.isValid sodium (toCheck layouts) update.sign update.author
      (update.author, update.version, update.pubKeys)).run replica = .ok true replica

/-- No signature is accepted for both contents under one key, unless they are
the same. -/
def Binds (first second : Contents) : Prop :=
  ∀ (replica other : Replica) (key : PubKey) (sign : Signature), replica.Reliable →
    other.Reliable → Accepts sodium layouts replica key ⟨first.1, first.2.1, first.2.2, sign⟩ →
      Accepts sodium layouts other key ⟨second.1, second.2.1, second.2.2, sign⟩ → first = second

variable {sodium layouts}

/-- The check accepts what verifies under the registered key. -/
theorem accepts_iff {replica : Replica} (reliable : replica.Reliable) (key : PubKey)
    (update : Update Signature) :
    Accepts sodium layouts replica key update ↔
      replica.registeredKey update.author = some key ∧
        sodium.verifyDetached update.sign
          (toCheck layouts (update.author, update.version, update.pubKeys)) key = true := by
  rw [Accepts, SecurityProvider.is_valid_run reliable]
  constructor
  · rintro ⟨registered, checked⟩
    injection checked with valid _
    obtain ⟨found, same, verified⟩ := (replica.verifies_iff sodium _ _ _).mp valid
    rw [registered] at same
    injection same with same
    exact ⟨registered, same ▸ verified⟩
  · rintro ⟨registered, verified⟩
    refine ⟨registered, ?_⟩
    rw [(replica.verifies_iff sodium _ _ _).mpr ⟨key, registered, verified⟩]

/-- A replica that has one key registered. -/
def Knowing (author : Author) (key : PubKey) (privKey : PrivKey) : Replica :=
  { Replica.fresh false author key privKey [] with
    security := SecurityTable.empty.insertPublicOnly author key }

theorem knowing_registered (author : Author) (key : PubKey) (privKey : PrivKey) :
    (Knowing author key privKey).registeredKey author = some key := by
  simp [Knowing, Replica.registeredKey, SecurityTable.find, SecurityTable.insertPublicOnly,
    SecurityTable.upsert, SecurityTable.empty]

variable (sodium layouts)

/-- Ideal signatures bind two contents exactly when these are not confusable. -/
theorem binds_iff (ideal : sodium.Ideal) (first second : Contents) (firstFits : Addressable first)
    (secondFits : Addressable second) :
    Binds sodium layouts first second ↔ ¬ Confusable layouts first second := by
  have encodings := to_check_eq_iff layouts first second firstFits secondFits
  constructor
  · rintro binds ⟨authors, versions, lengths, bytes, different⟩
    have same := encodings.mpr ⟨authors, versions, lengths, bytes⟩
    let privKey : PrivKey := sampleKey 0
    let key := sodium.publicKey privKey
    let replica := Knowing first.1 key privKey
    have reliable : replica.Reliable := rfl
    have registered := knowing_registered first.1 key privKey
    have verified := ideal.verifies_signed (toCheck layouts first) privKey
    have equal := binds replica replica key
      (sodium.signDetached (toCheck layouts first) privKey) reliable reliable
      ((accepts_iff reliable key _).mpr ⟨registered, verified⟩)
      ((accepts_iff reliable key _).mpr ⟨authors ▸ registered, same ▸ verified⟩)
    exact different (congrArg (·.2.2) equal)
  · intro apart replica other key sign reliable otherReliable accepts acceptsOther
    obtain ⟨_, verified⟩ := (accepts_iff reliable key _).mp accepts
    obtain ⟨_, verifiedOther⟩ := (accepts_iff otherReliable key _).mp acceptsOther
    obtain ⟨authors, versions, lengths, bytes⟩ :=
      encodings.mp (ideal.verified_bytes verified verifiedOther).1
    by_contra different
    refine apart ⟨authors, versions, lengths, bytes, ?_⟩
    intro lists
    exact different (Prod.ext authors (Prod.ext versions lists))

/-- A directory with one key of author `a`. -/
def sampleContents (byte : Byte) : Contents :=
  (ascii "admin", 1, [(ascii "a", Sodium.transparent.publicKey (sampleKey byte))])

theorem binds_iff_sample :
    Binds Sodium.transparent sampleLayouts (sampleContents 1) (sampleContents 2) ↔
      ¬ Confusable sampleLayouts (sampleContents 1) (sampleContents 2) :=
  binds_iff Sodium.transparent sampleLayouts Sodium.transparent_ideal _ _
    ⟨by decide, by decide⟩ ⟨by decide, by decide⟩

/-- One signature is accepted for two directories that give `a` different keys. -/
theorem sample_contents_not_bound :
    ¬ Binds Sodium.transparent sampleLayouts (sampleContents 1) (sampleContents 2) := by
  intro binds
  let key := Sodium.transparent.publicKey (sampleKey 9)
  let replica := Knowing (ascii "admin") key (sampleKey 9)
  have reliable : replica.Reliable := rfl
  have registered := knowing_registered (ascii "admin") key (sampleKey 9)
  have same := binds replica replica key
    (Sodium.transparent.signDetached (toCheck sampleLayouts (sampleContents 1)) (sampleKey 9))
    reliable reliable
    ((accepts_iff reliable key _).mpr ⟨registered, by decide +kernel⟩)
    ((accepts_iff reliable key _).mpr ⟨registered, by decide +kernel⟩)
  exact absurd same (by decide)

end Replikon.KeysCrdt
