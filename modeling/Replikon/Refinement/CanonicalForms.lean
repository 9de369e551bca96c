import Replikon.Model.Formats

/-!
# Which accepted bytes are canonical

Decoded bytes are encoded again as the same number of bytes. They are the same
bytes unless a decoder takes several bytes for one value. Two do: the flag of an
optional is compared with one only, and a `bool` is true for every other byte
than zero. So the canonical inputs are those whose flags are zeros and ones.
-/

namespace Replikon.Serde

open Foundation ByteFraming

/-- Every byte string of its size is the memory of a value, as for the integers
and `std::byte`. -/
def Scalar.Exhaustive {T : Type} (scalar : Scalar T) : Prop :=
  ∀ bytes : Buffer, bytes.length = scalar.sizeof → scalar.image (scalar.value bytes) = bytes

mutual

/-- The type is built from integers, `std::byte` and `bool`. -/
def Format.Integral {T : Type} : Format T → Prop
  | .arithmetic scalar => scalar.Exhaustive
  | .bool => True
  | .string => True
  | .array item _ => item.Integral
  | .optional item => item.Integral
  | .monostate => True
  | .tuple args => args.Integral
  | .serializable fields _ => fields.Integral

def Formats.Integral {T : Type} : Formats T → Prop
  | .nil => True
  | .cons first rest => first.Integral ∧ rest.Integral

end

/-- The byte at the front is a zero or a one. -/
def PlainFront (input : Buffer) : Prop := ∀ flag ∈ input.head?, flag = 0 ∨ flag = 1

mutual

/-- Every byte of the input that is decoded as the flag of an optional or as a
`bool` is a zero or a one. -/
def Format.PlainFlags {T : Type} : Format T → Buffer → Prop
  | .arithmetic _, _ => True
  | .bool, input => PlainFront input
  | .string, _ => True
  | .array item N, input => item.serializer.Each item.PlainFlags N input
  | .optional item, input =>
    PlainFront input ∧ (input.head? = some 1 → item.PlainFlags (input.drop 1))
  | .monostate, _ => True
  | .tuple args, input => args.PlainFlags input
  | .serializable fields _, input => fields.PlainFlags input

def Formats.PlainFlags {T : Type} : Formats T → Buffer → Prop
  | .nil, _ => True
  | .cons first rest, input =>
    first.PlainFlags input ∧ rest.PlainFlags (first.serializer.decode input).2

end

/-- An unsigned type whose values are all the numbers of its size. -/
theorem unsigned_exhaustive {T : Type} (sizeof : Nat) (sizeof_pos : 0 < sizeof) (toNat : T → Nat)
    (ofNat : Nat → T) (bounded : ∀ element, toNat element < 256 ^ sizeof)
    (restores : ∀ element, ofNat (toNat element) = element)
    (all : ∀ number, number < 256 ^ sizeof → toNat (ofNat number) = number) :
    (unsigned sizeof sizeof_pos toNat ofNat bounded restores).Exhaustive := by
  intro bytes length
  have sized : bytes.length = sizeof := length
  have bound := from_little_endian_lt bytes
  rw [sized] at bound
  have number := all _ bound
  have written := little_endian_from bytes
  rw [sized] at written
  simp only [unsigned, arithmetic, number, written]

theorem uint64_exhaustive : uint64.Exhaustive :=
  unsigned_exhaustive 8 _ _ _ _ _ fun _ bound => UInt64.toNat_ofNat_of_lt' bound

theorem byte_exhaustive : byte.Exhaustive :=
  unsigned_exhaustive 1 _ _ _ _ _ fun _ bound => Nat.mod_eq_of_lt bound

/-- The bytes of a scalar that was read. -/
theorem scalar_read {T : Type} {scalar : Scalar T} {input rest : Buffer} {value : T}
    (read : (ofScalar scalar).decode input = (some value, rest)) :
    value = scalar.value (input.take scalar.sizeof) ∧ input = input.take scalar.sizeof ++ rest ∧
      (input.take scalar.sizeof).length = scalar.sizeof := by
  simp only [ofScalar] at read
  by_cases short : input.length < scalar.sizeof
  · simp [short] at read
  · rw [if_neg short] at read
    cases read
    refine ⟨rfl, (List.take_append_drop _ _).symm, ?_⟩
    rw [List.length_take]
    omega

theorem scalar_canonical {T : Type} {scalar : Scalar T} (exhaustive : scalar.Exhaustive) :
    (ofScalar scalar).CanonicalOn fun _ => True := by
  intro input value rest read
  obtain ⟨rfl, whole, length⟩ := scalar_read read
  have same := exhaustive _ length
  exact ⟨_, whole, congrArg List.length same, iff_of_true same trivial⟩

/-- A `bool` is written as a zero or a one. -/
theorem bool_canonical : (ofScalar Serde.bool).CanonicalOn PlainFront := by
  intro input value rest read
  obtain ⟨rfl, whole, length⟩ := scalar_read read
  cases input with
  | nil => cases length
  | cons flag later =>
    refine ⟨[flag], whole, rfl, ?_⟩
    have written : (ofScalar Serde.bool).encode (Serde.bool.value [flag]) =
        [if flag = 0 then 0 else 1] := by
      by_cases zero : flag = 0
      · rw [zero]
        rfl
      · have nonzero : (flag.val != 0) = true := by
          rw [bne_iff_ne]
          exact fun same => zero (Fin.ext same)
        simp only [ofScalar, Serde.bool, unsigned, fromLittleEndian, Nat.mul_zero, Nat.add_zero,
          nonzero, if_neg zero]
        rfl
    have first : (flag :: later).take Serde.bool.sizeof = [flag] := rfl
    rw [first, written, List.cons.injEq, PlainFront]
    simp only [and_true, List.head?_cons, Option.mem_some_iff, forall_eq']
    by_cases zero : flag = 0
    · simp [zero]
    · simp [zero, eq_comm]

/-- The size in front of a string is that of the string. -/
theorem string_canonical : stringSerializer.CanonicalOn fun _ => True := by
  intro input value rest read
  obtain ⟨size, middle, readSize, readBytes⟩ := (Codec.and_then_eq_some _ _ _ _).mp read
  obtain ⟨consumed, whole, _, written⟩ := scalar_canonical uint64_exhaustive _ _ _ readSize
  by_cases short : middle.length < size.toNat
  · simp [short] at readBytes
  · rw [if_neg short] at readBytes
    cases readBytes
    have length : (middle.take size.toNat).length = size.toNat := by
      rw [List.length_take]
      omega
    have same : string (middle.take size.toNat) = consumed ++ middle.take size.toNat := by
      rw [string, length]
      exact congrArg (· ++ _) (written.mpr trivial)
    refine ⟨consumed ++ middle.take size.toNat, ?_, congrArg List.length same,
      iff_of_true same trivial⟩
    rw [List.append_assoc, List.take_append_drop]
    exact whole

/-- A flag is one byte. -/
theorem flag_encode (flag : Byte) : (ofScalar byte).encode flag = [flag] := by
  simp [ofScalar, byte, unsigned, arithmetic, littleEndian]

/-- Without a value the flag is written as zero, with one as one. -/
theorem optional_canonical {T : Type} {item : Serializer T} {canonical : Buffer → Prop}
    (canonicalOn : item.CanonicalOn canonical) :
    (optionalSerializer item).CanonicalOn fun input =>
      PlainFront input ∧ (input.head? = some 1 → canonical (input.drop 1)) := by
  intro input value rest read
  obtain ⟨flag, middle, readFlag, readValue⟩ := (Codec.and_then_eq_some _ _ _ _).mp read
  obtain ⟨consumed, whole, _, written⟩ := scalar_canonical byte_exhaustive _ _ _ readFlag
  have front : input = flag :: middle := by
    rw [whole, ← written.mpr trivial, flag_encode]
    rfl
  subst front
  simp only [PlainFront, List.head?_cons, Option.mem_some_iff, forall_eq', Option.some.injEq,
    List.drop_one, List.tail_cons]
  by_cases one : flag = 1
  · rw [if_pos one] at readValue
    obtain ⟨held, _, readHeld, made⟩ := (Codec.and_then_eq_some _ _ _ _).mp readValue
    cases made
    obtain ⟨later, wholeLater, lengthLater, writtenLater⟩ := canonicalOn _ _ _ readHeld
    refine ⟨flag :: later, congrArg (flag :: ·) wholeLater, ?_, ?_⟩
    · simp only [optionalSerializer, flag_encode, List.length_append, List.length_cons,
        List.length_nil, lengthLater]
      omega
    · simp [optionalSerializer, flag_encode, one, writtenLater]
  · rw [if_neg one] at readValue
    cases readValue
    refine ⟨[flag], rfl, ?_, ?_⟩
    · simp only [optionalSerializer, flag_encode, List.length_singleton]
    · simp [optionalSerializer, flag_encode, one, eq_comm]

mutual

/-- What is decoded at any type is encoded again as the same bytes exactly when
the flags are plain, by induction on the type. -/
theorem Format.canonical {T : Type} : (format : Format T) → format.Integral →
    format.serializer.CanonicalOn format.PlainFlags
  | .arithmetic _, exhaustive => scalar_canonical exhaustive
  | .bool, _ => bool_canonical
  | .string, _ => string_canonical
  | .array item N, integral => (item.canonical integral).replicate N
  | .optional item, integral => optional_canonical (item.canonical integral)
  | .monostate, _ => Codec.unit_canonical
  | .tuple args, integral => args.canonical integral
  | .serializable fields tie, integral => (fields.canonical integral).via tie.apply_symm_apply

theorem Formats.canonical {T : Type} : (formats : Formats T) → formats.Integral →
    formats.serializer.CanonicalOn formats.PlainFlags
  | .nil, _ => Codec.unit_canonical
  | .cons first rest, integral =>
    (first.canonical (And.left integral)).pair (rest.canonical (And.right integral))

end

/-- Decoded bytes are the encoding of the decoded value exactly when every byte
among them that is decoded as a flag or as a `bool` is a zero or a one. -/
theorem canonical_iff {T : Type} (format : Format T) (integral : format.Integral)
    (input : Buffer) (value : T) (rest : Buffer)
    (read : format.serializer.decode input = (some value, rest)) :
    format.serializer.encode value = input.take (input.length - rest.length) ↔
      format.PlainFlags input := by
  obtain ⟨consumed, rfl, _, written⟩ := format.canonical integral input value rest read
  rw [List.length_append, Nat.add_sub_cancel, List.take_left]
  exact written

theorem security_user_info_integral : securityUserInfoFormat.Integral :=
  ⟨trivial, byte_exhaustive, byte_exhaustive, trivial, trivial⟩

/-- A user without a name, with a key of zeros, a flag and no administrator. -/
def sampleUser (flag : Byte) : Buffer := List.replicate 40 0 ++ [flag, 0]

/-- The user that is decoded from it. -/
def sampleUserInfo : SecurityUserInfo := ⟨[], List.Vector.replicate 32 0, none, false⟩

theorem canonical_iff_sample :
    securityUserInfoFormat.serializer.encode sampleUserInfo =
        (sampleUser 0).take ((sampleUser 0).length - 0) ↔
      securityUserInfoFormat.PlainFlags (sampleUser 0) :=
  canonical_iff securityUserInfoFormat security_user_info_integral (sampleUser 0) sampleUserInfo []
    (by decide +kernel)

/-- A flag of two is decoded as no key, and no key is encoded as a flag of zero. -/
theorem other_flag_accepted :
    ¬ ∀ {T : Type} (format : Format T), format.Integral → ∀ (input : Buffer) (value : T)
      (rest : Buffer), format.serializer.decode input = (some value, rest) →
        format.serializer.encode value = input.take (input.length - rest.length) := by
  intro canonical
  have same := canonical securityUserInfoFormat security_user_info_integral (sampleUser 2)
    sampleUserInfo [] (by decide +kernel)
  exact absurd same (by decide +kernel)

end Replikon.Serde
