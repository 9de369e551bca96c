import Replikon.Foundation.Codec
import Replikon.Model.Serde

/-!
# `serde::Serializer`

The composable serializers of `serde.h` with their decoders, and the instances
of `types.h`. A `BufferView` is the bytes still ahead; a decoder consumes from
its front and may have consumed when it fails. What `Fits` excludes are strings
whose size is no 64-bit `size_t`; such strings do not exist on the machine.
-/

namespace Replikon.Serde

open Foundation ByteFraming

/-- `Serializer<T>`, both directions. -/
abbrev Serializer (T : Type) := Codec Byte T

/-- An arithmetic type or `std::byte`: the bytes of its values in memory, and
the value that `memcpy` makes of such bytes. -/
structure Scalar (T : Type) extends ObjectLayout T where
  value : Buffer → T
  value_image : ∀ element, value (image element) = element

/-- `Serializer<T>` for the arithmetic types and `std::byte`. -/
def ofScalar {T : Type} (scalar : Scalar T) : Serializer T where
  encode := scalar.image
  decode view :=
    if view.length < scalar.sizeof then (none, view)
    else (some (scalar.value (view.take scalar.sizeof)), view.drop scalar.sizeof)
  Fits _ := True

/-- An unsigned type of the given size. -/
def unsigned {T : Type} (sizeof : Nat) (sizeof_pos : 0 < sizeof) (toNat : T → Nat)
    (ofNat : Nat → T) (bounded : ∀ element, toNat element < 256 ^ sizeof)
    (restores : ∀ element, ofNat (toNat element) = element) : Scalar T where
  sizeof := sizeof
  image element := arithmetic sizeof (toNat element)
  sizeof_pos := sizeof_pos
  image_length element := little_endian_length sizeof (toNat element)
  value bytes := ofNat (fromLittleEndian bytes)
  value_image element := by
    rw [arithmetic, from_little_endian, Nat.mod_eq_of_lt (bounded element), restores]

/-- `uint64_t` and `size_t`. -/
def uint64 : Scalar UInt64 :=
  unsigned 8 (by decide) UInt64.toNat UInt64.ofNat (fun element => element.toNat_lt)
    fun element => element.ofNat_toNat

/-- `uint16_t`. -/
def uint16 : Scalar UInt16 :=
  unsigned 2 (by decide) UInt16.toNat UInt16.ofNat (fun element => element.toNat_lt)
    fun element => element.ofNat_toNat

/-- `std::byte` and `char`. -/
def byte : Scalar Byte :=
  unsigned 1 (by decide) Fin.val (Fin.ofNat 256) (fun element => element.isLt)
    fun element => Fin.ofNat_val_eq_self element

/-- `bool`. A byte other than zero and one is no value of the type, and C++ leaves
undefined what is read then (g++ keeps the byte); here it is read as true. -/
def bool : Scalar Bool :=
  unsigned 1 (by decide) Bool.toNat (fun number => number != 0)
    (fun element => by cases element <;> decide) fun element => by cases element <;> rfl

/-- `Serializer<std::string>`. -/
def stringSerializer : Serializer Text where
  encode := string
  decode view :=
    Codec.andThen ((ofScalar uint64).decode view) fun size view =>
      if view.length < size.toNat then (none, view)
      else (some (view.take size.toNat), view.drop size.toNat)
  Fits value := value.length < 2 ^ 64

/-- `Serializer<std::array<T, N>>`. -/
def arraySerializer {T : Type} (item : Serializer T) (N : Nat) : Serializer (List.Vector T N) :=
  item.replicate N

/-- `Serializer<std::optional<T>>`. Any flag but one stands for no value. -/
def optionalSerializer {T : Type} (item : Serializer T) : Serializer (Option T) where
  encode
    | none => (ofScalar byte).encode 0
    | some value => (ofScalar byte).encode 1 ++ item.encode value
  decode view :=
    Codec.andThen ((ofScalar byte).decode view) fun flag view =>
      if flag = 1 then Codec.andThen (item.decode view) fun value view => (some (some value), view)
      else (some none, view)
  Fits value := ∀ held ∈ value, item.Fits held

/-- `Serializer<std::monostate>`. -/
def monostateSerializer : Serializer Unit := Codec.unit

/-- `Serializer<std::tuple<>>`. -/
def tupleNil : Serializer Unit := Codec.unit

/-- `Serializer<std::tuple<First, Rest...>>`: a component that cannot be read
keeps the later ones from being read. -/
def tupleCons {First Rest : Type} (first : Serializer First) (rest : Serializer Rest) :
    Serializer (First × Rest) :=
  first.pair rest

/-- `SERIALIZABLE`: the serializer of the tuple that `Tie` makes of the fields;
`make` is the braced initialisation from them. -/
def serializable {Struct Fields : Type} (fields : Serializer Fields) (tie : Struct → Fields)
    (make : Fields → Struct) : Serializer Struct :=
  fields.via tie make

/-- `SERIALIZABLE(replikon::ChatMessage, 4)`. -/
def chatMessageSerializer : Serializer ChatMessage :=
  serializable
    (tupleCons stringSerializer
      (tupleCons (ofScalar uint64) (tupleCons (ofScalar uint64) (tupleCons stringSerializer tupleNil))))
    (fun v => (v.author, v.lamport, v.originTs, v.body, ()))
    fun (author, lamport, originTs, body, ()) => ⟨author, lamport, originTs, body⟩

end Replikon.Serde
