import Replikon.Model.Serializer

/-!
# Decoding undoes encoding

The types that the serializers compose are closed under arrays, optionals,
tuples and structs, to any depth. Each combinator keeps the round trip, so by
induction on how a type is composed every serializer has it, and with it no two
values share an encoding and no encoding starts another one.
-/

namespace Replikon.Serde

open Foundation ByteFraming

mutual

/-- The serializers of the composable types. -/
inductive Composed : {T : Type} → Serializer T → Prop where
  | arithmetic {T : Type} (scalar : Scalar T) : Composed (ofScalar scalar)
  | string : Composed stringSerializer
  | array {T : Type} {item : Serializer T} (N : Nat) (composed : Composed item) :
      Composed (arraySerializer item N)
  | optional {T : Type} {item : Serializer T} (composed : Composed item) :
      Composed (optionalSerializer item)
  | monostate : Composed monostateSerializer
  | tuple {Args : Type} {args : Serializer Args} (components : Components args) : Composed args
  | serializable {Struct Fields : Type} {fields : Serializer Fields}
      (components : Components fields) (tie : Struct → Fields) (make : Fields → Struct)
      (restores : ∀ value, make (tie value) = value) : Composed (serializable fields tie make)

/-- The serializers of the tuples of composable types. -/
inductive Components : {T : Type} → Serializer T → Prop where
  | nil : Components tupleNil
  | cons {First Rest : Type} {first : Serializer First} {rest : Serializer Rest}
      (composed : Composed first) (components : Components rest) : Components (tupleCons first rest)

end

/-- The bytes of a scalar are read back, whatever follows them. -/
theorem scalar_round_trip {T : Type} (scalar : Scalar T) : (ofScalar scalar).RoundTrip := by
  intro value _ rest
  have length := scalar.image_length value
  have enough : ¬ (scalar.image value ++ rest).length < scalar.sizeof := by
    rw [List.length_append, length]
    omega
  simp only [ofScalar, enough, if_false, List.take_left' length, List.drop_left' length,
    scalar.value_image]

/-- The size in front of a string delimits it. -/
theorem string_round_trip : stringSerializer.RoundTrip := by
  intro value fits rest
  have sized : (UInt64.ofNat value.length).toNat = value.length := UInt64.toNat_ofNat_of_lt' fits
  have image : (ofScalar uint64).encode (UInt64.ofNat value.length) =
      arithmetic 8 value.length := by
    simp only [ofScalar, uint64, unsigned, sized]
  have prefixed := scalar_round_trip uint64 (UInt64.ofNat value.length) trivial (value ++ rest)
  rw [image] at prefixed
  have enough : ¬ (value ++ rest).length < value.length := by
    rw [List.length_append]
    omega
  simp only [stringSerializer, string, List.append_assoc, prefixed, Codec.andThen, sized, enough,
    if_false, List.take_left, List.drop_left]

/-- The flag tells whether a value follows. -/
theorem optional_round_trip {T : Type} {item : Serializer T} (roundTrip : item.RoundTrip) :
    (optionalSerializer item).RoundTrip := by
  intro value fits rest
  cases value with
  | none =>
    have flag := scalar_round_trip byte 0 trivial rest
    simp [optionalSerializer, flag, Codec.andThen]
  | some held =>
    have flag := scalar_round_trip byte 1 trivial (item.encode held ++ rest)
    have content := roundTrip held (fits held rfl) rest
    simp [optionalSerializer, flag, content, Codec.andThen]

/-- A flag other than one reads as no value. -/
example : (optionalSerializer (ofScalar byte)).decode [2, 7] = (some none, [7]) := by decide

mutual

/-- Every composed serializer round-trips, by induction on its composition. -/
theorem Composed.round_trip {T : Type} {serializer : Serializer T} :
    Composed serializer → serializer.RoundTrip
  | .arithmetic scalar => scalar_round_trip scalar
  | .string => string_round_trip
  | .array N composed => composed.round_trip.replicate N
  | .optional composed => optional_round_trip composed.round_trip
  | .monostate => Codec.unit_round_trip
  | .tuple components => components.round_trip
  | .serializable components _ _ restores => components.round_trip.via restores

/-- So does every tuple of them. -/
theorem Components.round_trip {T : Type} {serializer : Serializer T} :
    Components serializer → serializer.RoundTrip
  | .nil => Codec.unit_round_trip
  | .cons composed components => composed.round_trip.pair components.round_trip

end

/-- Over the whole format: decoding an encoding in front of anything returns the
value and leaves exactly what follows; different values have different
encodings; and no encoding is a proper prefix of another one. -/
theorem decode_undoes_encode {T : Type} {serializer : Serializer T} (composed : Composed serializer) :
    (∀ value, serializer.Fits value → ∀ rest,
      serializer.decode (serializer.encode value ++ rest) = (some value, rest)) ∧
    (∀ first second, serializer.Fits first → serializer.Fits second →
      serializer.encode first = serializer.encode second → first = second) ∧
    ∀ first second, serializer.Fits first → serializer.Fits second →
      serializer.encode first <+: serializer.encode second →
        serializer.encode first = serializer.encode second := by
  refine ⟨composed.round_trip, composed.round_trip.injective, ?_⟩
  intro first second firstFits secondFits starts
  exact congrArg serializer.encode
    (composed.round_trip.eq_of_prefix first second firstFits secondFits starts)

theorem chat_message_composed : Composed chatMessageSerializer :=
  .serializable (.cons .string (.cons (.arithmetic _) (.cons (.arithmetic _) (.cons .string .nil))))
    _ _ fun _ => rfl

/-- A chat message occurs when both its strings do. -/
theorem chat_message_fits_iff (value : ChatMessage) :
    chatMessageSerializer.Fits value ↔
      value.author.length < 2 ^ 64 ∧ value.body.length < 2 ^ 64 := by
  simp [chatMessageSerializer, serializable, Codec.via, tupleCons, tupleNil, Codec.pair, Codec.unit,
    stringSerializer, ofScalar]

/-- A chat message read back from the front of three more bytes. -/
theorem decode_undoes_encode_sample :
    chatMessageSerializer.decode (chatMessageSerializer.encode ⟨[97], 1, 2, [0, 255]⟩ ++ [7, 8, 9]) =
      (some ⟨[97], 1, 2, [0, 255]⟩, [7, 8, 9]) :=
  (decode_undoes_encode chat_message_composed).1 _
    ((chat_message_fits_iff _).mpr ⟨by decide, by decide⟩) _

end Replikon.Serde
