import Replikon.Model.Formats
import Replikon.Refinement.RoundTrip

/-!
# A cut encoding is noticed

A decoder looks at the size of what is ahead only to find out whether enough is
there, so what it read does not change when more follows. An encoding that was
cut short cannot be read: the missing bytes put back would be left over, but a
whole encoding leaves nothing.
-/

namespace Replikon.Serde

open Foundation

mutual

/-- The serializers of the format are the composed ones. -/
theorem Format.composed {T : Type} : (format : Format T) → Composed format.serializer
  | .arithmetic scalar => .arithmetic scalar
  | .bool => .arithmetic Serde.bool
  | .string => .string
  | .array item N => .array N item.composed
  | .optional item => .optional item.composed
  | .monostate => .monostate
  | .tuple args => .tuple args.components
  | .serializable fields tie => .serializable fields.components tie tie.symm tie.symm_apply_apply

theorem Formats.components {T : Type} : (formats : Formats T) → Components formats.serializer
  | .nil => .nil
  | .cons first rest => .cons first.composed rest.components

end

/-- Reading a fixed number of bytes, if they are there. -/
theorem stable_bytes {T : Type} (n : Nat) (value : Buffer → T) :
    Codec.StableRead fun view : Buffer =>
      if view.length < n then (none, view) else (some (value (view.take n)), view.drop n) := by
  intro input found rest read more
  dsimp only at read ⊢
  by_cases short : input.length < n
  · simp [short] at read
  · rw [if_neg short] at read
    cases read
    have enough : n ≤ input.length := Nat.not_lt.mp short
    have longer : ¬ (input ++ more).length < n := by
      rw [List.length_append]
      omega
    rw [if_neg longer, List.take_append_of_le_length enough, List.drop_append_of_le_length enough]

theorem scalar_stable {T : Type} (scalar : Scalar T) : (ofScalar scalar).Stable :=
  stable_bytes scalar.sizeof scalar.value

theorem string_stable : stringSerializer.Stable :=
  Codec.StableRead.andThen (scalar_stable uint64) fun size => stable_bytes size.toNat id

theorem optional_stable {T : Type} {item : Serializer T} (stable : item.Stable) :
    (optionalSerializer item).Stable := by
  refine Codec.StableRead.andThen (scalar_stable byte) fun flag => ?_
  by_cases one : flag = 1
  · simp only [if_pos one]
    exact Codec.StableRead.andThen stable fun _ => Codec.stable_read_pure _
  · simp only [if_neg one]
    exact Codec.stable_read_pure _

mutual

/-- Every composed serializer is stable, by induction on its composition. -/
theorem Composed.stable {T : Type} {serializer : Serializer T} :
    Composed serializer → serializer.Stable
  | .arithmetic scalar => scalar_stable scalar
  | .string => string_stable
  | .array N composed => composed.stable.replicate N
  | .optional composed => optional_stable composed.stable
  | .monostate => Codec.unit_stable
  | .tuple components => components.stable
  | .serializable components _ _ _ => components.stable.via

/-- So is every tuple of them. -/
theorem Components.stable {T : Type} {serializer : Serializer T} :
    Components serializer → serializer.Stable
  | .nil => Codec.unit_stable
  | .cons composed components => composed.stable.pair components.stable

end

/-- Over the whole format: a proper prefix of an encoding decodes to nothing, and
bytes that decode do so with anything appended, to the same value and leaving
what was left and what was appended. -/
theorem truncation_detected {T : Type} (format : Format T) :
    (∀ value, format.serializer.Fits value → ∀ cut, cut <+: format.serializer.encode value →
      cut ≠ format.serializer.encode value → (format.serializer.decode cut).1 = none) ∧
    ∀ input value rest, format.serializer.decode input = (some value, rest) →
      ∀ more, format.serializer.decode (input ++ more) = (some value, rest ++ more) :=
  ⟨format.composed.stable.truncated format.composed.round_trip, format.composed.stable⟩

/-- A chat message that lost the last byte of its body. -/
theorem truncation_detected_sample :
    (chatMessageFormat.serializer.decode
      ((chatMessageFormat.serializer.encode ⟨[97], 1, 2, [0, 255]⟩).take 34)).1 = none :=
  (truncation_detected chatMessageFormat).1 ⟨[97], 1, 2, [0, 255]⟩
    ((chat_message_fits_iff _).mpr ⟨by decide, by decide⟩) _ (List.take_prefix _ _) (by decide)

end Replikon.Serde
