import Replikon.Foundation.ByteFraming
import Replikon.Model.Types

/-!
# The byte encodings that are signed

Each `Serializer<T>::serialize` appends to a buffer; the functions here are the
appended bytes. `size_t` and the integers are written in the machine's own
order, taken little endian. A vector is written by `Serializer<std::vector<T>>`
as its length followed by `value.size()` raw bytes starting at `value.data()`:
as many bytes as there are elements, out of `sizeof(T)` bytes for each.
-/

namespace Replikon.Serde

open Foundation.ByteFraming

/-- How the compiler lays out a `T` in memory. The image of an element is the
`sizeof(T)` bytes found at its address. -/
structure ObjectLayout (T : Type) where
  sizeof : Nat
  image : T → Buffer
  sizeof_pos : 0 < sizeof
  image_length : ∀ element, (image element).length = sizeof

/-- `Serializer<T>` for the arithmetic types: `sizeof(T)` raw bytes. -/
def arithmetic (sizeof : Nat) (value : Nat) : Buffer := littleEndian sizeof value

/-- `Serializer<std::string>`. -/
def string (value : Text) : Buffer := arithmetic 8 value.length ++ value

/-- The bytes of a `std::vector<T>` in memory, from `value.data()` on. -/
def memory {T : Type} (layout : ObjectLayout T) (value : List T) : Buffer :=
  value.flatMap layout.image

/-- `Serializer<std::vector<T>>`: the pointer arithmetic is on bytes, so
`value.size()` bytes are inserted, not `value.size() * sizeof(T)`. -/
def vector {T : Type} (layout : ObjectLayout T) (value : List T) : Buffer :=
  arithmetic 8 value.length ++ (memory layout value).take value.length

/-- `Serializer<std::tuple<Args...>>`: the encodings of the components in order. -/
def tuple (components : List Buffer) : Buffer := components.flatten

/-- `SERIALIZABLE(replikon::ChatMessage, 4)`. -/
def chatMessage (value : ChatMessage) : Buffer :=
  tuple [string value.author, arithmetic 8 value.lamport.toNat,
    arithmetic 8 value.originTs.toNat, string value.body]

/-- The raw memory of a vector holds at least one byte for each element. -/
theorem length_le_memory {T : Type} (layout : ObjectLayout T) (value : List T) :
    value.length ≤ (memory layout value).length := by
  induction value with
  | nil => simp [memory]
  | cons element rest inductionHypothesis =>
    have room : 0 < (layout.image element).length := by
      rw [layout.image_length]
      exact layout.sizeof_pos
    simp only [memory, List.flatMap_cons, List.length_append, List.length_cons] at *
    omega

/-- A vector is encoded in eight bytes and one more for each element. -/
theorem vector_length {T : Type} (layout : ObjectLayout T) (value : List T) :
    (vector layout value).length = 8 + value.length := by
  have enough := length_le_memory layout value
  simp [vector, arithmetic, little_endian_length, Nat.min_eq_left enough]

/-- A string is encoded in eight bytes and its own. -/
theorem string_length (value : Text) : (string value).length = 8 + value.length := by
  simp [string, arithmetic, little_endian_length]

end Replikon.Serde
