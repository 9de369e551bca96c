import Replikon.Model.Serializer

/-!
# `serde::BufferView` and the decoders on it

The decoders of `serde.h` as they move over a view: a position in a buffer and a
size. Copying bytes out and consuming them are separate operations; each is a
violation where the source has no meaning or stops, so a decoder that returns
has neither read outside the view nor failed the assertion of `consume`.
-/

namespace Replikon.Serde

/-- `BufferView`: `data` is the offset of `_data` in the buffer that is viewed. -/
structure BufferView where
  buffer : Buffer
  data : Nat
  size : Nat
  inside : data + size ≤ buffer.length

/-- `BufferView(const Buffer &)`. -/
def BufferView.whole (buffer : Buffer) : BufferView := ⟨buffer, 0, buffer.length, by simp⟩

/-- The bytes ahead. -/
def BufferView.bytes (view : BufferView) : Buffer := (view.buffer.drop view.data).take view.size

/-- The view behind its first `n` bytes. -/
def BufferView.behind (view : BufferView) (n : Nat) (within : n ≤ view.size) : BufferView where
  buffer := view.buffer
  data := view.data + n
  size := view.size - n
  inside := by
    have inside := view.inside
    omega

/-- What a decoder must not do: fail the assertion of `consume`, or read bytes
outside the view. -/
inductive Violation where
  | assertion
  | outside
  deriving DecidableEq

/-- A function that takes the view by reference. -/
abbrev Reader := EStateM Violation BufferView

/-- `BufferView::consume`. -/
def BufferView.consume (n : Nat) : Reader Unit := fun view =>
  if within : n ≤ view.size then .ok () (view.behind n within) else .error .assertion view

/-- Copying `n` bytes from `data()` on, by `memcpy` or `assign`. -/
def BufferView.copy (n : Nat) : Reader Buffer := fun view =>
  if n ≤ view.size then .ok ((view.buffer.drop view.data).take n) view else .error .outside view

/-- `Serializer<T>::deserialize` for the arithmetic types and `std::byte`. -/
def deserializeArithmetic {T : Type} (scalar : Scalar T) : Reader (Option T) := do
  let view ← get
  if view.size < scalar.sizeof then pure none
  else
    let bytes ← BufferView.copy scalar.sizeof
    BufferView.consume scalar.sizeof
    pure (some (scalar.value bytes))

/-- `if (!opt.has_value()) return std::nullopt;`, before the value is used. -/
def ifRead {S T : Type} (read : Reader (Option S)) (next : S → Reader (Option T)) :
    Reader (Option T) := do
  match ← read with
  | none => pure none
  | some value => next value

/-- `Serializer<std::string>::deserialize`. -/
def deserializeString : Reader (Option Text) :=
  ifRead (deserializeArithmetic uint64) fun size => do
    let view ← get
    if view.size < size.toNat then pure none
    else
      let value ← BufferView.copy size.toNat
      BufferView.consume size.toNat
      pure (some value)

/-- The loop of `Serializer<std::array<T, N>>::deserialize`, over the items that
are still to be read. -/
def deserializeItems {T : Type} (deserialize : Reader (Option T)) :
    (N : Nat) → Reader (Option (List.Vector T N))
  | 0 => pure (some List.Vector.nil)
  | N + 1 =>
    ifRead deserialize fun item =>
      ifRead (deserializeItems deserialize N) fun items => pure (some (item ::ᵥ items))

/-- `Serializer<std::optional<T>>::deserialize`. -/
def deserializeOptional {T : Type} (deserialize : Reader (Option T)) :
    Reader (Option (Option T)) :=
  ifRead (deserializeArithmetic byte) fun flag =>
    if flag = 1 then ifRead deserialize fun value => pure (some (some value))
    else pure (some none)

/-- `Serializer<std::tuple<Args...>>::deserializeImpl`: the fold over `&&` reads
no component after one that cannot be read. -/
def deserializeTuple {First Rest : Type} (first : Reader (Option First))
    (rest : Reader (Option Rest)) : Reader (Option (First × Rest)) :=
  ifRead first fun value => ifRead rest fun later => pure (some (value, later))

/-- `deserialize` of `SERIALIZABLE`. -/
def deserializeStruct {Struct Fields : Type} (fields : Reader (Option Fields))
    (make : Fields → Struct) : Reader (Option Struct) :=
  ifRead fields fun value => pure (some (make value))

end Replikon.Serde
