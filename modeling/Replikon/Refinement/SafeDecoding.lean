import Replikon.Foundation.Ensures
import Replikon.Model.Formats

/-!
# Decoding arbitrary bytes is safe

A decoder moves the view forward by what its codec consumes and returns what its
codec reads. The two basic decoders compare with the size before they copy and
consume; the others are sequences of decoders. So no decoder reads outside its
view or fails an assertion, whatever the bytes are, and on success as on failure
a suffix of the input remains.
-/

namespace Replikon.Serde

open Foundation

section Views

variable (view : BufferView)

/-- As many bytes are ahead as the size says. -/
theorem BufferView.bytes_length : view.bytes.length = view.size := by
  have inside := view.inside
  rw [bytes, List.length_take, List.length_drop]
  omega

/-- Behind some bytes the others are ahead. -/
theorem BufferView.behind_bytes (n : Nat) (within : n ≤ view.size) :
    (view.behind n within).bytes = view.bytes.drop n := by
  rw [bytes, bytes, behind, List.drop_take, List.drop_drop]

/-- Going on twice. -/
theorem BufferView.behind_behind (first second : Nat) (within : first ≤ view.size)
    (further : second ≤ view.size - first) :
    (view.behind first within).behind second further =
      view.behind (first + second) (by omega) := by
  simp only [behind, mk.injEq, true_and]
  omega

/-- The view over a whole buffer has it ahead. -/
theorem BufferView.whole_bytes (buffer : Buffer) : (whole buffer).bytes = buffer := by
  simp [whole, bytes]

/-- Bytes within the view are copied. -/
theorem BufferView.copy_run (n : Nat) (within : n ≤ view.size) :
    (copy n).run view = .ok (view.bytes.take n) view := by
  have same : (view.buffer.drop view.data).take n = view.bytes.take n := by
    rw [bytes, List.take_take, Nat.min_eq_left within]
  simp only [EStateM.run, copy, if_pos within, same]

/-- Bytes within the view are consumed. -/
theorem BufferView.consume_run (n : Nat) (within : n ≤ view.size) :
    (consume n).run view = .ok () (view.behind n within) := by
  simp only [EStateM.run, consume, dif_pos within]

end Views

/-- From every view the decoder returns what is decoded from the bytes ahead and
goes on to what is left of them. -/
def Reads {T : Type} (reader : Reader (Option T)) (decode : Buffer → Option T × Buffer) : Prop :=
  ∀ view, ∃ count, ∃ within : count ≤ view.size,
    reader.run view = .ok (decode view.bytes).1 (view.behind count within) ∧
      (decode view.bytes).2 = view.bytes.drop count

/-- A decoder that reads nothing. -/
theorem reads_pure {T : Type} (value : Option T) :
    Reads (pure value) fun bytes => (value, bytes) :=
  fun _ => ⟨0, Nat.zero_le _, rfl, rfl⟩

/-- A decoder after one that could read its value starts where that one ended. -/
theorem Reads.andThen {S T : Type} {read : Reader (Option S)} {next : S → Reader (Option T)}
    {decode : Buffer → Option S × Buffer} {later : S → Buffer → Option T × Buffer}
    (first : Reads read decode) (second : ∀ value, Reads (next value) (later value)) :
    Reads (ifRead read next) fun bytes => Codec.andThen (decode bytes) later := by
  intro view
  obtain ⟨count, within, ran, left⟩ := first view
  simp only [ifRead]
  rw [bind_returned _ ran]
  cases decoded : decode view.bytes with
  | mk found rest =>
    rw [decoded] at left
    cases found with
    | none => exact ⟨count, within, rfl, left⟩
    | some value =>
      obtain ⟨further, inside, ranNext, leftNext⟩ := second value (view.behind count within)
      rw [view.behind_bytes, ← left] at ranNext leftNext
      refine ⟨count + further, ?_, ?_, ?_⟩
      · have bound : further ≤ view.size - count := inside
        omega
      · rw [← view.behind_behind count further within inside]
        exact ranNext
      · rw [Codec.andThen, leftNext, left, List.drop_drop]

/-- Copying and consuming as many bytes as were compared with the size. -/
theorem reads_bytes {T : Type} (n : Nat) (value : Buffer → T) :
    Reads (do
        let view ← get
        if view.size < n then pure none
        else
          let bytes ← BufferView.copy n
          BufferView.consume n
          pure (some (value bytes)))
      fun bytes =>
        if bytes.length < n then (none, bytes) else (some (value (bytes.take n)), bytes.drop n) := by
  intro view
  rw [bind_returned _ (show (get : Reader BufferView).run view = .ok view view from rfl)]
  simp only [view.bytes_length]
  by_cases short : view.size < n
  · rw [if_pos short, if_pos short]
    exact ⟨0, Nat.zero_le _, rfl, rfl⟩
  · have within : n ≤ view.size := Nat.not_lt.mp short
    rw [if_neg short, if_neg short, bind_returned _ (view.copy_run n within),
      bind_returned _ (view.consume_run n within)]
    exact ⟨n, within, rfl, rfl⟩

theorem reads_arithmetic {T : Type} (scalar : Scalar T) :
    Reads (deserializeArithmetic scalar) (ofScalar scalar).decode :=
  reads_bytes scalar.sizeof scalar.value

theorem reads_string : Reads deserializeString stringSerializer.decode :=
  (reads_arithmetic uint64).andThen fun size => reads_bytes size.toNat id

/-- By induction on the number of items. -/
theorem reads_items {T : Type} {reader : Reader (Option T)} {item : Serializer T}
    (reads : Reads reader item.decode) (N : Nat) :
    Reads (deserializeItems reader N) (item.decodeMany N) := by
  induction N with
  | zero => exact reads_pure _
  | succ N inductionHypothesis =>
    exact reads.andThen fun first => inductionHypothesis.andThen fun items => reads_pure _

theorem reads_optional {T : Type} {reader : Reader (Option T)} {item : Serializer T}
    (reads : Reads reader item.decode) :
    Reads (deserializeOptional reader) (optionalSerializer item).decode := by
  refine (reads_arithmetic byte).andThen fun flag => ?_
  by_cases one : flag = 1
  · simp only [if_pos one]
    exact reads.andThen fun value => reads_pure _
  · simp only [if_neg one]
    exact reads_pure _

mutual

/-- Every decoder of the format reads what its codec does, by induction on the type. -/
theorem Format.reads {T : Type} : (format : Format T) →
    Reads format.deserialize format.serializer.decode
  | .arithmetic scalar => reads_arithmetic scalar
  | .bool => reads_arithmetic Serde.bool
  | .string => reads_string
  | .array item N => reads_items item.reads N
  | .optional item => reads_optional item.reads
  | .monostate => reads_pure _
  | .tuple args => args.reads
  | .serializable fields _ => fields.reads.andThen fun _ => reads_pure _

/-- So does every decoder of a tuple. -/
theorem Formats.reads {T : Type} : (formats : Formats T) →
    Reads formats.deserialize formats.serializer.decode
  | .nil => reads_pure _
  | .cons first rest => first.reads.andThen fun _ => rest.reads.andThen fun _ => reads_pure _

end

/-- On any bytes the decoder of any type returns: it reads no byte outside the
view and fails no assertion. It returns what the codec decodes, and what remains
is a suffix of the input. -/
theorem decoding_safe {T : Type} (format : Format T) (bytes : Buffer) :
    ∃ result after, format.deserialize.run (BufferView.whole bytes) = .ok result after ∧
      after.bytes <:+ bytes ∧ (result, after.bytes) = format.serializer.decode bytes := by
  obtain ⟨count, within, ran, left⟩ := format.reads (BufferView.whole bytes)
  rw [BufferView.whole_bytes] at ran left
  refine ⟨_, _, ran, ?_, ?_⟩
  · rw [BufferView.behind_bytes, BufferView.whole_bytes]
    exact List.drop_suffix _ _
  · rw [BufferView.behind_bytes, BufferView.whole_bytes, ← left]

end Replikon.Serde
