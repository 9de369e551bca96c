import Mathlib.Data.List.Flatten
import Replikon.Model.Serializer

/-!
# Which vectors survive their encoding

`Serializer<std::vector<T>>` writes the number of elements and then as many raw
bytes as there are elements. That is every element, and each as its own
serializer writes it, exactly if an element is one byte. Of longer elements the
last ones are cut off.
-/

namespace Replikon.Serde

open Foundation ByteFraming

variable {T : Type} (layout : ObjectLayout T) (encode : T → Buffer)

/-- The encoding determines the vector in front of anything, so it can be read
back up to its end; and it is the length followed by the elements as their own
serializer writes them. -/
structure Survives : Prop where
  determined : ∀ first second : List T, first.length < 2 ^ 64 → second.length < 2 ^ 64 →
    ∀ rest other, vector layout first ++ rest = vector layout second ++ other →
      first = second ∧ rest = other
  readable : ∃ decode : Buffer → Option (List T × Buffer), ∀ value, value.length < 2 ^ 64 →
    ∀ rest, decode (vector layout value ++ rest) = some (value, rest)
  agrees : ∀ value, vector layout value = arithmetic 8 value.length ++ value.flatMap encode

/-- An element is stored in one byte that determines it and is what its own
serializer writes. -/
structure OneByte : Prop where
  single : layout.sizeof = 1
  written : ∀ element, encode element = layout.image element
  injective : Function.Injective layout.image

/-- There is at most one element, written as one byte that fills its memory. -/
structure Lone : Prop where
  alone : ∀ first second : T, first = second
  filled : ∀ element, ∃ byte, encode element = [byte] ∧
    layout.image element = List.replicate layout.sizeof byte

/-- What is determined can be read back. -/
theorem readable_of_determined
    (determined : ∀ first second : List T, first.length < 2 ^ 64 → second.length < 2 ^ 64 →
      ∀ rest other, vector layout first ++ rest = vector layout second ++ other →
        first = second ∧ rest = other) :
    ∃ decode : Buffer → Option (List T × Buffer), ∀ value, value.length < 2 ^ 64 →
      ∀ rest, decode (vector layout value ++ rest) = some (value, rest) := by
  classical
  let Encodes (input : Buffer) (read : List T × Buffer) : Prop :=
    read.1.length < 2 ^ 64 ∧ input = vector layout read.1 ++ read.2
  refine ⟨fun input => if found : ∃ read, Encodes input read then some found.choose else none, ?_⟩
  intro value fits rest
  have found : ∃ read, Encodes (vector layout value ++ rest) read := ⟨(value, rest), fits, rfl⟩
  obtain ⟨chosenFits, same⟩ := found.choose_spec
  obtain ⟨values, rests⟩ := determined _ _ fits chosenFits _ _ same
  simp only [dif_pos found]
  exact congrArg some (Prod.ext values.symm rests.symm)

/-- The memory of elements that are filled with one byte. -/
theorem memory_filled (byte : Byte) (value : List T)
    (filled : ∀ element ∈ value, layout.image element = List.replicate layout.sizeof byte) :
    memory layout value = List.replicate (value.length * layout.sizeof) byte := by
  induction value with
  | nil => simp [memory]
  | cons element rest inductionHypothesis =>
    have later := inductionHypothesis fun other member => filled other (List.mem_cons_of_mem _ member)
    have first := filled element List.mem_cons_self
    have sum : (element :: rest).length * layout.sizeof =
        layout.sizeof + rest.length * layout.sizeof := by
      rw [List.length_cons, Nat.succ_mul, Nat.add_comm]
    rw [sum, List.replicate_add, ← first, ← later]
    rfl

/-- Images of a fixed size that are injective determine a list of elements. -/
theorem memory_injective (injective : Function.Injective layout.image) (first second : List T)
    (lengths : first.length = second.length) (same : memory layout first = memory layout second) :
    first = second := by
  induction first generalizing second with
  | nil => exact (List.length_eq_zero_iff.mp lengths.symm).symm
  | cons element rest inductionHypothesis =>
    cases second with
    | nil => cases lengths
    | cons other later =>
      have parts : layout.image element ++ memory layout rest =
          layout.image other ++ memory layout later := same
      obtain ⟨images, tails⟩ := List.append_inj parts (by simp only [layout.image_length])
      rw [injective images, inductionHypothesis later (Nat.succ.inj lengths) tails]

section Necessary

variable {layout encode} (survives : Survives layout encode)
include survives

/-- A single element is written as the first byte of its memory. -/
theorem Survives.single (element : T) : encode element = (layout.image element).take 1 := by
  have written := survives.agrees [element]
  simpa [vector, memory] using written.symm

/-- Of two longer elements only the first one is written. -/
theorem Survives.alone (long : layout.sizeof ≠ 1) (first second : T) : first = second := by
  have positive := layout.sizeof_pos
  have cut : ∀ other : T, vector layout [first, other] =
      arithmetic 8 2 ++ (layout.image first).take 2 := by
    intro other
    have enough : 2 ≤ (layout.image first).length := by
      rw [layout.image_length]
      omega
    simp [vector, memory, List.take_append_of_le_length enough]
  have same : vector layout [first, first] ++ [] = vector layout [first, second] ++ [] := by
    rw [cut, cut]
  have lists := (survives.determined _ _ (by simp) (by simp) _ _ same).1
  simpa using lists

/-- As many copies of an element as it has bytes are written as its memory. -/
theorem Survives.filled (element : T) : ∃ byte, encode element = [byte] ∧
    layout.image element = List.replicate layout.sizeof byte := by
  have length := layout.image_length element
  cases image : layout.image element with
  | nil =>
    rw [image] at length
    exact absurd length.symm (Nat.ne_of_gt layout.sizeof_pos)
  | cons byte later =>
    have first : encode element = [byte] := by
      rw [survives.single element, image]
      rfl
    refine ⟨byte, first, ?_⟩
    have written := survives.agrees (List.replicate layout.sizeof element)
    simp only [vector, List.append_cancel_left_eq, List.length_replicate] at written
    have copies : (memory layout (List.replicate layout.sizeof element)).take layout.sizeof =
        layout.image element := by
      obtain ⟨rest, more⟩ := Nat.exists_eq_succ_of_ne_zero (Nat.ne_of_gt layout.sizeof_pos)
      have front : memory layout (List.replicate layout.sizeof element) =
          layout.image element ++ memory layout (List.replicate rest element) := by
        rw [more]
        rfl
      rw [front, List.take_left' length]
    rw [copies, image] at written
    rw [written, List.flatMap_replicate, first]
    simp

end Necessary

/-- One-byte elements survive: the memory is the encodings one after another. -/
theorem OneByte.survives {layout : ObjectLayout T} {encode : T → Buffer}
    (oneByte : OneByte layout encode) : Survives layout encode := by
  have whole : ∀ value, (memory layout value).take value.length = memory layout value := by
    intro value
    apply List.take_of_length_le
    have length : (memory layout value).length = value.length := by
      simp [memory, List.length_flatMap, layout.image_length, oneByte.single]
    exact length.le
  have determined : ∀ first second : List T, first.length < 2 ^ 64 → second.length < 2 ^ 64 →
      ∀ rest other, vector layout first ++ rest = vector layout second ++ other →
        first = second ∧ rest = other := by
    intro first second firstFits secondFits rest other same
    simp only [vector, whole, List.append_assoc, arithmetic] at same
    obtain ⟨lengths, contents⟩ :=
      little_endian_append_injective 8 _ _ _ _ firstFits secondFits same
    have sizes : (memory layout first).length = (memory layout second).length := by
      simp [memory, List.length_flatMap, layout.image_length, lengths]
    obtain ⟨memories, rests⟩ := List.append_inj contents sizes
    exact ⟨memory_injective layout oneByte.injective _ _ lengths memories, rests⟩
  refine ⟨determined, readable_of_determined layout determined, ?_⟩
  intro value
  rw [vector, whole, memory, funext oneByte.written]

/-- So does the only element: its vector is its length and that many copies of
its byte. -/
theorem Lone.survives {layout : ObjectLayout T} {encode : T → Buffer}
    (lone : Lone layout encode) : Survives layout encode := by
  have equal : ∀ first second : List T, first.length = second.length → first = second :=
    fun first second lengths => List.ext_getElem lengths fun _ _ _ => lone.alone _ _
  have determined : ∀ first second : List T, first.length < 2 ^ 64 → second.length < 2 ^ 64 →
      ∀ rest other, vector layout first ++ rest = vector layout second ++ other →
        first = second ∧ rest = other := by
    intro first second firstFits secondFits rest other same
    have lengths : first.length = second.length := by
      rw [vector, vector, List.append_assoc, List.append_assoc] at same
      exact (little_endian_append_injective 8 _ _ _ _ firstFits secondFits same).1
    have lists := equal first second lengths
    rw [lists] at same
    exact ⟨lists, List.append_cancel_left same⟩
  refine ⟨determined, readable_of_determined layout determined, ?_⟩
  intro value
  rw [vector, List.append_cancel_left_eq]
  cases value with
  | nil => rfl
  | cons element rest =>
    obtain ⟨byte, written, image⟩ := lone.filled element
    have all : ∀ other ∈ element :: rest,
        layout.image other = List.replicate layout.sizeof byte :=
      fun other _ => lone.alone element other ▸ image
    have copies : element :: rest = List.replicate (element :: rest).length element :=
      equal _ _ (by simp)
    have enough : (element :: rest).length ≤ (element :: rest).length * layout.sizeof :=
      Nat.le_mul_of_pos_right _ layout.sizeof_pos
    rw [memory_filled layout byte _ all, List.take_replicate, Nat.min_eq_left enough]
    conv_rhs => rw [copies, List.flatMap_replicate, written]
    simp

/-- Vectors of a type survive their encoding exactly when its elements are single
bytes, written as they are; or there is only one element, which is written as a
byte that fills its memory. -/
theorem vector_survives_iff : Survives layout encode ↔ OneByte layout encode ∨ Lone layout encode := by
  constructor
  · intro survives
    by_cases single : layout.sizeof = 1
    · have written : ∀ element, encode element = layout.image element := by
        intro element
        have length := layout.image_length element
        rw [survives.single, List.take_of_length_le (by omega)]
      refine .inl ⟨single, written, ?_⟩
      intro first second same
      have vectors : vector layout [first] ++ [] = vector layout [second] ++ [] := by
        simp [vector, memory, same]
      simpa using (survives.determined [first] [second] (by simp) (by simp) _ _ vectors).1
    · exact .inr ⟨survives.alone single, survives.filled⟩
  · rintro (oneByte | lone)
    · exact oneByte.survives
    · exact lone.survives

/-- The second of two sixteen-bit numbers is not written at all. -/
theorem wide_elements_lost :
    ¬ ∀ (T : Type) (scalar : Scalar T),
      Survives scalar.toObjectLayout (ofScalar scalar).encode := by
  intro survives
  have same := ((survives UInt16 uint16).determined [1, 2] [1, 3] (by decide) (by decide) [] []
    (by decide)).1
  exact absurd same (by decide)

end Replikon.Serde
