import Mathlib.Data.Nat.ModEq
import Mathlib.Tactic.Ring

/-!
# Fixed-width integers and length prefixes as bytes

A number is written as a fixed count of base-256 digits, least significant
first. A list is framed by writing its length at a fixed width before its
elements. Both encodings are injective and self-delimiting on the values that
fit their width, so a concatenation of framed parts determines every part.
Values that do not fit lose their high digits; each law states its bound.
-/

namespace Replikon.Foundation.ByteFraming

/-- There are digits. -/
instance digitNeZero : NeZero 256 := ⟨by decide⟩

/-- The `width` low base-256 digits of a number, least significant first. -/
def littleEndian : Nat → Nat → List (Fin 256)
  | 0, _ => []
  | width + 1, value => Fin.ofNat 256 value :: littleEndian width (value / 256)

/-- A fixed-width number occupies exactly its width, whatever its value. -/
theorem little_endian_length (width value : Nat) : (littleEndian width value).length = width := by
  induction width generalizing value with
  | zero => rfl
  | succ width inductionHypothesis => simp [littleEndian, inductionHypothesis]

/-- Equal digits determine a number below the width's capacity. Comparing the
first digits fixes the residue; the remaining digits fix the quotient. -/
theorem little_endian_injective (width left right : Nat) (leftFits : left < 256 ^ width)
    (rightFits : right < 256 ^ width)
    (same : littleEndian width left = littleEndian width right) : left = right := by
  induction width generalizing left right with
  | zero =>
    have leftZero : left = 0 := by simpa using leftFits
    have rightZero : right = 0 := by simpa using rightFits
    exact leftZero.trans rightZero.symm
  | succ width inductionHypothesis =>
    obtain ⟨digit, rest⟩ := List.cons.inj same
    have residue : left % 256 = right % 256 := congrArg Fin.val digit
    have capacity : 256 ^ (width + 1) = 256 * 256 ^ width := by ring
    have quotient : left / 256 = right / 256 :=
      inductionHypothesis (left / 256) (right / 256) (by omega) (by omega) rest
    omega

/-- Two fixed-width numbers side by side are one number: the second one's digits
are the more significant ones. -/
theorem little_endian_append (width more low high : Nat) (fits : low < 256 ^ width) :
    littleEndian width low ++ littleEndian more high =
      littleEndian (width + more) (low + 256 ^ width * high) := by
  induction width generalizing low with
  | zero =>
    have zero : low = 0 := by simpa using fits
    simp [littleEndian, zero]
  | succ width inductionHypothesis =>
    have capacity : 256 ^ (width + 1) = 256 * 256 ^ width := by ring
    have value : low + 256 ^ (width + 1) * high = low + 256 * (256 ^ width * high) := by ring
    have digit : Fin.ofNat 256 (low + 256 * (256 ^ width * high)) = Fin.ofNat 256 low := by
      apply Fin.ext
      simp only [Fin.val_ofNat]
      omega
    have quotient : (low + 256 * (256 ^ width * high)) / 256 = low / 256 + 256 ^ width * high := by
      omega
    have rest := inductionHypothesis (low / 256) (by omega)
    have widths : width + 1 + more = width + more + 1 := by omega
    simp only [value, widths, littleEndian, List.cons_append, digit, quotient, rest]

/-- The number with the given base-256 digits, least significant first. -/
def fromLittleEndian : List (Fin 256) → Nat
  | [] => 0
  | digit :: rest => digit.val + 256 * fromLittleEndian rest

/-- Reading a fixed-width number back gives its residue at that width. -/
theorem from_little_endian (width value : Nat) :
    fromLittleEndian (littleEndian width value) = value % 256 ^ width := by
  induction width generalizing value with
  | zero => simp [littleEndian, fromLittleEndian, Nat.mod_one]
  | succ width inductionHypothesis =>
    have capacity : 256 ^ (width + 1) = 256 * 256 ^ width := by ring
    simp only [littleEndian, fromLittleEndian, inductionHypothesis, Fin.val_ofNat, capacity]
    exact Nat.mod_mul.symm

/-- Bytes give a number of their width. -/
theorem from_little_endian_lt (bytes : List (Fin 256)) :
    fromLittleEndian bytes < 256 ^ bytes.length := by
  induction bytes with
  | nil => simp [fromLittleEndian]
  | cons digit rest inductionHypothesis =>
    have bound := digit.isLt
    have capacity : 256 ^ (digit :: rest).length = 256 * 256 ^ rest.length := by
      rw [List.length_cons]
      ring
    simp only [fromLittleEndian, capacity]
    omega

/-- Writing a number that was read gives its bytes back: every byte string of a
width is the encoding of a number. -/
theorem little_endian_from (bytes : List (Fin 256)) :
    littleEndian bytes.length (fromLittleEndian bytes) = bytes := by
  induction bytes with
  | nil => rfl
  | cons digit rest inductionHypothesis =>
    have bound := digit.isLt
    have low : Fin.ofNat 256 (digit.val + 256 * fromLittleEndian rest) = digit := by
      apply Fin.ext
      simp only [Fin.val_ofNat]
      omega
    have high : (digit.val + 256 * fromLittleEndian rest) / 256 = fromLittleEndian rest := by
      omega
    simp only [fromLittleEndian, List.length_cons, littleEndian, low, high, inductionHypothesis]

/-- A list behind its length, at a fixed width for the length. -/
def lengthPrefixed (width : Nat) (content : List (Fin 256)) : List (Fin 256) :=
  littleEndian width content.length ++ content

/-- A fixed-width number in front of anything determines itself and the rest. -/
theorem little_endian_append_injective (width left right : Nat) (rest other : List (Fin 256))
    (leftFits : left < 256 ^ width) (rightFits : right < 256 ^ width)
    (same : littleEndian width left ++ rest = littleEndian width right ++ other) :
    left = right ∧ rest = other := by
  have widths : (littleEndian width left).length = (littleEndian width right).length := by
    simp only [little_endian_length]
  obtain ⟨digits, tails⟩ := List.append_inj same widths
  exact ⟨little_endian_injective width left right leftFits rightFits digits, tails⟩

/-- A framed list in front of anything determines itself and the rest: the
equal length prefixes align the two contents. -/
theorem length_prefixed_append_injective (width : Nat) (left right rest other : List (Fin 256))
    (leftFits : left.length < 256 ^ width) (rightFits : right.length < 256 ^ width)
    (same : lengthPrefixed width left ++ rest = lengthPrefixed width right ++ other) :
    left = right ∧ rest = other := by
  simp only [lengthPrefixed, List.append_assoc] at same
  obtain ⟨lengths, contents⟩ := little_endian_append_injective width left.length right.length
    (left ++ rest) (right ++ other) leftFits rightFits same
  exact List.append_inj contents lengths

end Replikon.Foundation.ByteFraming
