import Replikon.Model.Types

/-!
# SQLite numbers and conversions

Integer cells are signed 64-bit. A sum or difference that does not fit is
computed in double precision instead. Every real that arises here is an
integral number, so a numeric value is represented by the integer it equals;
SQLite compares integers and reals by that value. Reading a cell as `int64_t`
clamps a real and takes the longest integer prefix of a text.
-/

namespace Replikon.Sql

/-- The integer is a signed 64-bit one. -/
def Fits (value : Int) : Prop := -2 ^ 63 ≤ value ∧ value < 2 ^ 63

instance (value : Int) : Decidable (Fits value) := inferInstanceAs (Decidable (_ ∧ _))

/-- The double nearest to an integer, ties to the even significand: a magnitude
of more than 53 bits keeps its upper 53. -/
def roundDouble (value : Int) : Int :=
  let magnitude := value.natAbs
  if magnitude < 2 ^ 53 then value
  else
    let unit := 2 ^ (magnitude.log2 - 52)
    let quotient := magnitude / unit
    let rest := magnitude % unit
    let up := unit < 2 * rest ∨ (unit = 2 * rest ∧ quotient % 2 = 1)
    value.sign * ((if up then quotient + 1 else quotient) * unit : Nat)

/-- `left + right`. -/
def add (left right : Int) : Int :=
  if Fits (left + right) then left + right else roundDouble (roundDouble left + roundDouble right)

/-- `left - right`. -/
def sub (left right : Int) : Int :=
  if Fits (left - right) then left - right else roundDouble (roundDouble left - roundDouble right)

/-- `sqlite3_column_int64` of a number: out of range means clamped. -/
def toInt64 (value : Int) : Int64 :=
  if value < -2 ^ 63 then Int64.minValue
  else if 2 ^ 63 ≤ value then Int64.maxValue
  else Int64.ofInt value

/-- The leading decimal digits of a text, as a number. -/
def leadingDigits : Text → Nat → Nat
  | [], digits => digits
  | byte :: rest, digits =>
    if 48 ≤ byte.val ∧ byte.val ≤ 57 then leadingDigits rest (10 * digits + (byte.val - 48))
    else digits

/-- The longest integer prefix of a text after white space, zero without one. -/
def leadingInteger (text : Text) : Int :=
  match text.dropWhile (fun byte => byte == 32 || (9 ≤ byte.val && byte.val ≤ 13)) with
  | 45 :: rest => -(leadingDigits rest 0 : Int)
  | 43 :: rest => leadingDigits rest 0
  | rest => leadingDigits rest 0

/-- The value of a cell of the `key_value` table. -/
inductive Value where
  | null
  | integer (value : Int64)
  | text (value : Text)
  | blob (value : Buffer)
  deriving DecidableEq

/-- `PreparedStatement::columnInt64`. -/
def Value.columnInt64 : Value → Int64
  | .null => 0
  | .integer value => value
  | .text value => toInt64 (leadingInteger value)
  | .blob value => toInt64 (leadingInteger value)

/-- The bytes SQLite hands out for a cell read as text or blob. -/
def Value.bytes : Value → Buffer
  | .null => []
  | .integer value => ascii (toString value.toInt)
  | .text value => value
  | .blob value => value

/-- `PreparedStatement::columnText`: the bytes end at the first NUL. -/
def Value.columnText (value : Value) : Text := cString value.bytes

/-- `PreparedStatement::columnBlobAsBuffer`. -/
def Value.columnBlobAsBuffer (value : Value) : Buffer := value.bytes

/-- A sum that fits is exact. -/
theorem add_exact (left right : Int) (fits : Fits (left + right)) : add left right = left + right :=
  if_pos fits

/-- A difference that fits is exact. -/
theorem sub_exact (left right : Int) (fits : Fits (left - right)) : sub left right = left - right :=
  if_pos fits

/-- A number that fits is read unchanged. -/
theorem to_int64_exact (value : Int) (fits : Fits value) : (toInt64 value).toInt = value := by
  obtain ⟨above, below⟩ := fits
  have inside : toInt64 value = Int64.ofInt value := by
    rw [toInt64, if_neg (Int.not_lt.mpr above), if_neg (Int.not_le.mpr below)]
  rw [inside, Int64.toInt_ofInt]
  exact Int.bmod_eq_of_le (by simpa [Int64.size] using above) (by simpa [Int64.size] using below)

end Replikon.Sql
