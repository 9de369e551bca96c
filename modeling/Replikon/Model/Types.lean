import Mathlib.Data.Prod.Lex
import Mathlib.Data.List.Lex
import Mathlib.Data.List.TakeWhile
import Mathlib.Data.Vector.Basic
import Mathlib.Data.Fintype.Fin
import Replikon.Foundation.ByteFraming

/-!
# Values exchanged by the replicas

The scalar and record types of `types.h` and `utils.h`. A `std::string` is any
byte sequence, NUL included; machine integers keep their own widths. Strings
are ordered by their unsigned bytes, which is the order of `std::map` keys and
of SQLite's BINARY collation alike.
-/

namespace Replikon

/-- `std::byte` and the unsigned `char`s of a string. -/
abbrev Byte := Fin 256

/-- `serde::Buffer`. -/
abbrev Buffer := List Byte

/-- `std::string`. -/
abbrev Text := List Byte

/-- The bytes of an ASCII literal. -/
def ascii (literal : String) : Text := literal.toList.map fun c => Fin.ofNat 256 c.toNat

/-- The prefix of a string before its first NUL: what `std::string{const char *}`
keeps of it. -/
def cString (text : Text) : Text := text.takeWhile (fun byte => byte != 0)

abbrev Author := Text

/-- `std::array<std::byte, crypto_sign_PUBLICKEYBYTES>`. -/
abbrev PubKey := List.Vector Byte 32

/-- `std::array<std::byte, crypto_sign_SECRETKEYBYTES>`. -/
abbrev PrivKey := List.Vector Byte 64

structure ChatMessage where
  author : Author
  lamport : UInt64
  originTs : UInt64
  body : Text
  deriving DecidableEq

/-- The source's spelling is kept. -/
structure SignedChatMeesage where
  msg : ChatMessage
  sign : Buffer
  deriving DecidableEq

structure SecurityUserInfo where
  author : Author
  pubKey : PubKey
  privKey : Option PrivKey
  isAdmin : Bool
  deriving DecidableEq

inductive MergeStatus where
  | merged
  | skipped
  deriving DecidableEq

/-- `len` consecutive lamports from `start`. Nothing keeps `start + len` below
`2^64`: the fields are read from peers as they come. -/
structure Interval where
  start : UInt64
  len : UInt64
  deriving DecidableEq

/-- A string without NUL bytes is read back whole. -/
theorem c_string_whole (text : Text) (clean : (0 : Byte) ∉ text) : cString text = text := by
  apply List.takeWhile_eq_self_iff.mpr
  intro byte member
  have nonzero : byte ≠ 0 := fun zero => clean (zero ▸ member)
  simpa using nonzero

/-- What is read of a string has no NUL. -/
theorem c_string_clean (text : Text) : (0 : Byte) ∉ cString text := by
  intro member
  have nonzero := List.mem_takeWhile_imp member
  simp at nonzero

/-- Exactly the strings without NUL bytes are read back whole. -/
theorem c_string_eq_iff (text : Text) : cString text = text ↔ (0 : Byte) ∉ text :=
  ⟨fun same => same ▸ c_string_clean text, c_string_whole text⟩

theorem c_string_length (text : Text) : (cString text).length ≤ text.length :=
  (List.takeWhile_prefix _).length_le

end Replikon
