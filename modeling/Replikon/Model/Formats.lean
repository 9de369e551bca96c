import Mathlib.Logic.Equiv.Defs
import Replikon.Model.BufferView

/-!
# The types of the format

The types for which `serde.h` has a composable serializer, as syntax: templates
are functions on it. `bool` stands apart from the other arithmetic types since
not all of its bytes are values. Of a struct, `tie` are its fields and back the
braced initialisation from them.
-/

namespace Replikon.Serde

mutual

/-- A type with the template arguments it is built from. -/
inductive Format : Type → Type 1 where
  | arithmetic {T : Type} (scalar : Scalar T) : Format T
  | bool : Format Bool
  | string : Format Text
  | array {T : Type} (item : Format T) (N : Nat) : Format (List.Vector T N)
  | optional {T : Type} (item : Format T) : Format (Option T)
  | monostate : Format Unit
  | tuple {Args : Type} (args : Formats Args) : Format Args
  | serializable {Struct Fields : Type} (fields : Formats Fields) (tie : Struct ≃ Fields) :
      Format Struct

/-- The component types of a tuple. -/
inductive Formats : Type → Type 1 where
  | nil : Formats Unit
  | cons {First Rest : Type} (first : Format First) (rest : Formats Rest) : Formats (First × Rest)

end

mutual

/-- `Serializer<T>`. -/
def Format.serializer {T : Type} : Format T → Serializer T
  | .arithmetic scalar => ofScalar scalar
  | .bool => ofScalar Serde.bool
  | .string => stringSerializer
  | .array item N => arraySerializer item.serializer N
  | .optional item => optionalSerializer item.serializer
  | .monostate => monostateSerializer
  | .tuple args => args.serializer
  | .serializable fields tie => Serde.serializable fields.serializer tie tie.symm

/-- `Serializer<std::tuple<Args...>>`. -/
def Formats.serializer {T : Type} : Formats T → Serializer T
  | .nil => tupleNil
  | .cons first rest => tupleCons first.serializer rest.serializer

end

mutual

/-- `Serializer<T>::deserialize`. -/
def Format.deserialize {T : Type} : Format T → Reader (Option T)
  | .arithmetic scalar => deserializeArithmetic scalar
  | .bool => deserializeArithmetic Serde.bool
  | .string => deserializeString
  | .array item N => deserializeItems item.deserialize N
  | .optional item => deserializeOptional item.deserialize
  | .monostate => pure (some ())
  | .tuple args => args.deserialize
  | .serializable fields tie => deserializeStruct fields.deserialize tie.symm

/-- `Serializer<std::tuple<Args...>>::deserialize`. -/
def Formats.deserialize {T : Type} : Formats T → Reader (Option T)
  | .nil => pure (some ())
  | .cons first rest => deserializeTuple first.deserialize rest.deserialize

end

/-- The fields of a `ChatMessage`. -/
def chatMessageFields :
    ChatMessage ≃ Author × UInt64 × UInt64 × Text × Unit where
  toFun v := (v.author, v.lamport, v.originTs, v.body, ())
  invFun := fun (author, lamport, originTs, body, ()) => ⟨author, lamport, originTs, body⟩
  left_inv _ := rfl
  right_inv _ := rfl

/-- `ChatMessage`. -/
def chatMessageFormat : Format ChatMessage :=
  .serializable (.cons .string (.cons (.arithmetic uint64) (.cons (.arithmetic uint64)
    (.cons .string .nil)))) chatMessageFields

/-- The fields of a `SecurityUserInfo`. -/
def securityUserInfoFields :
    SecurityUserInfo ≃ Author × PubKey × Option PrivKey × Bool × Unit where
  toFun v := (v.author, v.pubKey, v.privKey, v.isAdmin, ())
  invFun := fun (author, pubKey, privKey, isAdmin, ()) => ⟨author, pubKey, privKey, isAdmin⟩
  left_inv _ := rfl
  right_inv _ := rfl

/-- `SecurityUserInfo`. -/
def securityUserInfoFormat : Format SecurityUserInfo :=
  .serializable (.cons .string (.cons (.array (.arithmetic byte) 32)
    (.cons (.optional (.array (.arithmetic byte) 64)) (.cons .bool .nil)))) securityUserInfoFields

end Replikon.Serde
