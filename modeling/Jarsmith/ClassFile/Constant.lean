import Jarsmith.Text.ModifiedUtf8

/-!
# Constants

The entries of a constant pool. An entry refers to others by their index in the pool.
-/

namespace Jarsmith

/-- What a method handle does with the member that it refers to. -/
inductive HandleKind where
  | getField | getStatic | putField | putStatic
  | invokeVirtual | invokeStatic | invokeSpecial | newInvokeSpecial | invokeInterface
  deriving DecidableEq, Repr

namespace HandleKind

/-- The number of a kind in a class file. -/
def tag : HandleKind → UInt8
  | getField => 1
  | getStatic => 2
  | putField => 3
  | putStatic => 4
  | invokeVirtual => 5
  | invokeStatic => 6
  | invokeSpecial => 7
  | newInvokeSpecial => 8
  | invokeInterface => 9

/-- The kind of a number. -/
def ofTag? : UInt8 → Option HandleKind
  | 1 => some getField
  | 2 => some getStatic
  | 3 => some putField
  | 4 => some putStatic
  | 5 => some invokeVirtual
  | 6 => some invokeStatic
  | 7 => some invokeSpecial
  | 8 => some newInvokeSpecial
  | 9 => some invokeInterface
  | _ => none

@[simp] theorem ofTag?_tag (kind : HandleKind) : ofTag? kind.tag = some kind := by
  cases kind <;> rfl

/-- The name of a kind in messages. -/
def name : HandleKind → String
  | getField => "GetField"
  | getStatic => "GetStatic"
  | putField => "PutField"
  | putStatic => "PutStatic"
  | invokeVirtual => "InvokeVirtual"
  | invokeStatic => "InvokeStatic"
  | invokeSpecial => "InvokeSpecial"
  | newInvokeSpecial => "NewInvokeSpecial"
  | invokeInterface => "InvokeInterface"

/-- Whether a handle of this kind refers to a field. -/
def isField : HandleKind → Bool
  | getField | getStatic | putField | putStatic => true
  | _ => false

end HandleKind

/-- An entry of a constant pool. -/
inductive Constant where
  /-- A text in modified UTF-8. Identifiers and string literals share it. -/
  | utf8 (raw : Bytes)
  | integer (value : Int32)
  /-- The bits of a number, so that the payload of a NaN is kept. -/
  | float (bits : UInt32)
  | long (value : Int64)
  | double (bits : UInt64)
  | classRef (name : UInt16)
  | string (value : UInt16)
  | fieldRef (owner nameAndType : UInt16)
  | methodRef (owner nameAndType : UInt16)
  | interfaceMethodRef (owner nameAndType : UInt16)
  | nameAndType (name descriptor : UInt16)
  | methodHandle (kind : HandleKind) (reference : UInt16)
  | methodType (descriptor : UInt16)
  | dynamic (bootstrap nameAndType : UInt16)
  | invokeDynamic (bootstrap nameAndType : UInt16)
  | module (name : UInt16)
  | package (name : UInt16)
  /-- Slot 0, and the slot behind a long or a double. -/
  | unusable
  deriving DecidableEq

namespace Constant

/-- Whether the constant takes two slots. -/
def isWide : Constant → Bool
  | long _ | double _ => true
  | _ => false

/-- Whether the constant refers to a field. -/
def isFieldRef : Constant → Bool
  | fieldRef .. => true
  | _ => false

/-- A constant with named parts, as a message shows it. -/
private def record (name : String) (parts : List (String × String)) : String :=
  name ++ " \x7b " ++ ", ".intercalate (parts.map fun (part, value) => part ++ ": " ++ value)
    ++ " \x7d"

/-- A constant as a message shows it. -/
def shown : Constant → String
  | utf8 raw => "Utf8(" ++ ModifiedUtf8.quoted raw ++ ")"
  | integer value => "Integer(" ++ toString value.toInt ++ ")"
  | float bits => "Float(" ++ toString bits.toNat ++ ")"
  | long value => "Long(" ++ toString value.toInt ++ ")"
  | double bits => "Double(" ++ toString bits.toNat ++ ")"
  | classRef name => record "Class" [("name", toString name)]
  | string value => record "String" [("value", toString value)]
  | fieldRef owner nat =>
    record "Fieldref" [("class", toString owner), ("name_and_type", toString nat)]
  | methodRef owner nat =>
    record "Methodref" [("class", toString owner), ("name_and_type", toString nat)]
  | interfaceMethodRef owner nat =>
    record "InterfaceMethodref" [("class", toString owner), ("name_and_type", toString nat)]
  | nameAndType name descriptor =>
    record "NameAndType" [("name", toString name), ("descriptor", toString descriptor)]
  | methodHandle kind reference =>
    record "MethodHandle" [("kind", kind.name), ("reference", toString reference)]
  | methodType descriptor => record "MethodType" [("descriptor", toString descriptor)]
  | dynamic bootstrap nat =>
    record "Dynamic" [("bootstrap", toString bootstrap), ("name_and_type", toString nat)]
  | invokeDynamic bootstrap nat =>
    record "InvokeDynamic" [("bootstrap", toString bootstrap), ("name_and_type", toString nat)]
  | module name => record "Module" [("name", toString name)]
  | package name => record "Package" [("name", toString name)]
  | unusable => "Unusable"

end Constant

end Jarsmith
