import Jarsmith.ClassFile.Basic

/-!
# Code

The body of a `Code` attribute. Nobody changes its limits, its bytecode and its exception table, so
`Code` keeps everything in front of the nested attributes as one piece.

The piece is found from the end: it is what is left of the body when the bytes of the nested table
are taken off its end.
-/

namespace Jarsmith

/-- The range of bytecode in which an exception is caught. -/
structure ExceptionRow where
  start : UInt16
  stop : UInt16
  handler : UInt16
  caught : UInt16
  deriving DecidableEq

/-- Everything that a `Code` attribute holds. -/
structure CodeBody where
  maxStack : UInt16
  maxLocals : UInt16
  bytecode : Bytes
  exceptions : List ExceptionRow
  attributes : List Attribute
  deriving DecidableEq

namespace CodeBody

/-- The next row of an exception table. -/
def readException : Reader ExceptionRow :=
  ExceptionRow.mk <$> Reader.u16 <*> Reader.u16 <*> Reader.u16 <*> Reader.u16

/-- The body at the front of the bytes. -/
def read : Reader CodeBody := do
  let maxStack ← Reader.u16
  let maxLocals ← Reader.u16
  let length ← Reader.u32
  let bytecode ← Reader.take length
  let exceptions ← Reader.table readException
  let attributes ← Reader.table Attribute.read
  pure ⟨maxStack, maxLocals, bytecode, exceptions, attributes⟩

end CodeBody

/-- A `Code` attribute, split into the part that nobody changes and the nested attributes. -/
structure Code where
  head : Bytes
  attributes : List Attribute
  deriving DecidableEq

namespace Code

/-- The bytes that a list of attributes takes in its written form. -/
def tableSize : List Attribute → Nat
  | [] => 2
  | a :: more => 6 + a.info.length + tableSize more

/-- Splits the body of a `Code` attribute. -/
def split (info : Bytes) : ClassResult Code := do
  let body ← decoded (Reader.front CodeBody.read info)
  let tail := tableSize body.attributes
  if info.length < tail then throw .codeTooShort
  pure ⟨info.take (info.length - tail), body.attributes⟩

/-- The written form. -/
def toBytes (code : Code) : ClassResult Bytes := do
  pure (code.head ++ (← Attribute.listToBytes code.attributes))

end Code

/-- A row of a local variable table. In a type table `descriptor` is a generic signature. -/
structure LocalVariable where
  start : UInt16
  length : UInt16
  name : UInt16
  descriptor : UInt16
  slot : UInt16
  deriving DecidableEq

namespace LocalVariable

/-- The next row. -/
def read : Reader LocalVariable :=
  mk <$> Reader.u16 <*> Reader.u16 <*> Reader.index <*> Reader.index <*> Reader.u16

/-- The written form. -/
def toBytes (v : LocalVariable) : Bytes :=
  putU16 v.start ++ putU16 v.length ++ putU16 v.name ++ putU16 v.descriptor ++ putU16 v.slot

/-- The rows that the body of a table holds. -/
def table (info : Bytes) : ClassResult (List LocalVariable) :=
  decoded (Reader.front (Reader.table read) info)

/-- The body of a table. -/
def tableToBytes (rows : List LocalVariable) : ClassResult Bytes := do
  pure (putU16 (← count16 rows.length "local variables") ++ rows.flatMap toBytes)

end LocalVariable

end Jarsmith
