import Jarsmith.ClassFile.Basic

/-!
# Attributes of classes and methods

Typed views of the attributes that tell how classes and methods are built: inner and enclosing
classes, record components, bootstrap methods and the declared parameters of a method. A view reads
the front of a body and ignores what follows.
-/

namespace Jarsmith

/-- A row of `InnerClasses`. Local and anonymous classes have no outer class, anonymous ones no
name. -/
structure InnerClass where
  inner : UInt16
  outer : Option UInt16
  name : Option UInt16
  access : AccessFlags
  deriving DecidableEq

namespace InnerClass

/-- The next row. -/
def read : Reader InnerClass :=
  mk <$> Reader.index <*> Reader.index? <*> Reader.index? <*> Reader.u16

/-- The written form. -/
def toBytes (c : InnerClass) : Bytes :=
  putU16 c.inner ++ putIndex? c.outer ++ putIndex? c.name ++ putU16 c.access

/-- The rows that the body of the attribute holds. -/
def table (info : Bytes) : ClassResult (List InnerClass) :=
  decoded (Reader.front (Reader.table read) info)

/-- The body of the attribute. -/
def tableToBytes (rows : List InnerClass) : ClassResult Bytes := do
  pure (putU16 (← count16 rows.length "inner classes") ++ rows.flatMap toBytes)

end InnerClass

/-- The class, and the method if there is one, around a local or anonymous class. -/
structure EnclosingMethod where
  owner : UInt16
  method : Option UInt16
  deriving DecidableEq

namespace EnclosingMethod

/-- The view at the front of the body. -/
def read : Reader EnclosingMethod := mk <$> Reader.index <*> Reader.index?

/-- The written form. -/
def toBytes (e : EnclosingMethod) : Bytes := putU16 e.owner ++ putIndex? e.method

/-- What the body of the attribute holds. -/
def parse (info : Bytes) : ClassResult EnclosingMethod := decoded (Reader.front read info)

end EnclosingMethod

/-- A component of a record. -/
structure RecordComponent where
  name : UInt16
  descriptor : UInt16
  attributes : List Attribute
  deriving DecidableEq

namespace RecordComponent

/-- The next component. -/
def read : Reader RecordComponent :=
  mk <$> Reader.index <*> Reader.index <*> Reader.table Attribute.read

/-- The written form. -/
def toBytes (c : RecordComponent) : ClassResult Bytes := do
  pure (putU16 c.name ++ putU16 c.descriptor ++ (← Attribute.listToBytes c.attributes))

/-- The components that the body of the attribute holds. -/
def table (info : Bytes) : ClassResult (List RecordComponent) :=
  decoded (Reader.front (Reader.table read) info)

/-- The body of the attribute. -/
def tableToBytes (components : List RecordComponent) : ClassResult Bytes := do
  let count ← count16 components.length "record components"
  pure (putU16 count ++ (← components.mapM toBytes).flatten)

end RecordComponent

/-- A method that links call sites, with its static arguments. -/
structure BootstrapMethod where
  handle : UInt16
  arguments : List UInt16
  deriving DecidableEq

namespace BootstrapMethod

/-- The next method. -/
def read : Reader BootstrapMethod := mk <$> Reader.index <*> Reader.table Reader.index

/-- The methods that the body of the attribute holds. -/
def table (info : Bytes) : ClassResult (List BootstrapMethod) :=
  decoded (Reader.front (Reader.table read) info)

end BootstrapMethod

/-- A declared parameter of a method. -/
structure MethodParameter where
  name : Option UInt16
  access : AccessFlags
  deriving DecidableEq

namespace MethodParameter

/-- The next parameter. -/
def read : Reader MethodParameter := mk <$> Reader.index? <*> Reader.u16

/-- The written form. -/
def toBytes (p : MethodParameter) : Bytes := putIndex? p.name ++ putU16 p.access

/-- The parameters that the body of the attribute holds. -/
def table (info : Bytes) : ClassResult (List MethodParameter) :=
  decoded (Reader.front (Reader.smallTable read) info)

/-- The body of the attribute. -/
def tableToBytes (parameters : List MethodParameter) : ClassResult Bytes :=
  if parameters.length < 256 then
    .ok (UInt8.ofNat parameters.length :: parameters.flatMap toBytes)
  else .error (.tooMany "method parameters")

end MethodParameter

/-- The single index that the body of an attribute such as `Signature` holds. -/
def singleIndex (info : Bytes) : ClassResult UInt16 := decoded (Reader.front Reader.index info)

end Jarsmith
