import Jarsmith.ClassFile.Encoding

/-!
# Class files

A class file as an editable value. The bodies of attributes stay bytes until someone asks for a
typed view of them, so a body that nobody touched is written back as it was read.

* `AccessFlags` — sixteen bits that say who may see a class or a member and what it is.
* `ClassFile.decode` reads a class file; `ClassFile.parse` also demands that the class has a name.
* `ClassFile.toBytes` writes it.
* `Pool.attribute?` finds an attribute by its name. A stored name that is no text makes a search fail,
  since a broken file must not be taken for one without the attribute.
-/

namespace Jarsmith

-- ---------------------------------------------------------------------------
-- Access flags
-- ---------------------------------------------------------------------------

/-- The flags of a class, a field or a method. -/
abbrev AccessFlags := UInt16

namespace AccessFlags

def publicBit : AccessFlags := 0x0001
def privateBit : AccessFlags := 0x0002
def protectedBit : AccessFlags := 0x0004
def staticBit : AccessFlags := 0x0008
def finalBit : AccessFlags := 0x0010

/-- The three flags of which a member carries at most one. -/
def visibility : AccessFlags := publicBit ||| privateBit ||| protectedBit

/-- Whether all flags of `bits` are set. -/
def has (flags bits : AccessFlags) : Bool := flags &&& bits == bits

/-- The flags without those of `bits`. -/
def without (flags bits : AccessFlags) : AccessFlags := flags &&& ~~~bits

/-- The flags with those of `bits`. -/
def adding (flags bits : AccessFlags) : AccessFlags := flags ||| bits

/-- The flags with the single visibility `bit`. -/
def seenAs (flags bit : AccessFlags) : AccessFlags := flags.without visibility ||| bit

end AccessFlags

-- ---------------------------------------------------------------------------
-- Classes and members
-- ---------------------------------------------------------------------------

/-- A named body. -/
structure Attribute where
  name : UInt16
  info : Bytes
  deriving DecidableEq

/-- A field or a method. -/
structure Member where
  access : AccessFlags
  name : UInt16
  descriptor : UInt16
  attributes : List Attribute
  deriving DecidableEq

/-- A class file. Only the root of all classes and module descriptions have no superclass. -/
structure ClassFile where
  minor : UInt16
  major : UInt16
  pool : Pool
  access : AccessFlags
  thisClass : UInt16
  superClass : Option UInt16
  interfaces : List UInt16
  fields : List Member
  methods : List Member
  attributes : List Attribute

namespace Attribute

/-- The next attribute. -/
def read : Reader Attribute := do
  let name ← Reader.index
  let length ← Reader.u32
  let info ← Reader.take length
  pure ⟨name, info⟩

/-- The written form. -/
def toBytes (a : Attribute) : ClassResult Bytes :=
  if a.info.length < UInt32.size then .ok (putU16 a.name ++ big 4 a.info.length ++ a.info)
  else .error .attributeTooLarge

/-- The written form of a list of attributes with their number. -/
def listToBytes (attributes : List Attribute) : ClassResult Bytes := do
  let count ← count16 attributes.length "attributes"
  let written ← attributes.mapM toBytes
  pure (putU16 count ++ written.flatten)

end Attribute

namespace Member

/-- The next member. -/
def read : Reader Member := do
  let access ← Reader.u16
  let name ← Reader.index
  let descriptor ← Reader.index
  let attributes ← Reader.table Attribute.read
  pure ⟨access, name, descriptor, attributes⟩

/-- The written form. -/
def toBytes (m : Member) : ClassResult Bytes := do
  let attributes ← Attribute.listToBytes m.attributes
  pure (putU16 m.access ++ putU16 m.name ++ putU16 m.descriptor ++ attributes)

/-- The written form of a list of members with their number; `what` names them in a fault. -/
def listToBytes (what : String) (members : List Member) : ClassResult Bytes := do
  let count ← count16 members.length what
  let written ← members.mapM toBytes
  pure (putU16 count ++ written.flatten)

end Member

namespace ClassFile

/-- The first four bytes of every class file. -/
def magic : Bytes := [0xCA, 0xFE, 0xBA, 0xBE]

/-- Whether the bytes start like a class file. -/
def hasMagic (bytes : Bytes) : Bool := magic.isPrefixOf bytes

/-- The class file at the front of the bytes. -/
def read : Reader ClassFile := do
  let start ← Reader.take 4
  if start ≠ magic then failure
  let minor ← Reader.u16
  let major ← Reader.u16
  let pool ← Pool.read
  let access ← Reader.u16
  let thisClass ← Reader.index
  let superClass ← Reader.index?
  let interfaces ← Reader.table Reader.index
  let fields ← Reader.table Member.read
  let methods ← Reader.table Member.read
  let attributes ← Reader.table Attribute.read
  pure ⟨minor, major, pool, access, thisClass, superClass, interfaces, fields, methods, attributes⟩

/-- The class file that `bytes` hold from the first to the last. -/
def decode (bytes : Bytes) : ClassResult ClassFile :=
  match read bytes with
  | some (c, []) => .ok c
  | some _ => .error .trailingBytes
  | none => .error .undecodable

/-- The internal name of the class. -/
def name (c : ClassFile) : ClassResult String := c.pool.className c.thisClass

/-- The internal name of the superclass. -/
def superName (c : ClassFile) : ClassResult (Option String) := c.superClass.mapM c.pool.className

/-- The internal names of the interfaces. -/
def interfaceNames (c : ClassFile) : ClassResult (List String) :=
  c.interfaces.mapM c.pool.className

/-- The class file that `bytes` hold, with a class that has a name. -/
def parse (bytes : Bytes) : ClassResult ClassFile := do
  let c ← decode bytes
  let _ ← c.name
  pure c

/-- The written form. -/
def toBytes (c : ClassFile) : ClassResult Bytes := do
  let pool ← c.pool.toBytes
  let interfaces ← count16 c.interfaces.length "interfaces"
  let fields ← Member.listToBytes "fields" c.fields
  let methods ← Member.listToBytes "methods" c.methods
  let attributes ← Attribute.listToBytes c.attributes
  pure (magic ++ putU16 c.minor ++ putU16 c.major ++ pool ++ putU16 c.access
    ++ putU16 c.thisClass ++ putIndex? c.superClass ++ putU16 interfaces
    ++ c.interfaces.flatMap putU16 ++ fields ++ methods ++ attributes)

/-- The place of the first attribute called `name`; an attribute whose name cannot be read is called
nothing. -/
def findAttribute (c : ClassFile) (attributes : List Attribute) (name : String) : Option Nat :=
  attributes.findIdx? fun a =>
    match c.pool.text a.name with
    | .ok found => found == name
    | .error _ => false

end ClassFile

-- ---------------------------------------------------------------------------
-- Names of attributes
-- ---------------------------------------------------------------------------

namespace AttributeName

def code : String := "Code"
def signature : String := "Signature"
def sourceFile : String := "SourceFile"
def innerClasses : String := "InnerClasses"
def enclosingMethod : String := "EnclosingMethod"
def record : String := "Record"
def bootstrapMethods : String := "BootstrapMethods"
def localVariableTable : String := "LocalVariableTable"
def localVariableTypeTable : String := "LocalVariableTypeTable"
def methodParameters : String := "MethodParameters"
def annotationDefault : String := "AnnotationDefault"
def visibleAnnotations : String := "RuntimeVisibleAnnotations"
def invisibleAnnotations : String := "RuntimeInvisibleAnnotations"
def visibleParameterAnnotations : String := "RuntimeVisibleParameterAnnotations"
def invisibleParameterAnnotations : String := "RuntimeInvisibleParameterAnnotations"
def visibleTypeAnnotations : String := "RuntimeVisibleTypeAnnotations"
def invisibleTypeAnnotations : String := "RuntimeInvisibleTypeAnnotations"

end AttributeName

namespace Pool

/-- The place of the first attribute called `name` from place `start` on, and the attribute. -/
def searchAttribute (pool : Pool) (name : String) (start : Nat) :
    List Attribute → ClassResult (Option (Nat × Attribute))
  | [] => .ok none
  | a :: rest => do
    if ModifiedUtf8.spells (← pool.rawText a.name) name then pure (some (start, a))
    else searchAttribute pool name (start + 1) rest

/-- The first attribute called `name` and its place. -/
def attribute? (pool : Pool) (attributes : List Attribute) (name : String) :
    ClassResult (Option (Nat × Attribute)) :=
  searchAttribute pool name 0 attributes

end Pool

/-- The attributes with a new body for the one at `place`. -/
def setBody (attributes : List Attribute) (place : Nat) (info : Bytes) : List Attribute :=
  attributes.modify place fun a => { a with info := info }

end Jarsmith
