import Jarsmith.ClassFile.Descriptor
import Jarsmith.Mappings.SlotNames
import Jarsmith.OrderedMap

/-!
# Mapping sets

Tables that rename classes, fields, methods and parameters from a source namespace into a target
namespace. A member is found by its name and its descriptor, both in the source namespace; a field
may be listed without a descriptor, and then stands for every field of its name.

* `MappingSet.mapClass` — the target name of a class; an inner class follows its outer class.
* `MappingSet.reverse` — the table from the target namespace back into the source namespace.
-/

namespace Jarsmith

/-- What identifies a field in a class. -/
structure FieldKey where
  name : String
  descriptor : Option String
  deriving DecidableEq, Repr

/-- What identifies a method in a class. -/
structure MethodKey where
  name : String
  descriptor : String
  deriving DecidableEq, Repr

/-- What a table says about a field. -/
structure FieldMapping where
  named : String
  javadoc : Option String
  deriving DecidableEq

/-- What a table says about a method. -/
structure MethodMapping where
  named : String
  parameters : SlotNames
  javadoc : Option String
  deriving DecidableEq

/-- What a table says about a class and its members. -/
structure ClassMapping where
  named : String
  javadoc : Option String
  fields : OrderedMap FieldKey FieldMapping
  methods : OrderedMap MethodKey MethodMapping

/-- A table of classes by their source names. -/
structure MappingSet where
  classes : OrderedMap String ClassMapping

namespace ClassMapping

/-- A class without members and documentation. -/
def new (named : String) : ClassMapping := ⟨named, none, ∅, ∅⟩

/-- The entry of a field. An entry with the same descriptor comes before the one without a
descriptor; a search without a descriptor ends with the first entry of the name. -/
def field? (c : ClassMapping) (name : String) (descriptor : Option String) :
    Option (FieldKey × FieldMapping) :=
  let exact (d : Option String) : Option (FieldKey × FieldMapping) :=
    (c.fields.get? ⟨name, d⟩).map fun f => (⟨name, d⟩, f)
  match descriptor with
  | some d => (exact (some d)).or (exact none)
  | none => (exact none).or (c.fields.entries.find? fun (key, _) => key.name == name)

/-- The entry of a method. -/
def method? (c : ClassMapping) (name descriptor : String) : Option MethodMapping :=
  c.methods.get? ⟨name, descriptor⟩

/-- The entries of all methods called `name`. -/
def methodsNamed (c : ClassMapping) (name : String) : List (MethodKey × MethodMapping) :=
  c.methods.entries.filter fun (key, _) => key.name == name

/-- Whether the entry renames nothing in the class called `name`. -/
def isIdentity (name : String) (c : ClassMapping) : Bool :=
  name == c.named && c.fields.entries.all (fun (key, f) => key.name == f.named)
    && c.methods.entries.all (fun (key, m) => key.name == m.named)

/-- Whether two entries say the same, whatever the order of their members. -/
def agrees (a b : ClassMapping) : Bool :=
  a.named == b.named && a.javadoc == b.javadoc && a.fields.agrees (· == ·) b.fields
    && a.methods.agrees (· == ·) b.methods

/-- Lists a field; an earlier entry of the same key is forgotten. -/
def addField (c : ClassMapping) (key : FieldKey) (named : String) : ClassMapping :=
  { c with fields := c.fields.insert key ⟨named, none⟩ }

/-- Lists a method; what is known about it besides its name stays. -/
def addMethod (c : ClassMapping) (key : MethodKey) (named : String) : ClassMapping :=
  { c with methods := c.methods.update key ⟨named, ∅, none⟩ fun m => { m with named := named } }

/-- Changes the entry of a method; a method without an entry gets one that renames nothing. -/
def editMethod (c : ClassMapping) (key : MethodKey) (f : MethodMapping → MethodMapping) :
    ClassMapping :=
  { c with methods := c.methods.update key ⟨key.name, ∅, none⟩ f }

/-- Names the parameter that starts in `slot`. -/
def addParameter (c : ClassMapping) (key : MethodKey) (slot : UInt16) (name : String) :
    ClassMapping :=
  c.editMethod key fun m => { m with parameters := m.parameters.insert slot name }

/-- Documents a field; a field without an entry gets one that renames nothing. -/
def documentField (c : ClassMapping) (key : FieldKey) (text : String) : ClassMapping :=
  { c with fields := c.fields.update key ⟨key.name, none⟩ fun f => { f with javadoc := some text } }

/-- Documents a method. -/
def documentMethod (c : ClassMapping) (key : MethodKey) (text : String) : ClassMapping :=
  c.editMethod key fun m => { m with javadoc := some text }

end ClassMapping

namespace MappingSet

/-- The table without entries. -/
def empty : MappingSet := ⟨∅⟩

instance : EmptyCollection MappingSet := ⟨empty⟩
instance : Inhabited MappingSet := ⟨empty⟩

/-- The number of classes. -/
def size (m : MappingSet) : Nat := m.classes.size

/-- Whether two tables say the same, whatever the order of their entries. -/
def agrees (a b : MappingSet) : Bool := a.classes.agrees ClassMapping.agrees b.classes

-- ---------------------------------------------------------------------------
-- Building
-- ---------------------------------------------------------------------------

/-- Lists a class; a class that is listed already is renamed. -/
def addClass (m : MappingSet) (name named : String) : MappingSet :=
  ⟨m.classes.update name (.new named) fun c => { c with named := named }⟩

/-- Changes the entry of a class; a class without an entry gets one that renames nothing. -/
def editClass (m : MappingSet) (name : String) (f : ClassMapping → ClassMapping) : MappingSet :=
  ⟨m.classes.update name (.new name) f⟩

/-- Lists a field of `owner`. -/
def addField (m : MappingSet) (owner name : String) (descriptor : Option String)
    (named : String) : MappingSet :=
  m.editClass owner (·.addField ⟨name, descriptor⟩ named)

/-- Lists a method of `owner`. -/
def addMethod (m : MappingSet) (owner name descriptor named : String) : MappingSet :=
  m.editClass owner (·.addMethod ⟨name, descriptor⟩ named)

/-- Names a parameter of a method of `owner` by its slot. -/
def addParameter (m : MappingSet) (owner name descriptor : String) (slot : UInt16)
    (parameter : String) : MappingSet :=
  m.editClass owner (·.addParameter ⟨name, descriptor⟩ slot parameter)

/-- Documents a class. -/
def documentClass (m : MappingSet) (owner text : String) : MappingSet :=
  m.editClass owner fun c => { c with javadoc := some text }

/-- Documents a field of `owner`. -/
def documentField (m : MappingSet) (owner name : String) (descriptor : Option String)
    (text : String) : MappingSet :=
  m.editClass owner (·.documentField ⟨name, descriptor⟩ text)

/-- Documents a method of `owner`. -/
def documentMethod (m : MappingSet) (owner name descriptor text : String) : MappingSet :=
  m.editClass owner (·.documentMethod ⟨name, descriptor⟩ text)

-- ---------------------------------------------------------------------------
-- Looking up
-- ---------------------------------------------------------------------------

/-- The entry of a class. -/
def class? (m : MappingSet) (name : String) : Option ClassMapping := m.classes.get? name

/-- A name and all ways to cut it in front of a `$`, the longest first part first. -/
def outerNames (name : String) : List (String × String) :=
  (name, "") :: (Text.cutsBefore '$' name.toList).map fun (outer, rest) =>
    (String.ofList outer, String.ofList rest)

/-- The target name of a class. A class without an entry follows the nearest class around it that
has one, and keeps the rest of its name. -/
def mapClass (m : MappingSet) (name : String) : Option String :=
  (outerNames name).findSome? fun (outer, rest) => (m.class? outer).map (·.named ++ rest)

/-- The target name of a class, or the name itself when the table does not say. -/
def className (m : MappingSet) (name : String) : String := (m.mapClass name).getD name

/-- A descriptor with the target names of its classes. -/
def mapDescriptor (m : MappingSet) (descriptor : String) : String :=
  Descriptor.rename m.className descriptor

-- ---------------------------------------------------------------------------
-- Reversing
-- ---------------------------------------------------------------------------

/-- The members of `c` by their target names and with descriptors in target names, over those of
`into`. -/
def reverseMembers (m : MappingSet) (c : ClassMapping) (into : ClassMapping) : ClassMapping :=
  { into with
    fields := c.fields.entries.foldl (fun fields (key, f) =>
      fields.insert ⟨f.named, key.descriptor.map m.mapDescriptor⟩ ⟨key.name, f.javadoc⟩) into.fields
    methods := c.methods.entries.foldl (fun methods (key, e) =>
      methods.insert ⟨e.named, m.mapDescriptor key.descriptor⟩ { e with named := key.name })
      into.methods }

/-- The table in the other direction. Two classes with one target name fall together. -/
def reverse (m : MappingSet) : MappingSet :=
  m.classes.entries.foldl (fun acc (name, c) =>
    (acc.addClass c.named name).editClass c.named fun into =>
      m.reverseMembers c { into with javadoc := c.javadoc }) ∅

end MappingSet

end Jarsmith
