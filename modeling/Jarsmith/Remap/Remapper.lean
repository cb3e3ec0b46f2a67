import Jarsmith.ClassFile.Descriptor
import Jarsmith.Mappings.Basic
import Jarsmith.Remap.Hierarchy

/-!
# Remappers

How classes and members are renamed, as questions about names in the source namespace; no answer
means that the name stays. A remapper made of a table and a hierarchy renames an inherited member as
the class does that passes it on.
-/

namespace Jarsmith

/-- New names for classes, members and parameters. -/
structure Remapper where
  class? : String → Option String
  field? : (owner : String) → MemberKey → Option String
  method? : (owner : String) → MemberKey → Option String
  /-- The element of an annotation type, of which only the name is known. -/
  element? : (annotationType name : String) → Option String
  /-- The parameter that starts in the local variable `slot`. -/
  parameter? : (owner : String) → MemberKey → (slot : UInt16) → Option String

namespace Remapper

/-- The new name of a class. -/
def className (r : Remapper) (name : String) : String := (r.class? name).getD name

/-- A descriptor with the new names of its classes. -/
def descriptor (r : Remapper) (text : String) : String := Descriptor.rename r.className text

end Remapper

/-- A table of names and the hierarchy of the classes that it names. -/
structure MappingRemapper where
  mappings : MappingSet
  hierarchy : ClassHierarchy

namespace MappingRemapper

/-- The name that a table gives, if it differs from the old one. -/
def changed (name : String) (named : Option String) : Option String := named.filter (· != name)

/-- The name that the entry of `owner` gives to a method. -/
def listedMethod? (r : MappingRemapper) (owner : String) (key : MemberKey) : Option String :=
  ((r.mappings.class? owner).bind (·.method? key.name key.descriptor)).map (·.named)

/-- The name that the entry of `owner` gives to a field. -/
def listedField? (r : MappingRemapper) (owner : String) (key : MemberKey) : Option String :=
  ((r.mappings.class? owner).bind (·.field? key.name (some key.descriptor))).map (·.2.named)

/-- The name that the first of several classes gives to a method of `owner`. -/
def searchMethod (r : MappingRemapper) (owner : String) (key : MemberKey) :
    List String → Option String
  | [] => none
  | c :: more =>
    if c ≠ owner ∧ r.hierarchy.isPrivateMethod c key then r.searchMethod owner key more
    else
      match r.listedMethod? c key with
      | some named => changed key.name (some named)
      | none => r.searchMethod owner key more

/-- The name that the first of several classes gives to a field of `owner`. The search ends at a
class that declares the field: a field that is listed further up is another one. -/
def searchField (r : MappingRemapper) (owner : String) (key : MemberKey) :
    List String → Option String
  | [] => none
  | c :: more =>
    if c ≠ owner ∧ r.hierarchy.isPrivateField c key then r.searchField owner key more
    else
      match r.listedField? c key with
      | some named => changed key.name (some named)
      | none =>
        if r.hierarchy.declaresField c key then none else r.searchField owner key more

/-- The new name of a class. -/
def class? (r : MappingRemapper) (name : String) : Option String :=
  changed name (r.mappings.mapClass name)

/-- The new name of a method. Constructors and initializers keep theirs. -/
def method? (r : MappingRemapper) (owner : String) (key : MemberKey) : Option String :=
  if Text.startsWith key.name "<" then none
  else r.searchMethod owner key (r.hierarchy.lineage owner)

/-- The new name of a field. -/
def field? (r : MappingRemapper) (owner : String) (key : MemberKey) : Option String :=
  r.searchField owner key (r.hierarchy.lineage owner)

/-- The new name of an annotation element, which is a method without parameters. -/
def element? (r : MappingRemapper) (annotationType name : String) : Option String := do
  let c ← r.mappings.class? annotationType
  let (_, m) ← (c.methodsNamed name).find? fun (key, _) => Text.startsWith key.descriptor "()"
  changed name (some m.named)

/-- The name of a parameter. -/
def parameter? (r : MappingRemapper) (owner : String) (key : MemberKey) (slot : UInt16) :
    Option String := do
  let c ← r.mappings.class? owner
  let m ← c.method? key.name key.descriptor
  m.parameters.get? slot

/-- The table and the hierarchy as a remapper. -/
def toRemapper (r : MappingRemapper) : Remapper :=
  ⟨r.class?, r.field?, r.method?, r.element?, r.parameter?⟩

end MappingRemapper

/-- The remapper of a table for classes of a hierarchy. -/
def MappingSet.remapper (set : MappingSet) (hierarchy : ClassHierarchy) : Remapper :=
  (MappingRemapper.mk set hierarchy).toRemapper

end Jarsmith
