import Jarsmith.Mappings.Basic

/-!
# Merging mapping sets

The union of two tables in which the later one wins every conflict. An entry that renames nothing
has no opinion about a name, so it never undoes a renaming; it only brings documentation and
parameter names.

A class of the later table that renames nothing at all is looked for among the *target* names of the
earlier one. When it is found there, its members are carried back into the source namespace first
(`overlay`).
-/

namespace Jarsmith

/-- What the field called `name` is after a later entry. -/
def FieldMapping.overriddenBy (name : String) (earlier later : FieldMapping) : FieldMapping :=
  { named := if later.named = name then earlier.named else later.named
    javadoc := later.javadoc.or earlier.javadoc }

/-- What the method called `name` is after a later entry. -/
def MethodMapping.overriddenBy (name : String) (earlier later : MethodMapping) : MethodMapping :=
  { named := if later.named = name then earlier.named else later.named
    parameters := earlier.parameters.overriddenBy later.parameters
    javadoc := later.javadoc.or earlier.javadoc }

namespace ClassMapping

/-- Takes in a later entry of a field. One without a descriptor stands for every field of its name
and overrides all of them; one with a descriptor takes the place of the one without. -/
def mergeField (c : ClassMapping) (key : FieldKey) (later : FieldMapping) : ClassMapping :=
  match key.descriptor with
  | none =>
    if c.fields.keys.any fun k => k.name == key.name then
      { c with fields := c.fields.mapValues fun k f =>
          if k.name = key.name then f.overriddenBy key.name later else f }
    else { c with fields := c.fields.insert key later }
  | some _ =>
    let loose := c.fields.get? ⟨key.name, none⟩
    let fields := c.fields.erase ⟨key.name, none⟩
    let earlier := ((fields.get? key).or loose).getD later
    { c with fields := fields.insert key (earlier.overriddenBy key.name later) }

/-- Takes in a later entry of a method. -/
def mergeMethod (c : ClassMapping) (key : MethodKey) (later : MethodMapping) : ClassMapping :=
  { c with methods := c.methods.insert key <|
      match c.methods.get? key with
      | some earlier => earlier.overriddenBy key.name later
      | none => later }

/-- The entry of the class called `name` after a later entry. -/
def overriddenBy (name : String) (earlier later : ClassMapping) : ClassMapping :=
  let c := { earlier with
    named := if later.named = name then earlier.named else later.named
    javadoc := later.javadoc.or earlier.javadoc }
  let c := later.fields.entries.foldl (fun c (key, f) => c.mergeField key f) c
  later.methods.entries.foldl (fun c (key, m) => c.mergeMethod key m) c

end ClassMapping

namespace MappingSet

/-- A descriptor with the target names of the listed classes; inner classes do not follow their
outer class here. -/
def listedDescriptor (m : MappingSet) (descriptor : String) : String :=
  Descriptor.rename (fun name => ((m.class? name).map (·.named)).getD name) descriptor

/-- The field of `target` that is called `key` in the target namespace. -/
def fieldNamed? (m : MappingSet) (target : ClassMapping) (key : FieldKey) : Option FieldKey :=
  (target.fields.entries.find? fun (k, f) =>
    f.named == key.name &&
      match k.descriptor, key.descriptor with
      | some ours, some theirs => m.listedDescriptor ours == theirs
      | _, _ => true).map (·.1)

/-- The method of `target` that is called `key` in the target namespace. A class that kept its name
may have methods without an entry, which kept theirs. -/
def methodNamed? (m : MappingSet) (name : String) (target : ClassMapping) (key : MethodKey) :
    Option MethodKey :=
  match target.methods.entries.find? fun (k, e) =>
      e.named == key.name && m.listedDescriptor k.descriptor == key.descriptor with
  | some (k, _) => some k
  | none => if name = target.named then some key else none

/-- What `later`, an entry in target names, says about the class called `name` with the entry
`target`, in source names. It renames nothing. -/
def overlay (m : MappingSet) (name : String) (target later : ClassMapping) : ClassMapping :=
  { named := name
    javadoc := later.javadoc
    fields := later.fields.entries.foldl (fun fields (key, f) =>
      match m.fieldNamed? target key with
      | some k => fields.insert k ⟨k.name, f.javadoc⟩
      | none => fields) ∅
    methods := later.methods.entries.foldl (fun methods (key, e) =>
      match m.methodNamed? name target key with
      | some k => methods.insert k { e with named := k.name }
      | none => methods) ∅ }

/-- A table on the way to a union: its classes, and the class that last took a target name. -/
structure Merging where
  set : MappingSet
  byNamed : OrderedMap String String

namespace Merging

/-- Takes in the later entry of the class called `name`. -/
def add (s : Merging) (name : String) (later : ClassMapping) : Merging :=
  match s.set.class? name with
  | some earlier =>
    let c := earlier.overriddenBy name later
    ⟨⟨s.set.classes.insert name c⟩, s.byNamed.insert c.named name⟩
  | none =>
    let owner := if later.isIdentity name then s.byNamed.get? name else none
    match owner.bind fun owner => (s.set.class? owner).map (owner, ·) with
    | some (owner, target) =>
      let c := target.overriddenBy owner (s.set.overlay owner target later)
      { s with set := ⟨s.set.classes.insert owner c⟩ }
    | none => ⟨⟨s.set.classes.insert name later⟩, s.byNamed.insert later.named name⟩

end Merging

/-- The union of two tables; `later` wins every conflict. -/
def merge (m later : MappingSet) : MappingSet :=
  let start : Merging :=
    ⟨m, m.classes.entries.foldl (fun byNamed (name, c) => byNamed.insert c.named name) ∅⟩
  (later.classes.entries.foldl (fun s (name, c) => s.add name c) start).set

end MappingSet

end Jarsmith
