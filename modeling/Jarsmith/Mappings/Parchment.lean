import Jarsmith.Error
import Jarsmith.Json.Value
import Jarsmith.Mappings.Basic

/-!
# Parchment

Exports of documentation and parameter names, keyed by target names. Every entry renames nothing;
the table is meant to be merged onto one that names classes and members.
-/

namespace Jarsmith.Mappings.Parchment

/-- A documented parameter. -/
structure Parameter where
  slot : UInt16
  name : Option String

/-- A documented field. -/
structure Field where
  name : String
  descriptor : String
  javadoc : List String

/-- A documented method. -/
structure Method where
  name : String
  descriptor : String
  javadoc : List String
  parameters : List Parameter

/-- A documented class. -/
structure ClassEntry where
  name : String
  javadoc : List String
  fields : List Field
  methods : List Method

-- ---------------------------------------------------------------------------
-- Reading
-- ---------------------------------------------------------------------------

open JsonValue

/-- The lines of a documentation text. -/
def docLines (r : JsonRecord) : Option (List String) := r.defaulted "javadoc" [] (list? string?)

/-- Reads a parameter. -/
def parameter? (v : JsonValue) : Option Parameter := do
  let r ← v.record? ["index", "name"]
  let slot ← r.required "index" (natBelow? 65536)
  let name ← r.nullable "name" string?
  some ⟨UInt16.ofNat slot, name⟩

/-- Reads a field. -/
def field? (v : JsonValue) : Option Field := do
  let r ← v.record? ["name", "descriptor", "javadoc"]
  let name ← r.required "name" string?
  let descriptor ← r.required "descriptor" string?
  let javadoc ← docLines r
  some ⟨name, descriptor, javadoc⟩

/-- Reads a method. -/
def method? (v : JsonValue) : Option Method := do
  let r ← v.record? ["name", "descriptor", "javadoc", "parameters"]
  let name ← r.required "name" string?
  let descriptor ← r.required "descriptor" string?
  let javadoc ← docLines r
  let parameters ← r.defaulted "parameters" [] (list? parameter?)
  some ⟨name, descriptor, javadoc, parameters⟩

/-- Reads a class. -/
def class? (v : JsonValue) : Option ClassEntry := do
  let r ← v.record? ["name", "javadoc", "fields", "methods"]
  let name ← r.required "name" string?
  let javadoc ← docLines r
  let fields ← r.defaulted "fields" [] (list? field?)
  let methods ← r.defaulted "methods" [] (list? method?)
  some ⟨name, javadoc, fields, methods⟩

/-- Reads an export. -/
def export? (v : JsonValue) : Option (List ClassEntry) := do
  let r ← v.record? ["classes"]
  r.defaulted "classes" [] (list? class?)

-- ---------------------------------------------------------------------------
-- The table
-- ---------------------------------------------------------------------------

/-- The documentation that lines hold, if there is any. -/
def joined (lines : List String) : Option String :=
  if lines.isEmpty then none else some ("\n".intercalate lines)

/-- Lists a field. A field with documentation keeps the entry it has. -/
def addField (c : ClassMapping) (f : Field) : ClassMapping :=
  let key : FieldKey := ⟨f.name, some f.descriptor⟩
  match joined f.javadoc with
  | some text => c.documentField key text
  | none => c.addField key f.name

/-- Lists a method. -/
def addMethod (c : ClassMapping) (m : Method) : ClassMapping :=
  let key : MethodKey := ⟨m.name, m.descriptor⟩
  let c := c.addMethod key m.name
  let c := match joined m.javadoc with
    | some text => c.documentMethod key text
    | none => c
  m.parameters.foldl (fun c p =>
    match p.name with
    | some name => c.addParameter key p.slot name
    | none => c) c

/-- Lists a class. -/
def addClass (set : MappingSet) (c : ClassEntry) : MappingSet :=
  (set.addClass c.name c.name).editClass c.name fun mapping =>
    let mapping := match joined c.javadoc with
      | some text => { mapping with javadoc := some text }
      | none => mapping
    c.methods.foldl addMethod (c.fields.foldl addField mapping)

/-- The table that an export writes. -/
def parse (text : String) : Except MappingFault MappingSet :=
  match (JsonValue.parse text).bind export? with
  | some classes => .ok (classes.foldl addClass ∅)
  | none => .error .document

end Jarsmith.Mappings.Parchment
