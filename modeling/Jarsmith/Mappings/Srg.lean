import Jarsmith.Mappings.Lines

/-!
# SRG, CSRG and TSRG

Formats of one line per name. SRG lines start with a keyword and write members as `owner/name`; a
CSRG line is told by its number of columns.

In TSRG members stand under their class, indented by a tab. Version 2 opens with a header that lists
the namespaces, of which the first two are read; its fields may have a descriptor, and the lines under
a method name its parameters.
-/

namespace Jarsmith.Mappings

namespace Srg

/-- The owner and the name of a member; `missing` is the fault of a path without an owner. -/
def member (missing : LineFault) (path : String) : Except LineFault (String × String) :=
  match Text.splitLast? '/' path with
  | some parts => .ok parts
  | none => .error missing

/-- Lists a field by its two paths. -/
def addField (set : MappingSet) (source : String) (descriptor : Option String) (target : String) :
    Except LineFault MappingSet := do
  let (owner, name) ← member .fieldWithoutOwner source
  let (_, named) ← member .fieldWithoutOwner target
  pure (set.addField owner name descriptor named)

/-- Takes in a line. -/
def step (set : MappingSet) (line : String) : Except LineFault MappingSet :=
  match Text.words line with
  | "PK:" :: _ => .ok set
  | ["CL:", name, named] => .ok (set.addClass name named)
  | ["FD:", source, target] => addField set source none target
  | ["FD:", source, descriptor, target, _] => addField set source (some descriptor) target
  | ["MD:", source, descriptor, target, _] => do
    let (owner, name) ← member .methodWithoutOwner source
    let (_, named) ← member .methodWithoutOwner target
    pure (set.addMethod owner name descriptor named)
  | _ => .error (.unrecognizedLine line)

/-- The table that an SRG text writes. -/
def parse (text : String) : Except MappingFault MappingSet :=
  readLines step ∅ (contentLines text)

end Srg

namespace Csrg

/-- Takes in a line. A package line, whose source name ends in `/`, says nothing about classes. -/
def step (set : MappingSet) (line : String) : Except LineFault MappingSet :=
  match Text.words line with
  | [name, named] => .ok (if Text.endsWith name "/" then set else set.addClass name named)
  | [owner, name, named] => .ok (set.addField owner name none named)
  | [owner, name, descriptor, named] => .ok (set.addMethod owner name descriptor named)
  | _ => .error (.unrecognizedLine line)

/-- The table that a CSRG text writes. -/
def parse (text : String) : Except MappingFault MappingSet :=
  readLines step ∅ (contentLines text)

end Csrg

end Jarsmith.Mappings

namespace Jarsmith.Mappings.Tsrg

/-- What the header says about the columns of the lines. -/
structure Layout where
  /-- How many names stand in a line. -/
  names : Nat
  /-- Whether fields may have a descriptor and methods may have parameters. -/
  detailed : Bool

/-- The layout without a header. -/
def Layout.plain : Layout := ⟨2, false⟩

/-- The layout that a first line declares, if it is a header. -/
def Layout.ofHeader? (line : String) : Option Layout :=
  (Text.stripPrefix? "tsrg2 " line).map fun names => ⟨max 2 (Text.words names).length, true⟩

/-- What was read, with the class and the method under which the next lines stand. -/
structure Progress where
  set : MappingSet
  owner : Option String
  method : Option MethodKey

/-- Takes in a class line. -/
def readClass (p : Progress) (columns : List String) : Except LineFault Progress :=
  match columns with
  | name :: named :: _ =>
    .ok <| if Text.endsWith name "/" then { p with owner := none, method := none }
      else ⟨p.set.addClass name named, some name, none⟩
  | _ => .error .classNeedsTwoNames

/-- Takes in a line of a member of `owner`. -/
def readMember (layout : Layout) (p : Progress) (owner line : String) (columns : List String) :
    Except LineFault Progress :=
  let wide := columns.length = layout.names + 1
  let field (name : String) (descriptor : Option String) (named : String) : Progress :=
    { p with set := p.set.addField owner name descriptor named, method := none }
  match columns with
  | name :: second :: more =>
    match more with
    | named :: _ =>
      if wide ∧ Text.startsWith second "(" then
        .ok { p with set := p.set.addMethod owner name second named, method := some ⟨name, second⟩ }
      else if layout.detailed ∧ wide then .ok (field name (some second) named)
      else if columns.length = layout.names then .ok (field name none second)
      else .error (.unrecognizedMember (Text.trim line))
    | [] =>
      if columns.length = layout.names then .ok (field name none second)
      else .error (.unrecognizedMember (Text.trim line))
  | _ => .error (.unrecognizedMember (Text.trim line))

/-- Takes in a line under a method of `owner`. -/
def readParameter (p : Progress) (owner : String) (method : MethodKey) (columns : List String) :
    Except LineFault Progress :=
  match columns with
  | ["static"] => .ok p
  | index :: _ :: name :: _ => do
    let slot ← slot index
    pure { p with set := p.set.addParameter owner method.name method.descriptor slot name }
  | _ => .error .malformedParameterLine

/-- Takes in a line. -/
def step (layout : Layout) (p : Progress) (line : String) : Except LineFault Progress :=
  let columns := Text.words line
  match (line.toList.takeWhile (· == '\t')).length with
  | 0 => readClass p columns
  | 1 =>
    match p.owner with
    | some owner => readMember layout p owner line columns
    | none => .error .memberOutsideClass
  | depth =>
    if depth = 2 ∧ layout.detailed then
      match p.owner, p.method with
      | some owner, some method => readParameter p owner method columns
      | _, _ => .error .parameterOutsideMethod
    else .error .unexpectedIndentation

/-- The table that a TSRG text of either version writes. -/
def parse (text : String) : Except MappingFault MappingSet :=
  let lines := contentLines text
  let start : Progress := ⟨∅, none, none⟩
  let header := lines.head?.bind fun (_, line) => Layout.ofHeader? line
  match header with
  | some layout => (readLines (step layout) start lines.tail).map (·.set)
  | none => (readLines (step .plain) start lines).map (·.set)

end Jarsmith.Mappings.Tsrg
