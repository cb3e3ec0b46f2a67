import Jarsmith.Mappings.Lines

/-!
# Tiny

A file with a name in each of several namespaces for every class and member; descriptors are written
in the first namespace. A file is read as a whole first (`TinyFile.parse`), then projected onto a
pair of its namespaces (`TinyFile.toMappingSet`).
-/

namespace Jarsmith

namespace Tiny

/-- A field or a method. -/
structure Member where
  descriptor : String
  names : List String
  javadoc : Option String
  parameters : List (UInt16 × List String)
  deriving DecidableEq

/-- A class. -/
structure ClassEntry where
  names : List String
  javadoc : Option String
  fields : List Member
  methods : List Member

/-- The kinds of members. -/
inductive MemberKind where
  | field
  | method
  deriving DecidableEq

/-- Puts a member behind those of its kind. -/
def ClassEntry.push (c : ClassEntry) (kind : MemberKind) (m : Member) : ClassEntry :=
  match kind with
  | .field => { c with fields := c.fields ++ [m] }
  | .method => { c with methods := c.methods ++ [m] }

/-- Changes the last element of a list. -/
def changeLast {α : Type} (f : α → α) (l : List α) : List α := l.modify (l.length - 1) f

/-- Changes the last member of a kind. -/
def ClassEntry.changeLast (c : ClassEntry) (kind : MemberKind) (f : Member → Member) : ClassEntry :=
  match kind with
  | .field => { c with fields := Tiny.changeLast f c.fields }
  | .method => { c with methods := Tiny.changeLast f c.methods }

/-- The name in the namespace at place `index`. A name that is absent or empty there is the one in
the first namespace. -/
def nameIn (names : List String) (index : Nat) : String :=
  ((names[index]?.filter (· != "")).or names.head?).getD ""

/-- The text that an escaped text stands for. -/
def unescapeChars : List Char → List Char
  | [] => []
  | '\\' :: c :: rest =>
    (match c with
      | 'n' => '\n'
      | 'r' => '\r'
      | 't' => '\t'
      | '0' => Char.ofNat 0
      | c => c) :: unescapeChars rest
  | c :: rest => c :: unescapeChars rest

/-- The text that an escaped text stands for. -/
def unescape (text : String) : String := String.ofList (unescapeChars text.toList)

end Tiny

/-- A file of names in several namespaces. -/
structure TinyFile where
  namespaces : List String
  classes : OrderedMap String Tiny.ClassEntry

namespace TinyFile

open Mappings Tiny

/-- How many names a line has. -/
def width (file : TinyFile) : Nat := file.namespaces.length

/-- Changes the class called `name` in the first namespace. A class that is not listed is called so
in every namespace. -/
def editClass (file : TinyFile) (name : String) (f : ClassEntry → ClassEntry) : TinyFile :=
  let fresh : ClassEntry := ⟨List.replicate (max 1 file.width) name, none, [], []⟩
  { file with classes := file.classes.update name fresh f }

-- ---------------------------------------------------------------------------
-- Version 1
-- ---------------------------------------------------------------------------

/-- Takes in a line of version 1. -/
def stepV1 (file : TinyFile) (line : String) : Except LineFault TinyFile :=
  if Text.isBlankText line || Text.startsWith line "#" then .ok file
  else
    match Text.split '\t' line with
    | "CLASS" :: names =>
      match names with
      | name :: _ =>
        if names.length = file.width then
          .ok (file.editClass name fun c => { c with names := names })
        else .error (.unrecognizedLine line)
      | [] => .error (.unrecognizedLine line)
    | keyword :: owner :: descriptor :: names =>
      let kind : Option MemberKind :=
        if keyword = "FIELD" then some .field
        else if keyword = "METHOD" then some .method
        else none
      match kind with
      | some kind =>
        if names.length = file.width then
          .ok (file.editClass owner (·.push kind ⟨descriptor, names, none, []⟩))
        else .error (.unrecognizedLine line)
      | none => .error (.unrecognizedLine line)
    | _ => .error (.unrecognizedLine line)

/-- The file of version 1 with the given header and lines. -/
def parseV1 (header : String) (lines : List (Nat × String)) : Except MappingFault TinyFile :=
  readLines stepV1 ⟨(Text.split '\t' header).drop 1, ∅⟩ lines

-- ---------------------------------------------------------------------------
-- Version 2
-- ---------------------------------------------------------------------------

/-- What was read of a file, with the class and the kind of its last member under which the next
lines stand. -/
structure Progress where
  file : TinyFile
  owner : Option String
  member : Option MemberKind

/-- Changes the member under which a line stands. -/
def Progress.editMember (p : Progress) (f : Tiny.Member → Tiny.Member) :
    Except LineFault Progress :=
  match p.owner, p.member with
  | some owner, some kind =>
    .ok { p with file := p.file.editClass owner (·.changeLast kind f) }
  | _, _ => .error .detailOutsideMember

/-- Takes in a class line. -/
def readClass (read : String → String) (p : Progress) (line : String) (columns : List String) :
    Except LineFault Progress :=
  match columns with
  | "c" :: names =>
    if names.length = p.file.width then
      match names.map read with
      | name :: more =>
        .ok ⟨p.file.editClass name fun c => { c with names := name :: more }, some name, none⟩
      | [] => .error .namelessClass
    else .error (.unrecognizedLine line)
  | _ => .error (.unrecognizedLine line)

/-- Takes in a line under a class: a member, or the documentation of the class. -/
def readMember (read : String → String) (p : Progress) (line : String) (columns : List String) :
    Except LineFault Progress :=
  let member (kind : MemberKind) (descriptor : String) (names : List String) :
      Except LineFault Progress :=
    match p.owner with
    | some owner =>
      .ok { p with
        file := p.file.editClass owner (·.push kind ⟨descriptor, names.map read, none, []⟩)
        member := some kind }
    | none => .error .memberOutsideClass
  let comment : Except LineFault Progress :=
    match columns, p.owner with
    | ["c", text], some owner =>
      .ok { p with
        file := p.file.editClass owner fun c => { c with javadoc := some (unescape text) }
        member := none }
    | ["c", _], none => .error .commentOutsideClass
    | _, _ => .error (.unrecognizedLine line)
  match columns with
  | "f" :: descriptor :: names =>
    if names.length = p.file.width then member .field descriptor names else comment
  | "m" :: descriptor :: names =>
    if names.length = p.file.width then member .method descriptor names else comment
  | _ => comment

/-- Takes in a line under a member: its documentation, or a parameter. Local variables are passed
over. -/
def readDetail (read : String → String) (p : Progress) (line : String) (columns : List String) :
    Except LineFault Progress :=
  match columns with
  | ["c", text] => p.editMember fun m => { m with javadoc := some (unescape text) }
  | "p" :: index :: names =>
    if names.length = p.file.width then do
      let slot ← slot index
      p.editMember fun m => { m with parameters := m.parameters ++ [(slot, names.map read)] }
    else .error (.unrecognizedLine line)
  | "v" :: _ => .ok p
  | _ => .error (.unrecognizedLine line)

/-- Takes in a line of version 2; `read` gives the name that a column writes. -/
def stepV2 (read : String → String) (p : Progress) (line : String) : Except LineFault Progress :=
  if Text.isBlankText line then .ok p
  else
    let shown := Text.trim line
    let columns := Text.split '\t' (String.ofList (line.toList.dropWhile (· == '\t')))
    match (line.toList.takeWhile (· == '\t')).length with
    | 0 => readClass read p shown columns
    | 1 => readMember read p shown columns
    | 2 => readDetail read p shown columns
    | 3 => .ok p
    | _ => .error (.unrecognizedLine shown)

/-- Whether a line of version 2 is indented by one tab, as the properties behind the header are. -/
def isProperty (line : String) : Bool :=
  match line.toList with
  | '\t' :: '\t' :: _ => false
  | '\t' :: _ => true
  | _ => false

/-- The file of version 2 with the given header and lines. -/
def parseV2 (header : String) (lines : List (Nat × String)) : Except MappingFault TinyFile :=
  let properties := lines.takeWhile fun (_, line) => isProperty line
  let escaped := properties.any fun (_, line) => Text.trim line == "escaped-names"
  let start : Progress := ⟨⟨(Text.split '\t' header).drop 3, ∅⟩, none, none⟩
  (readLines (stepV2 (if escaped then unescape else id)) start (lines.drop properties.length)).map
    (·.file)

/-- The file that a text of either version writes. -/
def parse (text : String) : Except MappingFault TinyFile :=
  match Text.numberedLines text with
  | (_, header) :: lines =>
    if Text.startsWith header "tiny\t2\t" then parseV2 header lines
    else if Text.startsWith header "v1\t" then parseV1 header lines
    else .error (.atLine 1 .noTinyHeader)
  | [] => .error (.atLine 1 .noTinyHeader)

-- ---------------------------------------------------------------------------
-- Projection
-- ---------------------------------------------------------------------------

/-- The place of a namespace. -/
def indexOf (file : TinyFile) (name : String) : Except MappingFault Nat :=
  match file.namespaces.findIdx? (· == name) with
  | some index => .ok index
  | none => .error (.unknownNamespace name file.namespaces)

/-- A descriptor of the file in the namespace at place `index`. -/
def descriptorIn (file : TinyFile) (index : Nat) (descriptor : String) : String :=
  if index = 0 then descriptor
  else
    Descriptor.rename (fun name =>
      ((file.classes.get? name).map fun c => nameIn c.names index).getD name) descriptor

/-- Lists a field in a class of the projection. -/
def projectField (file : TinyFile) (source target : Nat) (c : ClassMapping) (m : Tiny.Member) :
    ClassMapping :=
  let key : FieldKey := ⟨nameIn m.names source, some (file.descriptorIn source m.descriptor)⟩
  let c := c.addField key (nameIn m.names target)
  match m.javadoc with
  | some text => c.documentField key text
  | none => c

/-- Lists a method in a class of the projection. A parameter without a name in the target namespace
is left out. -/
def projectMethod (file : TinyFile) (source target : Nat) (c : ClassMapping) (m : Tiny.Member) :
    ClassMapping :=
  let key : MethodKey := ⟨nameIn m.names source, file.descriptorIn source m.descriptor⟩
  let c := c.addMethod key (nameIn m.names target)
  let c := match m.javadoc with
    | some text => c.documentMethod key text
    | none => c
  m.parameters.foldl (fun c (slot, names) =>
    match names[target]?.filter (· != "") with
    | some name => c.addParameter key slot name
    | none => c) c

/-- Lists a class in the projection. -/
def projectClass (file : TinyFile) (source target : Nat) (set : MappingSet) (c : ClassEntry) :
    MappingSet :=
  let owner := nameIn c.names source
  (set.addClass owner (nameIn c.names target)).editClass owner fun mapping =>
    let mapping := { mapping with javadoc := c.javadoc }
    let mapping := c.fields.foldl (file.projectField source target) mapping
    c.methods.foldl (file.projectMethod source target) mapping

/-- The table from one namespace of the file into another one. -/
def toMappingSet (file : TinyFile) (source target : String) : Except MappingFault MappingSet := do
  let source ← file.indexOf source
  let target ← file.indexOf target
  pure (file.classes.values.foldl (file.projectClass source target) ∅)

end TinyFile

end Jarsmith
