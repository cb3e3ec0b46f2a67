import Jarsmith.Mappings.Lines
import Jarsmith.Text.Split

/-!
# ProGuard

The files that obfuscators write. They put the readable name first, so that the table they write
leads from the named into the obfuscated namespace, and is reversed for use.

Types stand there as in source code: a keyword or a dotted class name, with a pair of brackets behind
it for each array dimension.
-/

namespace Jarsmith.JavaType

/-- The descriptor of a type that is no array. -/
def element : String → String
  | "void" => "V"
  | "boolean" => "Z"
  | "byte" => "B"
  | "char" => "C"
  | "short" => "S"
  | "int" => "I"
  | "long" => "J"
  | "float" => "F"
  | "double" => "D"
  | name => "L" ++ Text.replace '.' '/' name ++ ";"

/-- A reversed type without the pairs of brackets in front of it, and their number. -/
def stripBrackets : List Char → List Char × Nat
  | ']' :: '[' :: rest => ((stripBrackets rest).1, (stripBrackets rest).2 + 1)
  | text => (text, 0)

/-- The descriptor of a type. -/
def descriptor (text : String) : String :=
  let (name, dimensions) := stripBrackets (Text.trim text).toList.reverse
  String.ofList (List.replicate dimensions '[') ++ element (String.ofList name.reverse)

end Jarsmith.JavaType

namespace Jarsmith.Mappings.ProGuard

/-- What was read, with the class under which the next lines stand. -/
structure Progress where
  set : MappingSet
  owner : Option String

/-- The internal form of a dotted class name. -/
def internalName (text : String) : String := Text.replace '.' '/' (Text.trim text)

/-- Takes in a class line. -/
def readClass (p : Progress) (line : String) : Except LineFault Progress :=
  match (Text.stripSuffix? ":" line).bind (Text.splitWord? " -> ") with
  | some (name, obfuscated) =>
    let name := internalName name
    .ok ⟨p.set.addClass name (internalName obfuscated), some name⟩
  | none => .error (.malformedClassLine line)

/-- The descriptor of a method from its written arguments and return type. -/
def methodDescriptor (arguments returns : String) : String :=
  let types := (Text.split ',' arguments).filter fun a => !Text.isBlankText a
  "(" ++ String.join (types.map JavaType.descriptor) ++ ")" ++ JavaType.descriptor returns

/-- Takes in a line of a member of `owner`. Numbers of source lines may stand in front of it. -/
def readMember (p : Progress) (owner line : String) : Except LineFault Progress := do
  let some (signature, obfuscated) := Text.splitWord? " -> " line
    | throw (.malformedMemberLine line)
  let signature := String.ofList (signature.toList.dropWhile fun c => c.isDigit || c == ':')
  let some (type, rest) := Text.splitFirst? ' ' signature | throw .memberWithoutType
  let obfuscated := Text.trim obfuscated
  match Text.splitFirst? '(' rest with
  | some (name, arguments) =>
    let some arguments := Text.stripSuffix? ")" arguments | throw .unterminatedArguments
    pure { p with
      set := p.set.addMethod owner name (methodDescriptor arguments type) obfuscated }
  | none =>
    pure { p with set := p.set.addField owner rest (some (JavaType.descriptor type)) obfuscated }

/-- Takes in a line. -/
def step (p : Progress) (raw : String) : Except LineFault Progress :=
  let line := Text.trimEnd raw
  if Text.isBlankText line || Text.startsWith (Text.trimStart line) "#" then .ok p
  else if Text.startsWith line " " || Text.startsWith line "\t" then
    match p.owner with
    | some owner => readMember p owner (Text.trim line)
    | none => .error .memberBeforeClass
  else readClass p line

/-- The table as the file writes it, from the named into the obfuscated namespace. -/
def parseForward (text : String) : Except MappingFault MappingSet :=
  (readLines step ⟨∅, none⟩ (Text.numberedLines text)).map (·.set)

/-- The table from the obfuscated into the named namespace. -/
def parse (text : String) : Except MappingFault MappingSet := (parseForward text).map (·.reverse)

end Jarsmith.Mappings.ProGuard
