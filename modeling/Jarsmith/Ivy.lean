import Jarsmith.Store.Staging
import Jarsmith.Text.Split
import Jarsmith.Version.Descriptor

/-!
# Ivy module descriptors

A file beside the jar of an artifact from which other tools learn its version and its dependencies.
It is an XML document: an element on a line of its own, what it holds four columns further in.

* `XmlElement.render` — the written form of an element;
* `Ivy.render` — the text of the file;
* `Ivy.writeIfNecessary` — writes it, unless the jar is up to date and the file is there.
-/

namespace Jarsmith

/-- An element of a document. -/
inductive XmlElement where
  /-- An element that holds nothing. -/
  | empty (name : String) (attributes : List (String × String))
  /-- An element that holds a text. -/
  | text (name content : String)
  /-- An element that holds elements. -/
  | node (name : String) (attributes : List (String × String)) (children : List XmlElement)

namespace XmlElement

/-- The written form of a character of a text. -/
def escapeInText (c : Char) : List Char :=
  match c with
  | '<' => "&lt;".toList
  | '>' => "&gt;".toList
  | '&' => "&amp;".toList
  | c => [c]

/-- The written form of a character of the value of an attribute. -/
def escapeInValue (c : Char) : List Char :=
  if c = '"' then "&quot;".toList else escapeInText c

/-- The written form of attributes. -/
def renderAttributes (attributes : List (String × String)) : String :=
  String.join (attributes.map fun (name, value) =>
    " " ++ name ++ "=\"" ++ String.ofList (value.toList.flatMap escapeInValue) ++ "\"")

/-- The columns in front of an element at a depth. -/
def indentation (depth : Nat) : String := String.ofList (List.replicate (4 * depth) ' ')

mutual

/-- The written form of an element at a depth, without the end of its line. -/
def render (depth : Nat) : XmlElement → String
  | empty name attributes => indentation depth ++ "<" ++ name ++ renderAttributes attributes ++ "/>"
  | text name content =>
    indentation depth ++ "<" ++ name ++ ">" ++ String.ofList (content.toList.flatMap escapeInText)
      ++ "</" ++ name ++ ">"
  | node name attributes children =>
    indentation depth ++ "<" ++ name ++ renderAttributes attributes ++ ">\n"
      ++ renderAll (depth + 1) children ++ indentation depth ++ "</" ++ name ++ ">"

/-- The written form of elements at a depth, each with the end of its line. -/
def renderAll (depth : Nat) : List XmlElement → String
  | [] => ""
  | e :: more => render depth e ++ "\n" ++ renderAll depth more

end

/-- The written form of a document. -/
def document (root : XmlElement) : String :=
  "<?xml version=\"1.0\" encoding=\"UTF-8\"?>\n" ++ render 0 root ++ "\n"

end XmlElement

end Jarsmith

namespace Jarsmith.Ivy

/-- The version of the form of the file, which is part of its name. -/
def layoutVersion : Nat := 2

/-- The dependencies that every artifact has. -/
def usualDependencies : List MavenCoordinate :=
  [.plain "com.google.code.findbugs" "jsr305" "3.0.2"]

/-- The path of the file for a version in the directory of an artifact. -/
def path (directory version : String) : String :=
  Path.join directory s!"ivy-{version}-vg{layoutVersion}.xml"

/-- What the file says about a dependency. -/
def dependency (c : MavenCoordinate) : XmlElement :=
  .empty "dependency" [("org", c.group), ("name", c.artifact), ("rev", c.version),
    ("transitive", "false")]

/-- What the file says about the artifact. -/
def info (artifact : String) (v : VersionDescriptor) : XmlElement :=
  let java := match v.javaMajor? with
    | some major => [XmlElement.text "mcws:javaVersion" (toString major)]
    | none => []
  .node "info" [("organisation", MavenCoordinate.gameGroup), ("module", artifact),
      ("revision", v.id), ("status", "release")]
    ([.empty "license" [("name", "Minecraft EULA"),
        ("url", "https://www.minecraft.net/en-us/eula")],
      .text "mcws:mojangStatus" v.kind.id] ++ java)

/-- The text of the file for an artifact. -/
def render (artifact : String) (v : VersionDescriptor) (dependencies : List MavenCoordinate) :
    String :=
  let all := MavenCoordinate.sorted (dependencies ++ usualDependencies)
  XmlElement.document (.node "ivy-module"
    [("version", "2.0"), ("xmlns:xsi", "http://www.w3.org/2001/XMLSchema-instance"),
      ("xmlns:mcws", "https://minecraft-workspace.dev/ivy-extra"),
      ("xsi:noNamespaceSchemaLocation", "http://ant.apache.org/ivy/schemas/ivy.xsd")]
    [info artifact v, .node "dependencies" [] (all.map dependency)])

/-- Writes the file, unless the jar is up to date and the file is there. The answer tells whether it
was written. -/
def writeIfNecessary (directory artifact : String) (v : VersionDescriptor)
    (dependencies : List MavenCoordinate) (upToDate : Bool) : FileAction Bool := do
  let target := path directory v.id
  if upToDate && (← FileAction.isFile target) then pure false
  else
    let content := Content.ofText (render artifact v dependencies)
    FileAction.writeAtomically target fun staged => FileAction.write staged content
    pure true

end Jarsmith.Ivy
