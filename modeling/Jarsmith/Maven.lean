import Jarsmith.Error
import Jarsmith.Store.Path

/-!
# Maven coordinates

The names of artifacts: a group, an artifact, a version, perhaps a classifier, and a packaging.

* `MavenCoordinate.parse` reads `group:artifact:version[:classifier][@packaging]`.
* `MavenCoordinate.render` writes it; the usual packaging is left out.
* `MavenCoordinate.path` is the path of the artifact in a repository.
-/

namespace Jarsmith

/-- The name of an artifact. -/
structure MavenCoordinate where
  group : String
  artifact : String
  version : String
  classifier : Option String
  packaging : String
  deriving DecidableEq, Repr

namespace MavenCoordinate

/-- The packaging of a coordinate that names none. -/
def usualPackaging : String := "jar"

/-- The group of the artifacts that the library makes. -/
def gameGroup : String := "net.minecraft"

/-- The coordinate without classifier and with the usual packaging. -/
def plain (group artifact version : String) : MavenCoordinate :=
  ⟨group, artifact, version, none, usualPackaging⟩

/-- The text in front of the last `@`, and the packaging behind it. -/
def splitPackaging (text : String) : String × String :=
  (Text.splitLast? '@' text).getD (text, usualPackaging)

/-- Reads a coordinate. Neither of its parts may be empty, except for the packaging. -/
def parse (text : String) : Result MavenCoordinate :=
  let (names, packaging) := splitPackaging text
  let parts := Text.split ':' names
  if parts.any (·.isEmpty) then .error (.invalidCoordinate text)
  else
    match parts with
    | [group, artifact, version] => .ok ⟨group, artifact, version, none, packaging⟩
    | [group, artifact, version, classifier] =>
      .ok ⟨group, artifact, version, some classifier, packaging⟩
    | _ => .error (.invalidCoordinate text)

/-- The written form. -/
def render (c : MavenCoordinate) : String :=
  c.group ++ ":" ++ c.artifact ++ ":" ++ c.version
    ++ (match c.classifier with
      | some classifier => ":" ++ classifier
      | none => "")
    ++ (if c.packaging = usualPackaging then "" else "@" ++ c.packaging)

instance : ToString MavenCoordinate := ⟨render⟩

/-- The group and the artifact, which tell a library whatever its version. -/
def module (c : MavenCoordinate) : String := c.group ++ ":" ++ c.artifact

/-- The group as a path. -/
def groupPath (c : MavenCoordinate) : String := Text.replace '.' '/' c.group

/-- The name of a file for an artifact. -/
def fileNameOf (artifact version : String) (classifier : Option String) (extension : String) :
    String :=
  artifact ++ "-" ++ version
    ++ (match classifier with
      | some classifier => "-" ++ classifier
      | none => "")
    ++ "." ++ extension

/-- The path, in a cache, of a file that the library makes or downloads for an artifact of the
game. -/
def gamePath (artifact version : String) (classifier : Option String) (extension : String) :
    String :=
  "libraries/" ++ Text.replace '.' '/' gameGroup ++ "/" ++ artifact ++ "/" ++ version ++ "/"
    ++ fileNameOf artifact version classifier extension

/-- The name of the file. -/
def fileName (c : MavenCoordinate) : String :=
  fileNameOf c.artifact c.version c.classifier c.packaging

/-- The directory of a version in a repository. -/
def directory (c : MavenCoordinate) : String :=
  Path.join (Path.join c.groupPath c.artifact) c.version

/-- The path of the file in a repository. -/
def path (c : MavenCoordinate) : String := Path.join c.directory c.fileName

/-- The coordinate with another classifier. -/
def withClassifier (c : MavenCoordinate) (classifier : String) : MavenCoordinate :=
  { c with classifier := some classifier }

/-- The coordinate with another packaging. -/
def withPackaging (c : MavenCoordinate) (packaging : String) : MavenCoordinate :=
  { c with packaging := packaging }

-- ---------------------------------------------------------------------------
-- Order
-- ---------------------------------------------------------------------------

/-- Compares what may be missing; nothing comes first. -/
def compareOptional : Option String → Option String → Ordering
  | none, none => .eq
  | none, some _ => .lt
  | some _, none => .gt
  | some a, some b => compare a b

/-- The order by group, artifact, version, classifier and packaging. -/
def order (a b : MavenCoordinate) : Ordering :=
  (compare a.group b.group).then <| (compare a.artifact b.artifact).then <|
    (compare a.version b.version).then <| (compareOptional a.classifier b.classifier).then <|
      compare a.packaging b.packaging

/-- The coordinates in order, each once. -/
def sorted (coordinates : List MavenCoordinate) : List MavenCoordinate :=
  coordinates.eraseDups.mergeSort fun a b => order a b != .gt

end MavenCoordinate

end Jarsmith
