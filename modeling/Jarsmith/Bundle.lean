import Jarsmith.Jar.Entry
import Jarsmith.Jar.Manifest
import Jarsmith.Store.Staging
import Jarsmith.Text.Split

/-!
# Bundles

A bundle is a jar that holds the real jar of a server and its libraries as entries. Lists in the
bundle say which entries these are; an attribute of the manifest tells the version of the format.

* `FormatVersion.isReadableBy` — which reader understands which version;
* `Bundle.ofEntries` — what a jar says about itself, or none if it is no bundle;
* `Bundle.extractServer` — writes the jar of the server to a file of its own.
-/

namespace Jarsmith

/-- The version of the format of a bundle. -/
structure FormatVersion where
  major : Nat
  minor : Nat
  deriving DecidableEq, Repr

namespace FormatVersion

/-- The newest version that the library reads. -/
def reader : FormatVersion := ⟨1, 0⟩

/-- Reads a version: two numbers with a dot between them; what follows another dot does not
count. -/
def parse (text : String) : Result FormatVersion :=
  let fault : Result FormatVersion := .error (.bundle (.invalidVersion text))
  match Text.split '.' (Text.trim text) with
  | major :: minor :: _ =>
    match Text.decimalBelow? UInt32.size major, Text.decimalBelow? UInt32.size minor with
    | some major, some minor => .ok ⟨major, minor⟩
    | _, _ => fault
  | _ => fault

/-- The written form. -/
def render (v : FormatVersion) : String := s!"{v.major}.{v.minor}"

/-- Whether a reader of version `reader` understands version `v`. -/
def isReadableBy (v reader : FormatVersion) : Bool :=
  reader.major == v.major && reader.minor ≥ v.minor

end FormatVersion

/-- A line of a list in a bundle. -/
structure BundleElement where
  sha256 : String
  /-- A Maven coordinate. -/
  id : String
  /-- The path of the entry in the bundle. -/
  path : String
  deriving DecidableEq, Repr

/-- What a bundle says about itself. -/
structure Bundle where
  version : FormatVersion
  libraries : List BundleElement
  server : BundleElement
  mainClass : Option String
  deriving DecidableEq, Repr

namespace Bundle

/-- The attribute with the version of the format. -/
def formatAttribute : String := "Bundler-Format"

/-- The data of the entry of the given name. -/
def data? (entries : List ArchiveEntry) (name : String) : Option Bytes :=
  (entries.find? (·.name == name)).map (·.data)

/-- Reads a line of the list `index`. -/
def element (index line : String) : Result BundleElement :=
  match Text.split '\t' line with
  | sha256 :: id :: path :: _ => .ok ⟨sha256, id, s!"META-INF/{index}/{path}"⟩
  | _ => .error (.bundle (.malformedLine index line))

/-- Reads the list `index`; a list that is not there is empty. -/
def elements (entries : List ArchiveEntry) (index : String) : Result (List BundleElement) :=
  match data? entries s!"META-INF/{index}.list" with
  | none => .ok []
  | some data =>
    let lines := (Text.lines (Utf8.lenient data)).filter fun line => !Text.isBlankText line
    lines.mapM (element index)

/-- What the jar at `path` with the given entries says about itself; none if it is no bundle. -/
def ofEntries (path : String) (entries : List ArchiveEntry) : Result (Option Bundle) := do
  let manifest := (data? entries ArchiveEntry.manifestPath).map JarManifest.parse
  match manifest.bind (·.mainAttribute? formatAttribute) with
  | none => pure none
  | some format =>
    let version ← FormatVersion.parse format
    if !version.isReadableBy .reader then
      throw (.bundle (.incompatible path version.render FormatVersion.reader.render))
    let server ← match ← elements entries "versions" with
      | server :: _ => pure server
      | [] => throw (.bundle .noServer)
    let libraries ← elements entries "libraries"
    let mainClass := (data? entries "META-INF/main-class").map fun data =>
      Text.trim (Utf8.lenient data)
    pure (some ⟨version, libraries, server, mainClass⟩)

/-- What the jar at `path` says about itself; none if it is no bundle. -/
def read (path : String) : FileAction (Option Bundle) := do
  FileAction.lift (ofEntries path (← FileAction.entries path))

/-- Writes the jar of the server in the bundle at `path` to `output`. -/
def extractServer (b : Bundle) (path output : String) : FileAction Unit := do
  match data? (← FileAction.entries path) b.server.path with
  | some data => FileAction.write output (.raw data)
  | none => throw (.bundle (.serverMissing path b.server.path))

end Bundle

end Jarsmith
