import Jarsmith.Downloader
import Jarsmith.Jar.Transform
import Jarsmith.Mappings.Layers
import Jarsmith.Platform

/-!
# Modifiers

Things that can be done to the jar of a platform. A modifier adds its key and a digest of its inputs
to the name of the artifact, so that what is made in different ways has different names.

* `Modifier.validate` — which modifiers go together, and in which order;
* `Modifier.decorate` — the name of an artifact after some modifiers;
* `Modifier.pinned` — a modifier that keeps its digest whatever becomes of its inputs;
* `Modifier.widening` — the modifier that widens access. It follows access wideners in files of the
  project, so what it makes belongs to the project.
* `Modifier.official` — the names that are published with a version, one table for each side;
* `Modifier.layered` — the names of a stack of mapping files.
-/

namespace Jarsmith

/-- Something that can be done to a jar. -/
structure Modifier where
  /-- The kind of the modifier in names. -/
  key : String
  /-- The digest of the inputs. -/
  stateKey : FileAction String
  /-- Whether the result belongs to the project and not to all of them. -/
  isLocal : Bool
  /-- Whether classes get new names. -/
  remaps : Bool
  /-- Whether the inputs use the new names of classes. -/
  followsRemap : Bool
  /-- The stages for the jar of an environment. -/
  transformers : Downloader → Environment → Action (List Transformer)

namespace Modifier

-- ---------------------------------------------------------------------------
-- Modifiers that go together
-- ---------------------------------------------------------------------------

/-- The first key of a list that was in the list before. -/
def repeated? : (seen : List String) → List String → Option String
  | _, [] => none
  | seen, key :: more => if seen.contains key then some key else repeated? (key :: seen) more

/-- What is wrong with a list of modifiers: a key comes up twice, several modifiers give new names,
or one that uses new names comes before the one that gives them. -/
def fault? (modifiers : List Modifier) : Option ConfigurationFault :=
  let remappers := modifiers.filter (·.remaps)
  match repeated? [] (modifiers.map (·.key)), remappers with
  | some key, _ => some (.repeatedModifier key)
  | none, [] => none
  | none, [remapper] =>
    let before := modifiers.takeWhile fun m => !m.remaps
    (before.find? (·.followsRemap)).map fun early => .earlyModifier early.key remapper.key
  | none, several => some (.severalRemappers (several.map (·.key)))

/-- Refuses modifiers that do not go together. -/
def validate (modifiers : List Modifier) : Result Unit :=
  match fault? modifiers with
  | none => .ok ()
  | some fault => .error (.configuration fault)

-- ---------------------------------------------------------------------------
-- Names
-- ---------------------------------------------------------------------------

/-- What a modifier adds to the name of an artifact. -/
def tag (key stateKey : String) : String := "_" ++ key ++ "-" ++ stateKey

/-- The name of an artifact after some modifiers. -/
def decorate (base : String) (modifiers : List Modifier) : FileAction String := do
  let tags ← modifiers.mapM fun m => do pure (tag m.key (← m.stateKey))
  pure (base ++ String.join tags)

/-- Whether the artifact after some modifiers belongs to the project. -/
def areLocal (modifiers : List Modifier) : Bool := modifiers.any (·.isLocal)

/-- The modifier with the digest that it has now, if it has one. -/
def pinned (m : Modifier) : FileAction Modifier := do
  match ← observing m.stateKey with
  | .ok stateKey => pure { m with stateKey := pure stateKey }
  | .error _ => pure m

-- ---------------------------------------------------------------------------
-- Stages
-- ---------------------------------------------------------------------------

/-- The stages that give the classes of a jar the names of a table. -/
def remapping (set : MappingSet) (jar : String) : FileAction (List Transformer) := do
  pure [.remap (set.remapper (← Jar.hierarchy jar))]

end Modifier

-- ---------------------------------------------------------------------------
-- Widening access
-- ---------------------------------------------------------------------------

namespace AccessWidener

/-- The rules of several files, which must be for the given namespace. -/
def readFiles (files : List String) (expected : Option String) : FileAction AccessWidener :=
  files.foldlM
    (fun w file => do
      let text ← FileAction.readText file
      match w.read text expected with
      | (w, .ok ()) => pure w
      | (_, .error e) => throw e)
    empty

/-- The digest of a namespace and several files, each with a mark behind it. -/
def filesDigest (files : List String) (expected : Option String) : FileAction String := do
  let contents ← files.mapM fun file => do pure ((← FileAction.read file).bytes ++ [0])
  let naming := (expected.map Utf8.encode).getD []
  pure (HashAlgorithm.sha1.digest (naming ++ [0] ++ contents.flatten))

end AccessWidener

namespace Modifier

/-- Widens access as the files say, which must be for the given namespace. -/
def widening (files : List String) (expected : Option String) : Modifier where
  key := "aw"
  stateKey := AccessWidener.filesDigest files expected
  isLocal := true
  remaps := false
  followsRemap := true
  transformers _ _ := do
    let w ← (AccessWidener.readFiles files expected : FileAction AccessWidener)
    pure [.widenAccess w]

-- ---------------------------------------------------------------------------
-- Published names
-- ---------------------------------------------------------------------------

/-- The path of the published names of a side in the cache. -/
def officialPath (side : Side) (version : String) : String :=
  MavenCoordinate.gamePath (side.id ++ "_m-obf") version (some "mappings") "txt"

/-- The table of the published names of a side. -/
def officialNames (d : Downloader) (v : VersionDescriptor) (side : Side) : Action MappingSet := do
  let unknown : Error := .noOfficialMappings v.id side.id
  let some download := v.download? side.mappingsDownload | throw unknown
  match ← d.downloadValid download.url (officialPath side v.id) .sha1 download.sha1 with
  | .notFound => throw unknown
  | .found path _ => do
    let text ← (FileAction.readText path : FileAction String)
    MappingFormat.proguard.readText text

/-- Gives the names that are published with the version. -/
def official : Modifier where
  key := "map"
  stateKey := pure ""
  isLocal := false
  remaps := true
  followsRemap := false
  transformers d env := do
    let merged ← env.platform.sides.foldlM
      (fun (merged : MappingSet) side => do
        pure (merged.merge (← officialNames d env.version side))) ∅
    remapping merged env.jar

-- ---------------------------------------------------------------------------
-- Names of a stack
-- ---------------------------------------------------------------------------

/-- Gives the names of a stack with the given digest. -/
def ofLayers (layers : List ResolvedLayer) (stateKey : String) : Modifier where
  key := "cm"
  stateKey := pure stateKey
  isLocal := false
  remaps := true
  followsRemap := false
  transformers _ env := do
    let merged ← ResolvedLayer.readAll layers
    remapping merged env.jar

/-- Gives the names of a stack. Its files are found, and its digest is taken, at once. -/
def layered (specs : List LayerSpec) : FileAction Modifier := do
  let layers ← (← MappingLayers.ofSpecs specs).resolve
  pure (ofLayers layers (← ResolvedLayer.stateKey layers))

end Modifier

end Jarsmith
