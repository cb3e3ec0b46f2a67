import Jarsmith.Ivy
import Jarsmith.Platform
import Jarsmith.Version.Repository

/-!
# Resolvers

What a resolver works with, where it puts what it makes, and when it makes it anew.

* `Resolver.artifactPath` — the path of the jar of an artifact below a root;
* `Resolver.refresh` — makes a jar, unless its inputs and itself are up to date;
* `Resolver.deleteDerived` — deletes what was made from a jar that is about to change.
-/

namespace Jarsmith

/-- Something that makes jars of the game. -/
structure Resolver where
  /-- Gets files to the cache that all projects share. -/
  downloader : Downloader
  /-- The cache of the project. -/
  localRoot : String
  /-- Whether everything is made anew. -/
  forceRefresh : Bool
  manifestUrl : String

namespace Resolver

/-- The resolver for a project with the given settings. -/
def ofSettings (s : WorkspaceSettings) (project : String) : Resolver :=
  ⟨.staged s.resolveMode s.sharedCache, s.localCacheIn project, s.forceRefresh, s.manifestUrl⟩

/-- The versions that the resolver knows. -/
def repository (r : Resolver) : VersionRepository := ⟨r.downloader, r.manifestUrl⟩

/-- The cache that all projects share. -/
def sharedRoot (r : Resolver) : String := r.downloader.root

-- ---------------------------------------------------------------------------
-- Places
-- ---------------------------------------------------------------------------

/-- The path of the jar of an artifact below a root. -/
def artifactPath (root artifact version : String) : String :=
  Path.join root (MavenCoordinate.gamePath artifact version none "jar")

/-- The path of the download of a platform in the shared cache. -/
def downloadPath (p : Platform) (version : String) : String :=
  MavenCoordinate.gamePath (p.id ++ "_m-obf_b-bundled") version none "jar"

-- ---------------------------------------------------------------------------
-- Making jars
-- ---------------------------------------------------------------------------

/-- Writes the module descriptor beside the jar of an environment, unless the jar is up to date and
the file is there. -/
def writeMetadata (env : Environment) (upToDate : Bool) : FileAction Unit :=
  during env.artifact "write metadata" do
    if let some directory := Path.parent? env.jar then
      let _ ← Ivy.writeIfNecessary directory env.artifact env.version env.dependencies upToDate

/-- Makes the jar of an environment, unless the jar is there and the inputs are up to date. -/
def refresh (r : Resolver) (env : Environment) (inputsUpToDate : Bool) (make : Action Unit) :
    Action (Lookup Environment) := do
  let upToDate := !r.forceRefresh && inputsUpToDate && (← FileAction.isFile env.jar)
  if !upToDate then make
  writeMetadata env upToDate
  pure (.found env upToDate)

/-- Deletes the jars beside the jar at `base`, which is that of a platform. They were made from
it. -/
def deleteDerived (p : Platform) (version base : String) : FileAction Unit := do
  if let some directory := Path.parent? base then
    let names := (← getThe Store).namesIn directory
    let derived := names.filter fun name =>
      Path.extension? name == some "jar" && Path.fileName? base != some name
    let stuck ← FileAction.discardAll (derived.map (Path.join directory))
    if stuck ≠ 0 then throw (.undeletable stuck p.id version)

end Resolver

end Jarsmith
