import Jarsmith.Modifier.Basic
import Jarsmith.Resolver.Provide

/-!
# Requests

What a user can ask of a resolver, and the answers as documents.

* `Resolver.listVersions`, `Resolver.latestVersion` — what is known about versions;
* `Resolver.resolve` — the jar for a request; a version that is not found fails, with the latest
  release as a hint.
-/

namespace Jarsmith

/-- What a user is told about a version. -/
structure VersionInfo where
  id : String
  releaseTime : Option String
  kind : VersionKind

namespace VersionInfo

/-- What a user is told about a version of the manifest. -/
def ofReference (v : VersionReference) : VersionInfo :=
  ⟨v.id, v.releaseTime.map (·.renderIn "+00:00"), v.kind⟩

/-- Writes what a user is told. -/
def toJson (v : VersionInfo) : JsonValue :=
  .ofFields [("id", .ofString v.id), ("release_time", .ofOption .ofString v.releaseTime),
    ("version_type", .ofString v.kind.id)]

end VersionInfo

/-- What a user asks for. -/
structure ResolveRequest where
  version : String
  platform : Platform
  /-- Whether the classes get the names that are published with the version. -/
  official : Bool
  /-- Mapping layers as `format:path`, the lowest first. -/
  mappings : List String
  /-- The namespaces of tiny layers as `from:to`. -/
  tinyNamespaces : Option String
  /-- The paths of access wideners. -/
  wideners : List String
  /-- The paths of descriptors that are injected first. -/
  descriptors : List String

namespace ResolveRequest

/-- The modifiers that a user asks for: new names first, then wider access. -/
def modifiers (q : ResolveRequest) : FileAction (List Modifier) := do
  let official := if q.official then [Modifier.official] else []
  let layered ← if q.mappings.isEmpty then pure [] else do
    let specs ← liftExcept (q.mappings.mapM fun text => LayerSpec.parse text q.tinyNamespaces)
    pure [← Modifier.layered specs]
  let wideners := if q.wideners.isEmpty then [] else [Modifier.widening q.wideners none]
  pure (official ++ layered ++ wideners)

end ResolveRequest

/-- What a user gets. -/
structure ResolvedArtifact where
  artifact : String
  platform : Platform
  version : String
  jar : String
  upToDate : Bool
  dependencies : List String

namespace ResolvedArtifact

/-- What a user gets of an environment. -/
def ofEnvironment (env : Environment) (upToDate : Bool) : ResolvedArtifact :=
  ⟨env.artifact, env.platform, env.version.id, env.jar, upToDate, env.dependencies.map (·.render)⟩

/-- Writes what a user gets. -/
def toJson (a : ResolvedArtifact) : JsonValue :=
  .ofFields [("artifact_id", .ofString a.artifact), ("platform", .ofString a.platform.id),
    ("version", .ofString a.version), ("jar", .ofString a.jar), ("up_to_date", .boolean a.upToDate),
    ("dependencies", .array (a.dependencies.map .ofString))]

end ResolvedArtifact

namespace Resolver

/-- All versions that are known. -/
def listVersions (r : Resolver) : VersionAction (List VersionInfo) := do
  pure (((← r.repository.versions).value?.getD []).map .ofReference)

/-- The latest version of a kind, if one is known. -/
def latestVersion (r : Resolver) (kind : VersionKind) : VersionAction (Option VersionInfo) := do
  pure ((← r.repository.latest kind).value?.map .ofReference)

/-- The name of the latest release, unless it cannot be found out. -/
def latestRelease? (r : Resolver) : VersionAction (Option String) :=
  tryCatch (do pure ((← r.latestVersion .release).map (·.id))) fun _ => pure none

/-- What a request asks for. -/
def resolve (r : Resolver) (q : ResolveRequest) : ResolverAction ResolvedArtifact := do
  q.descriptors.forM fun path => do
    let _ ← VersionRepository.inject path
  let modifiers ← q.modifiers
  match ← r.provide q.platform q.version modifiers with
  | .found env upToDate => pure (.ofEnvironment env upToDate)
  | .notFound => throw (.versionNotFound q.version (← r.latestRelease?))

end Resolver

end Jarsmith
