import Jarsmith.Downloader
import Jarsmith.Version.Descriptor

/-!
# The version repository

The versions that the remote lists and those that were injected from files, with what is known about
each. What was fetched once is kept; failures are not.

* `VersionRepository.versions` — all versions, the injected ones first;
* `VersionRepository.latest` — the latest version of a kind, according to the manifest;
* `VersionRepository.descriptor` — what is known about a version; an injected descriptor goes before
  all others;
* `VersionRepository.inject` — registers the descriptor in a file.
-/

namespace Jarsmith

/-- Where a repository gets its documents. -/
structure VersionRepository where
  downloader : Downloader
  manifestUrl : String

/-- The documents that a repository keeps. -/
structure VersionCache where
  /-- The manifest, or that there is none, once it was asked for. -/
  manifest : Option (Lookup VersionManifest)
  /-- The descriptors that were fetched, by the names of their versions. -/
  fetched : OrderedMap String VersionDescriptor
  /-- The descriptors that were injected, by the names of their versions. -/
  injected : OrderedMap String VersionDescriptor

/-- Nothing is known yet. -/
def VersionCache.empty : VersionCache := ⟨none, ∅, ∅⟩

/-- The world, and what a repository knows of it. -/
structure VersionState where
  world : World
  cache : VersionCache

/-- A computation of a repository. -/
abbrev VersionAction := ExceptT Error (StateM VersionState)

instance : MonadLift Action VersionAction :=
  ⟨onPart (·.world) fun s world => { s with world := world }⟩

/-- What the manifest would say about a version of which only the descriptor is known. -/
def VersionDescriptor.reference (v : VersionDescriptor) : VersionReference :=
  ⟨v.id, v.kind, s!"injected:{v.id}", v.time, v.releaseTime, none, v.complianceLevel⟩

namespace VersionRepository

/-- The path of the manifest in the cache. -/
def manifestPath : String := "version_manifest_v2.json"

/-- The path of a descriptor in the cache. -/
def descriptorPath (id : String) : String := s!"versions/{id}/{id}.json"

/-- A document that must be there. -/
def document {α : Type} (parsed : Option α) : Result α :=
  match parsed with
  | some document => .ok document
  | none => .error .json

/-- What the repository knows. -/
def cache : VersionAction VersionCache := return (← getThe VersionState).cache

/-- Changes what the repository knows. -/
def remember (f : VersionCache → VersionCache) : VersionAction Unit :=
  modifyThe VersionState fun s => { s with cache := f s.cache }

/-- Gets the text of a document, which must have the SHA-1 digest if one is given. -/
def fetchText (r : VersionRepository) (url path : String) (sha1 : Option String) :
    Action (Lookup String) := do
  Downloader.text <| ←
    match sha1 with
    | some sha1 => r.downloader.downloadValid url path .sha1 sha1
    | none => r.downloader.download url path

/-- The manifest. It is fetched once; that there is none is kept, too. -/
def manifest (r : VersionRepository) : VersionAction (Lookup VersionManifest) := do
  match (← cache).manifest with
  | some known => pure known
  | none =>
    let text ← r.fetchText r.manifestUrl manifestPath none
    let found ← liftExcept (text.mapM fun text => document (VersionManifest.parse? text))
    remember fun c => { c with manifest := some found }
    pure found

/-- All versions: the injected ones by their names, then those that the manifest lists and that were
not injected. -/
def versions (r : VersionRepository) : VersionAction (Lookup (List VersionReference)) := do
  let manifest ← r.manifest
  let injected := ((← cache).injected.values.map (·.reference)).mergeSort fun a b => a.id ≤ b.id
  match manifest with
  | .found manifest upToDate =>
    let listed := manifest.versions.filter fun v => !injected.any (·.id == v.id)
    pure (.found (injected ++ listed) upToDate)
  | .notFound => pure (if injected.isEmpty then .notFound else .found injected true)

/-- The latest version of a kind, if the manifest names and lists it. -/
def latest (r : VersionRepository) (kind : VersionKind) :
    VersionAction (Lookup VersionReference) := do
  match ← r.manifest with
  | .notFound => pure .notFound
  | .found manifest upToDate =>
    match (manifest.latestId? kind).bind manifest.find? with
    | some version => pure (.found version upToDate)
    | none => pure .notFound

/-- Fetches the descriptor of a version that the manifest lists. That it is not there is a
failure. -/
def fetchDescriptor (r : VersionRepository) (id : String) (v : VersionReference) :
    VersionAction (Lookup VersionDescriptor) := do
  match ← (r.fetchText v.url (descriptorPath id) v.sha1 : Action _) with
  | .notFound => throw (.downloadFailed v.url 404)
  | .found text upToDate =>
    let descriptor ← liftExcept (document (VersionDescriptor.parse? text))
    remember fun c => { c with fetched := c.fetched.insert id descriptor }
    pure (.found descriptor upToDate)

/-- What is known about a version. -/
def descriptor (r : VersionRepository) (id : String) :
    VersionAction (Lookup VersionDescriptor) := do
  let known ← cache
  match (known.injected.get? id).or (known.fetched.get? id) with
  | some descriptor => pure (.found descriptor true)
  | none =>
    match ← r.manifest with
    | .notFound => pure .notFound
    | .found manifest _ =>
      match manifest.find? id with
      | some version => r.fetchDescriptor id version
      | none => pure .notFound

/-- Registers the descriptor in a file; the answer is the name of its version. -/
def inject (path : String) : VersionAction String := do
  let text ← (FileAction.readText path : FileAction _)
  let descriptor ← liftExcept (document (VersionDescriptor.parse? text))
  remember fun c => { c with injected := c.injected.insert descriptor.id descriptor }
  pure descriptor.id

end VersionRepository

end Jarsmith
