import Jarsmith.Proofs.Resolver.Fresh
import Jarsmith.Proofs.Resolver.Stages
import Jarsmith.Proofs.Text.Utf8

/-!
# Resolvers with everything in the cache

A resolver that finds the documents about a version and the download of a side in the cache asks
nothing from afar. All that is left to do is to refresh the jar.

* `VersionRepository.Cached` — the documents are in the cache.
* `Resolver.CachedSide` — the inputs of a side are in the cache.
* `Resolution.run_cached` — what is left to do.
* `Resolver.exampleFiles` — a cache with a client in three versions.
-/

namespace Jarsmith

open Downloader Running Store

variable {root url target version : String} {w : World} {s : Store} {p : Platform} {side : Side}
  {m : VersionManifest} {v : VersionDescriptor}

theorem Downloader.direct_fetch (h : w.store.isFile target = true) :
    ((direct root).fetch url target).run.run w = (.ok (.found target true), w) := by
  rw [direct, bind_isFile, if_pos h]
  exact pure_iff.2 ⟨rfl, rfl⟩

namespace VersionRepository

/-- The documents about a version are in the cache. -/
structure Cached (root version : String) (m : VersionManifest) (v : VersionDescriptor) (s : Store) :
    Prop where
  manifest : ∃ text, s.content (Path.join root manifestPath) = .ok (.ofText text) ∧
    VersionManifest.parse? text = some m
  listed : ∃ reference, m.find? version = some reference ∧ reference.sha1 = none
  descriptor : ∃ text, s.content (Path.join root (descriptorPath version)) = .ok (.ofText text) ∧
    VersionDescriptor.parse? text = some v

theorem run_fetchText_cached {r : VersionRepository} {path text : String}
    (hDirect : r.downloader = direct root)
    (h : w.store.content (Path.join root path) = .ok (.ofText text)) :
    (r.fetchText url path none).run.run w = (.ok (.found text true), w) := by
  have hFetch : (r.downloader.download url path).run.run w =
      (.ok (.found (Path.join root path) true), w) := by
    rw [Downloader.download, hDirect]
    exact direct_fetch (isFile_of_content h)
  exact (bind_of_ok hFetch).2 (files_iff.2
    ⟨_, text_of_content h (Utf8.decode?_encode text), rfl⟩)

theorem run_descriptor_cached {r : VersionRepository} (hDirect : r.downloader = direct root)
    (h : Cached root version m v w.store) : ∃ c,
      (r.descriptor version).run.run ⟨w, .empty⟩ = (.ok (.found v true), ⟨w, c⟩) := by
  obtain ⟨manifestText, hManifest, hManifestParse⟩ := h.manifest
  obtain ⟨reference, hFind, hNone⟩ := h.listed
  obtain ⟨text, hDescriptor, hParse⟩ := h.descriptor
  have hKnown : r.manifest.run.run ⟨w, .empty⟩ =
      (.ok (.found m true), ⟨w, { VersionCache.empty with manifest := some (.found m true) }⟩) := by
    rw [VersionRepository.manifest]
    refine (bind_of_ok run_cache).2 ((bind_of_ok (world_iff.2
      ⟨w, run_fetchText_cached hDirect hManifest, rfl⟩)).2 ?_)
    have hFound : (Lookup.found manifestText true).mapM (fun text =>
        document (VersionManifest.parse? text)) = .ok (.found m true) :=
      mapM_eq_ok.2 ⟨manifestText, rfl, document_eq_ok.2 hManifestParse⟩
    rw [hFound]
    rfl
  refine ⟨{ manifest := some (.found m true), fetched := (∅ : OrderedMap _ _).insert version v,
            injected := ∅ }, ?_⟩
  rw [VersionRepository.descriptor]
  refine (bind_of_ok run_cache).2 ((bind_of_ok hKnown).2 ?_)
  dsimp only
  rw [hFind]
  dsimp only
  rw [fetchDescriptor, hNone]
  refine (bind_of_ok (world_iff.2 ⟨w, run_fetchText_cached hDirect hDescriptor, rfl⟩)).2 ?_
  dsimp only
  rw [document_eq_ok.2 hParse]
  rfl

end VersionRepository

namespace Resolver

variable {r : Resolver} {bundle : Option Bundle} {dependencies : List MavenCoordinate}

/-- The documents about a version and the download of a side are in the cache; the download says
`bundle` about itself. -/
structure CachedSide (root : String) (p : Platform) (side : Side) (version : String)
    (v : VersionDescriptor) (bundle : Option Bundle) (s : Store) : Prop where
  documents : ∃ m, VersionRepository.Cached root version m v s
  download : ∃ download, v.download? side.jarDownload = some download ∧
    HasDigest s (Path.join root (downloadPath p version)) .sha1 download.sha1
  bundle : BundleAt s (Path.join root (downloadPath p version)) bundle

/-- The environment of a side with the given dependencies. -/
def sideFrom (r : Resolver) (p : Platform) (version : String) (v : VersionDescriptor)
    (dependencies : List MavenCoordinate) : Environment :=
  ⟨p.id, p, artifactPath r.sharedRoot p.id version, dependencies, v⟩

/-- All that is left to do for the environment of a side is to refresh its jar. -/
theorem run_sideEnvironment_cached (hDirect : r.downloader = direct root)
    (h : CachedSide root p side version v bundle w.store)
    (hDependencies : side.dependencies v bundle = .ok dependencies) {w' : World}
    {q : Result (Lookup Environment)}
    (hRefresh : (r.refresh (r.sideFrom p version v dependencies) true
      (makeSide p side version ⟨r.sideFrom p version v dependencies,
        Path.join root (downloadPath p version), bundle⟩)).run.run w = (q, w')) :
    ∃ c, (r.sideEnvironment p side version).run.run ⟨w, .empty⟩ = (q, ⟨w', c⟩) := by
  obtain ⟨m, hDocuments⟩ := h.documents
  obtain ⟨download, hDownload, hDigest⟩ := h.download
  have hRepository : r.repository.downloader = direct root := hDirect
  obtain ⟨c, hDescriptor⟩ := VersionRepository.run_descriptor_cached hRepository hDocuments
  have hFetch : (r.downloader.downloadValid download.url (downloadPath p version) .sha1
      download.sha1).run.run w = (.ok (.found (Path.join root (downloadPath p version)) true), w) := by
    rw [hDirect]
    exact (careful_direct root).fetchValid_of_there hDigest
  have hBundle : (Bundle.read (Path.join root (downloadPath p version))).run.run w.store =
      (.ok bundle, w.store) := run_bundle.2 ⟨rfl, h.bundle⟩
  have hRead : (liftM (liftM (Bundle.read (Path.join root (downloadPath p version))) :
      Action (Option Bundle)) : VersionAction (Option Bundle)).run.run ⟨w, c⟩ =
        (.ok bundle, ⟨w, c⟩) :=
    world_iff.2 ⟨w, files_iff.2 ⟨w.store, hBundle, rfl⟩, rfl⟩
  have hInputs : (r.inputsOf p side version v).run.run ⟨w, c⟩ = (.ok (.found
      ⟨r.sideFrom p version v dependencies, Path.join root (downloadPath p version), bundle⟩ true),
      ⟨w, c⟩) := by
    unfold inputsOf
    rw [hDownload]
    refine (bind_of_ok (during_ok_iff.2 (world_iff.2 ⟨_, hFetch, rfl⟩))).2 ?_
    refine (bind_of_ok (during_ok_iff.2 hRead)).2 ?_
    exact (bind_of_ok (liftExcept_iff.2 ⟨hDependencies, rfl⟩)).2 (pure_iff.2 ⟨rfl, rfl⟩)
  refine ⟨c, ?_⟩
  rw [sideEnvironment_eq]
  refine (bind_of_ok ((bind_of_ok (during_ok_iff.2 hDescriptor)).2 hInputs)).2 ?_
  exact world_iff.2 ⟨w', hRefresh, rfl⟩

end Resolver

namespace Resolution

open Resolver

/-- What a fresh resolver with everything in the cache does for a side. -/
theorem run_cached {q : Resolution} {bundle : Option Bundle} {dependencies : List MavenCoordinate}
    {w' : World} {answer : Result (Lookup Environment)}
    (hDirect : q.resolver.downloader = direct root) (hSide : q.platform.side? = some side)
    (hModifiers : q.modifiers = []) (h : CachedSide root q.platform side q.version v bundle w.store)
    (hDependencies : side.dependencies v bundle = .ok dependencies)
    (hRefresh : (q.resolver.refresh (q.resolver.sideFrom q.platform q.version v dependencies) true
      (makeSide q.platform side q.version ⟨q.resolver.sideFrom q.platform q.version v dependencies,
        Path.join root (downloadPath q.platform q.version), bundle⟩)).run.run w = (answer, w')) :
    q.run w = (answer, w') := by
  obtain ⟨c, hRun⟩ := run_sideEnvironment_cached hDirect h hDependencies hRefresh
  refine run_iff.2 ⟨⟨w', c⟩, ?_, rfl⟩
  rw [hModifiers, requestEnvironment_nil, baseEnvironment_of_side hSide]
  exact hRun

/-- If the jar is there as well, nothing is left to do. -/
theorem run_published {q : Resolution} {bundle : Option Bundle}
    {dependencies : List MavenCoordinate} (hDirect : q.resolver.downloader = direct root)
    (hForce : q.resolver.forceRefresh = false) (hSide : q.platform.side? = some side)
    (hModifiers : q.modifiers = []) (h : CachedSide root q.platform side q.version v bundle w.store)
    (hDependencies : side.dependencies v bundle = .ok dependencies)
    (hPublished : Published (q.resolver.sideFrom q.platform q.version v dependencies) w.store) :
    q.run w = (.ok (.found (q.resolver.sideFrom q.platform q.version v dependencies) true), w) :=
  run_cached hDirect hSide hModifiers h hDependencies (refresh_of_published hForce hPublished)

end Resolution

-- ---------------------------------------------------------------------------
-- An example
-- ---------------------------------------------------------------------------

namespace Resolver

/-- A manifest of three versions. The names of two of them are not names of directories. -/
def exampleManifestText : String :=
  "\x7b\"versions\":[\x7b\"id\":\"1\",\"type\":\"release\",\"url\":\"v\"\x7d," ++
    "\x7b\"id\":\"\",\"type\":\"release\",\"url\":\"v\"\x7d," ++
    "\x7b\"id\":\".\",\"type\":\"release\",\"url\":\"v\"\x7d]\x7d"

/-- The digest of an archive without entries. -/
def exampleDigest : String := "b04f3ee8f5e43fa3b162981b50bb72fe1acabb33"

/-- A version with a client. -/
def exampleDescriptorText : String :=
  "\x7b\"id\":\"1\",\"type\":\"release\",\"downloads\":" ++
    "\x7b\"client\":\x7b\"url\":\"c\",\"sha1\":\"" ++ exampleDigest ++ "\"\x7d\x7d\x7d"

def exampleManifest : VersionManifest :=
  (VersionManifest.parse? exampleManifestText).get (by decide +kernel)

def exampleDescriptor : VersionDescriptor :=
  (VersionDescriptor.parse? exampleDescriptorText).get (by decide +kernel)

/-- The documents, the downloads of the client in all three versions, and the jars in two of them. -/
def exampleFiles : Store where
  nodes := ⟨[
    (["shared"], .directory),
    (["shared", "version_manifest_v2.json"], .file (.ofText exampleManifestText)),
    (["shared", "versions"], .directory),
    (["shared", "versions", ".json"], .file (.ofText exampleDescriptorText)),
    (["shared", "versions", "..json"], .file (.ofText exampleDescriptorText)),
    (["shared", "versions", "1"], .directory),
    (["shared", "versions", "1", "1.json"], .file (.ofText exampleDescriptorText)),
    (["shared", "libraries"], .directory),
    (["shared", "libraries", "net"], .directory),
    (["shared", "libraries", "net", "minecraft"], .directory),
    (["shared", "libraries", "net", "minecraft", "client"], .directory),
    (["shared", "libraries", "net", "minecraft", "client", "client-.jar"], .file (.archive [])),
    (["shared", "libraries", "net", "minecraft", "client", "ivy-1-vg2.xml"], .file (.ofText "")),
    (["shared", "libraries", "net", "minecraft", "client", "1"], .directory),
    (["shared", "libraries", "net", "minecraft", "client", "1", "client-1.jar"],
      .file (.archive [])),
    (["shared", "libraries", "net", "minecraft", "client", "1", "ivy-1-vg2.xml"],
      .file (.ofText "")),
    (["shared", "libraries", "net", "minecraft", "client_m-obf_b-bundled"], .directory),
    (["shared", "libraries", "net", "minecraft", "client_m-obf_b-bundled",
      "client_m-obf_b-bundled-.jar"], .file (.archive [])),
    (["shared", "libraries", "net", "minecraft", "client_m-obf_b-bundled",
      "client_m-obf_b-bundled-..jar"], .file (.archive [])),
    (["shared", "libraries", "net", "minecraft", "client_m-obf_b-bundled", "1"], .directory),
    (["shared", "libraries", "net", "minecraft", "client_m-obf_b-bundled", "1",
      "client_m-obf_b-bundled-1.jar"], .file (.archive []))], by decide +kernel⟩
  counter := 0

def exampleWorld : World := ⟨exampleFiles, none, []⟩

/-- A resolver that takes what is in the cache. -/
def exampleResolver : Resolver := ⟨.direct "shared", "local", false, "m"⟩

theorem dependencies_example : Side.client.dependencies exampleDescriptor none = .ok [] := by
  decide +kernel

/-- The environment of the client. -/
def exampleClient (version : String) : Environment :=
  exampleResolver.sideFrom .client version exampleDescriptor []

/-- The client is in a cache that has the documents and its download. -/
theorem cachedSide_client {version : String} {s : Store}
    (hManifest : s.content (Path.join "shared" VersionRepository.manifestPath) =
      .ok (.ofText exampleManifestText))
    (hListed : ∃ reference, exampleManifest.find? version = some reference ∧ reference.sha1 = none)
    (hDescriptor : s.content (Path.join "shared" (VersionRepository.descriptorPath version)) =
      .ok (.ofText exampleDescriptorText))
    (hDownload : s.content (Path.join "shared" (downloadPath .client version)) =
      .ok (.archive [])) :
    CachedSide "shared" .client .client version exampleDescriptor none s where
  documents := ⟨exampleManifest, ⟨_, hManifest, (Option.some_get _).symm⟩, hListed,
    _, hDescriptor, (Option.some_get _).symm⟩
  download := ⟨⟨exampleDigest, 0, "c"⟩, by decide +kernel, _, hDownload, by decide +kernel⟩
  bundle := ⟨_, [], hDownload, rfl, rfl⟩

end Resolver

end Jarsmith
