import Jarsmith.Json.Value
import Jarsmith.Store.Staging

/-!
# Settings of a workspace

Where caches are and what may be fetched, as a file in the directory of a project.

* `WorkspaceSettings.load` reads the file; a file that cannot be read counts as none.
* `WorkspaceSettings.save` writes it.
-/

namespace Jarsmith

/-- Where downloads may come from. -/
inductive ResolveMode where
  /-- Fetches everything anew that no digest vouches for. -/
  | remoteOnly
  /-- Uses what is there. -/
  | localOnly
  /-- Uses what is there and fresh, and fetches the rest. -/
  | localThenRemote
  deriving DecidableEq, Repr

namespace ResolveMode

/-- The name of a mode in documents. -/
def id : ResolveMode → String
  | remoteOnly => "remote_only"
  | localOnly => "local_only"
  | localThenRemote => "local_then_remote"

/-- Whether anything may be fetched. -/
def allowsRemote (m : ResolveMode) : Bool := m != localOnly

/-- Reads a mode. -/
def ofJson? : JsonValue → Option ResolveMode :=
  JsonValue.choice? ([remoteOnly, localOnly, localThenRemote].map fun m => (m.id, m))

end ResolveMode

/-- The settings of a workspace. -/
structure WorkspaceSettings where
  /-- The cache that all workspaces share. -/
  sharedCache : String
  /-- The cache for what is made of files of the project, as seen from its directory. -/
  localCache : String
  resolveMode : ResolveMode
  forceRefresh : Bool
  manifestUrl : String
  downloadConcurrency : Nat
  deriving DecidableEq, Repr

namespace WorkspaceSettings

/-- The name of the file. -/
def fileName : String := "workspace_settings.json"

/-- Where the list of versions usually is. -/
def usualManifestUrl : String := "https://piston-meta.mojang.com/mc/game/version_manifest_v2.json"

/-- The settings of a project without the file, where the caches of the user are in `caches`. -/
def usual (caches : String) : WorkspaceSettings :=
  ⟨Path.join caches "minecraft-workspace", ".mcws", .localThenRemote, false, usualManifestUrl, 4⟩

/-- The keys of the file. -/
def keys : List String :=
  ["shared_cache", "local_cache", "resolve_mode", "force_refresh", "manifest_url",
    "download_concurrency"]

/-- Reads settings; `usual` stands in for what is not there. -/
def ofJson? (usual : WorkspaceSettings) (j : JsonValue) : Option WorkspaceSettings := do
  let r ← j.record? keys
  let sharedCache ← r.defaulted "shared_cache" usual.sharedCache (·.string?)
  let localCache ← r.defaulted "local_cache" usual.localCache (·.string?)
  let resolveMode ← r.defaulted "resolve_mode" usual.resolveMode ResolveMode.ofJson?
  let forceRefresh ← r.defaulted "force_refresh" usual.forceRefresh (·.boolean?)
  let manifestUrl ← r.defaulted "manifest_url" usual.manifestUrl (·.string?)
  let downloadConcurrency ←
    r.defaulted "download_concurrency" usual.downloadConcurrency (·.natBelow? UInt64.size)
  some ⟨sharedCache, localCache, resolveMode, forceRefresh, manifestUrl, downloadConcurrency⟩

/-- Writes settings. -/
def toJson (s : WorkspaceSettings) : JsonValue :=
  .ofFields [("shared_cache", .ofString s.sharedCache), ("local_cache", .ofString s.localCache),
    ("resolve_mode", .ofString s.resolveMode.id), ("force_refresh", .boolean s.forceRefresh),
    ("manifest_url", .ofString s.manifestUrl),
    ("download_concurrency", .ofNat s.downloadConcurrency)]

/-- Whether two settings mean the same; paths count by their names. -/
def agrees (a b : WorkspaceSettings) : Bool :=
  Path.agree a.sharedCache b.sharedCache && Path.agree a.localCache b.localCache
    && a.resolveMode == b.resolveMode && a.forceRefresh == b.forceRefresh
    && a.manifestUrl == b.manifestUrl && a.downloadConcurrency == b.downloadConcurrency

/-- The settings that the file in the directory of a project holds, or `usual`. -/
def load (usual : WorkspaceSettings) (project : String) : FileAction WorkspaceSettings := do
  let settings? := match (← getThe Store).content (Path.join project fileName) with
    | .ok content => do ofJson? usual (← JsonValue.parse (← Utf8.decode? content.bytes))
    | .error _ => none
  pure (settings?.getD usual)

/-- Writes the file in the directory of a project. -/
def save (s : WorkspaceSettings) (project : String) : FileAction Unit :=
  FileAction.write (Path.join project fileName) (.ofText (s.toJson.render .indented 0))

/-- The directory of the cache of a project. -/
def localCacheIn (s : WorkspaceSettings) (project : String) : String :=
  Path.join project s.localCache

end WorkspaceSettings

end Jarsmith
