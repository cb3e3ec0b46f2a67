import Jarsmith.Version.Library
import Jarsmith.Version.Manifest

/-!
# Version descriptors

The document of a single version: its downloads, its libraries, its main class and the Java that it
runs on.

* `VersionDescriptor.parse?` reads the document, `VersionDescriptor.toJson` writes it.
* `VersionDescriptor.download?` — the download for a purpose.
-/

namespace Jarsmith

/-- What the downloads of a version are for. -/
inductive DownloadPurpose where
  | client
  | clientMappings
  | server
  | serverMappings
  deriving DecidableEq, Repr

namespace DownloadPurpose

/-- All purposes. -/
def all : List DownloadPurpose := [client, clientMappings, server, serverMappings]

/-- The key of a purpose in documents. -/
def key : DownloadPurpose → String
  | client => "client"
  | clientMappings => "client_mappings"
  | server => "server"
  | serverMappings => "server_mappings"

end DownloadPurpose

/-- A file that can be downloaded. -/
structure Download where
  sha1 : String
  size : Nat
  url : String
  deriving DecidableEq, Repr

namespace Download

/-- Reads a download. -/
def ofJson? (j : JsonValue) : Option Download := do
  let r ← j.record? ["sha1", "size", "url"]
  let sha1 ← r.required "sha1" (·.string?)
  let size ← r.defaulted "size" 0 (·.natBelow? UInt64.size)
  let url ← r.required "url" (·.string?)
  some ⟨sha1, size, url⟩

/-- Writes a download. -/
def toJson (d : Download) : JsonValue :=
  .ofFields [("sha1", .ofString d.sha1), ("size", .ofNat d.size), ("url", .ofString d.url)]

end Download

/-- The Java that a version runs on. -/
structure JavaRuntime where
  component : Option String
  major : Nat
  deriving DecidableEq, Repr

namespace JavaRuntime

/-- Reads a Java. -/
def ofJson? (j : JsonValue) : Option JavaRuntime := do
  let r ← j.record? ["component", "majorVersion"]
  let component ← r.optional "component" (·.string?)
  let major ← r.required "majorVersion" (·.natBelow? UInt32.size)
  some ⟨component, major⟩

/-- Writes a Java. -/
def toJson (v : JavaRuntime) : JsonValue :=
  .ofFields [("component", .ofOption .ofString v.component), ("majorVersion", .ofNat v.major)]

end JavaRuntime

/-- Where the list of assets is. -/
structure AssetIndex where
  id : String
  url : String
  sha1 : Option String
  totalSize : Option Nat
  deriving DecidableEq, Repr

namespace AssetIndex

/-- Reads the place of a list of assets. -/
def ofJson? (j : JsonValue) : Option AssetIndex := do
  let r ← j.record? ["id", "url", "sha1", "totalSize"]
  let id ← r.required "id" (·.string?)
  let url ← r.required "url" (·.string?)
  let sha1 ← r.optional "sha1" (·.string?)
  let totalSize ← r.optional "totalSize" (·.natBelow? UInt64.size)
  some ⟨id, url, sha1, totalSize⟩

/-- Writes the place of a list of assets. -/
def toJson (a : AssetIndex) : JsonValue :=
  .ofFields [("id", .ofString a.id), ("url", .ofString a.url), ("sha1", .ofOption .ofString a.sha1),
    ("totalSize", .ofOption .ofNat a.totalSize)]

end AssetIndex

/-- What is known about a version. -/
structure VersionDescriptor where
  id : String
  kind : VersionKind
  mainClass : Option String
  releaseTime : Option Moment
  time : Option Moment
  complianceLevel : Option Nat
  assets : Option String
  assetIndex : Option AssetIndex
  downloads : OrderedMap String Download
  libraries : List Library
  java : Option JavaRuntime

namespace VersionDescriptor

/-- The keys of a descriptor. -/
def keys : List String :=
  ["id", "type", "mainClass", "releaseTime", "time", "complianceLevel", "assets", "assetIndex",
    "downloads", "libraries", "javaVersion"]

/-- Reads a descriptor. -/
def ofJson? (j : JsonValue) : Option VersionDescriptor := do
  let r ← j.record? keys
  let id ← r.required "id" (·.string?)
  let kind ← r.required "type" VersionKind.ofJson?
  let mainClass ← r.optional "mainClass" (·.string?)
  let releaseTime ← r.optional "releaseTime" Moment.ofJson?
  let time ← r.optional "time" Moment.ofJson?
  let complianceLevel ← r.optional "complianceLevel" (·.natBelow? UInt32.size)
  let assets ← r.optional "assets" (·.string?)
  let assetIndex ← r.optional "assetIndex" AssetIndex.ofJson?
  let downloads ← r.defaulted "downloads" ∅ (JsonValue.map? Download.ofJson?)
  let libraries ← r.defaulted "libraries" [] (JsonValue.list? Library.ofJson?)
  let java ← r.optional "javaVersion" JavaRuntime.ofJson?
  some ⟨id, kind, mainClass, releaseTime, time, complianceLevel, assets, assetIndex, downloads,
    libraries, java⟩

/-- Writes a descriptor. -/
def toJson (v : VersionDescriptor) : JsonValue :=
  .ofFields [("id", .ofString v.id), ("type", v.kind.toJson),
    ("mainClass", .ofOption .ofString v.mainClass),
    ("releaseTime", .ofOption Moment.toJson v.releaseTime),
    ("time", .ofOption Moment.toJson v.time),
    ("complianceLevel", .ofOption .ofNat v.complianceLevel),
    ("assets", .ofOption .ofString v.assets),
    ("assetIndex", .ofOption AssetIndex.toJson v.assetIndex),
    ("downloads", .ofMap Download.toJson v.downloads),
    ("libraries", .array (v.libraries.map Library.toJson)),
    ("javaVersion", .ofOption JavaRuntime.toJson v.java)]

/-- Reads the text of a descriptor. -/
def parse? (text : String) : Option VersionDescriptor := (JsonValue.parse text).bind ofJson?

/-- The download for a purpose. -/
def download? (v : VersionDescriptor) (purpose : DownloadPurpose) : Option Download :=
  v.downloads.get? purpose.key

/-- The number of the Java that the version runs on. -/
def javaMajor? (v : VersionDescriptor) : Option Nat := v.java.map (·.major)

end VersionDescriptor

end Jarsmith
