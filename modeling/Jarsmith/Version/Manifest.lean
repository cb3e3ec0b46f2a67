import Jarsmith.Json.Value
import Jarsmith.Moment

/-!
# The version manifest

The document that lists all versions of the game, each with the address of its descriptor, and names
the latest ones.

* `VersionManifest.parse?` reads the document, `VersionManifest.toJson` writes it;
* `VersionManifest.find?` — the first version of the given name.
-/

namespace Jarsmith

/-- The kinds of versions. -/
inductive VersionKind where
  | release
  | snapshot
  | oldBeta
  | oldAlpha
  deriving DecidableEq, Repr

namespace VersionKind

/-- All kinds. -/
def all : List VersionKind := [release, snapshot, oldBeta, oldAlpha]

/-- The name of a kind in documents. -/
def id : VersionKind → String
  | release => "release"
  | snapshot => "snapshot"
  | oldBeta => "old_beta"
  | oldAlpha => "old_alpha"

/-- Reads a kind. -/
def ofJson? : JsonValue → Option VersionKind := JsonValue.choice? (all.map fun k => (k.id, k))

/-- Writes a kind. -/
def toJson (k : VersionKind) : JsonValue := .ofString k.id

end VersionKind

namespace Moment

/-- Reads a moment. -/
def ofJson? (j : JsonValue) : Option Moment := j.string?.bind parse?

/-- Writes a moment. -/
def toJson (m : Moment) : JsonValue := .ofString m.render

end Moment

/-- What the manifest says about a version. -/
structure VersionReference where
  id : String
  kind : VersionKind
  url : String
  time : Option Moment
  releaseTime : Option Moment
  sha1 : Option String
  complianceLevel : Option Nat
  deriving DecidableEq, Repr

namespace VersionReference

/-- Reads a version. -/
def ofJson? (j : JsonValue) : Option VersionReference := do
  let r ← j.record? ["id", "type", "url", "time", "releaseTime", "sha1", "complianceLevel"]
  let id ← r.required "id" (·.string?)
  let kind ← r.required "type" VersionKind.ofJson?
  let url ← r.required "url" (·.string?)
  let time ← r.optional "time" Moment.ofJson?
  let releaseTime ← r.optional "releaseTime" Moment.ofJson?
  let sha1 ← r.optional "sha1" (·.string?)
  let complianceLevel ← r.optional "complianceLevel" (·.natBelow? UInt32.size)
  some ⟨id, kind, url, time, releaseTime, sha1, complianceLevel⟩

/-- Writes a version. -/
def toJson (v : VersionReference) : JsonValue :=
  .ofFields [("id", .ofString v.id), ("type", v.kind.toJson), ("url", .ofString v.url),
    ("time", .ofOption Moment.toJson v.time),
    ("releaseTime", .ofOption Moment.toJson v.releaseTime),
    ("sha1", .ofOption .ofString v.sha1), ("complianceLevel", .ofOption .ofNat v.complianceLevel)]

end VersionReference

/-- The names of the latest versions. -/
structure LatestVersions where
  release : Option String
  snapshot : Option String
  deriving DecidableEq, Repr

namespace LatestVersions

/-- No version is the latest. -/
def unknown : LatestVersions := ⟨none, none⟩

/-- Reads the names. -/
def ofJson? (j : JsonValue) : Option LatestVersions := do
  let r ← j.record? ["release", "snapshot"]
  let release ← r.optional "release" (·.string?)
  let snapshot ← r.optional "snapshot" (·.string?)
  some ⟨release, snapshot⟩

/-- Writes the names. -/
def toJson (l : LatestVersions) : JsonValue :=
  .ofFields [("release", .ofOption .ofString l.release),
    ("snapshot", .ofOption .ofString l.snapshot)]

end LatestVersions

/-- All versions of the game. -/
structure VersionManifest where
  latest : LatestVersions
  versions : List VersionReference
  deriving DecidableEq, Repr

namespace VersionManifest

/-- Reads a manifest. -/
def ofJson? (j : JsonValue) : Option VersionManifest := do
  let r ← j.record? ["latest", "versions"]
  let latest ← r.defaulted "latest" .unknown LatestVersions.ofJson?
  let versions ← r.required "versions" (JsonValue.list? VersionReference.ofJson?)
  some ⟨latest, versions⟩

/-- Writes a manifest. -/
def toJson (m : VersionManifest) : JsonValue :=
  .ofFields [("latest", m.latest.toJson), ("versions", .array (m.versions.map (·.toJson)))]

/-- Reads the text of a manifest. -/
def parse? (text : String) : Option VersionManifest := (JsonValue.parse text).bind ofJson?

/-- The first version of the given name. -/
def find? (m : VersionManifest) (id : String) : Option VersionReference :=
  m.versions.find? (·.id == id)

/-- The name of the latest version of a kind, if the manifest tells one. -/
def latestId? (m : VersionManifest) : VersionKind → Option String
  | .release => m.latest.release
  | .snapshot => m.latest.snapshot
  | .oldBeta | .oldAlpha => none

end VersionManifest

end Jarsmith
