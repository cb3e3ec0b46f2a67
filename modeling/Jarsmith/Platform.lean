import Jarsmith.Bundle
import Jarsmith.Version.Descriptor

/-!
# Sides and platforms

The game comes as a client and as a server; a platform is one of these sides or both joined.

* `Side.dependencies` — the libraries that the classes of a side need;
* `Side.extractJar` — the jar of a side from its download, which may be a bundle.
* `Environment` — a jar of a platform that is ready for use, with what is known about it.
-/

namespace Jarsmith

/-- A side of the game. -/
inductive Side where
  | client
  | server
  deriving DecidableEq, Repr

namespace Side

/-- The name of a side. -/
def id : Side → String
  | client => "client"
  | server => "server"

/-- The purpose of the download with the classes of a side. -/
def jarDownload : Side → DownloadPurpose
  | client => .client
  | server => .server

/-- The purpose of the download with the mappings of a side. -/
def mappingsDownload : Side → DownloadPurpose
  | client => .clientMappings
  | server => .serverMappings

/-- The packages that belong to the game in a jar that also holds libraries; none if there is
nothing to tell apart. -/
def ownPackages : Side → List String
  | client => []
  | server => ["net/minecraft"]

/-- The groups of libraries that only the client needs. -/
def clientGroups : List String :=
  ["oshi-project", "net.java.dev.jna", "com.ibm.icu", "net.java.jinput", "net.java.jutils",
    "org.lwjgl"]

/-- The coordinates of the libraries of a version that the system needs to compile against it. -/
def libraries (v : VersionDescriptor) : List MavenCoordinate :=
  (v.libraries.filter fun l => l.isAllowedOn .current && !l.isNatives).filterMap (·.coordinate?)

/-- The libraries that a side needs, in order and each once. A bundle lists those of its server. -/
def dependencies (side : Side) (v : VersionDescriptor) (bundle : Option Bundle) :
    Result (List MavenCoordinate) :=
  match side, bundle with
  | server, some bundle =>
    MavenCoordinate.sorted <$> bundle.libraries.mapM fun element => MavenCoordinate.parse element.id
  | server, none =>
    .ok (MavenCoordinate.sorted ((libraries v).filter fun c => !clientGroups.contains c.group))
  | client, _ => .ok (MavenCoordinate.sorted (libraries v))

/-- Puts the jar of a side at `output`, made from its download. -/
def extractJar (side : Side) (downloaded output : String) (bundle : Option Bundle) :
    FileAction Unit := do
  if (← getThe Store).isThere output then FileAction.change output (·.remove output)
  match side, bundle with
  | server, some bundle => bundle.extractServer downloaded output
  | _, _ => FileAction.copy downloaded output

end Side

/-- What the game is put together from. -/
inductive Platform where
  | client
  | server
  | joined
  deriving DecidableEq, Repr

namespace Platform

/-- All platforms. -/
def all : List Platform := [client, server, joined]

/-- The name of a platform, which is also that of its artifact. -/
def id : Platform → String
  | client => "client"
  | server => "server"
  | joined => "joined"

/-- The platform of the given name. -/
def ofId (id : String) : Result Platform :=
  match all.find? fun p => p.id == id with
  | some platform => .ok platform
  | none => .error (.configuration (.unknownPlatform id))

/-- The group and the artifact of a platform. -/
def module (p : Platform) : String := MavenCoordinate.gameGroup ++ ":" ++ p.id

/-- The sides that a platform is put together from. -/
def sides : Platform → List Side
  | client => [.client]
  | server => [.server]
  | joined => [.client, .server]

/-- What the artifact of a platform stands in for, as groups and artifacts. -/
def capabilities (p : Platform) : List String :=
  p.sides.map fun side => MavenCoordinate.gameGroup ++ ":" ++ side.id

/-- Whether a platform has the given side. -/
def includes (p : Platform) (side : Side) : Bool := p.sides.contains side

/-- The only side of a platform that has one. -/
def side? : Platform → Option Side
  | client => some .client
  | server => some .server
  | joined => none

end Platform

/-- A jar of the game, and what it was made from. -/
structure Environment where
  /-- The name of the artifact, which tells everything that was done to it. -/
  artifact : String
  platform : Platform
  /-- The path of the jar. -/
  jar : String
  /-- The libraries that the classes of the jar need, in order and each once. -/
  dependencies : List MavenCoordinate
  version : VersionDescriptor

end Jarsmith
