import Jarsmith.Jar.Merge
import Jarsmith.Memo
import Jarsmith.Modifier.Basic
import Jarsmith.Resolver.Basic

/-!
# Making and providing environments

How the jar of a side, the joined jar and modified jars are made, each from inputs that are given; and
the environments of a resolver, each made at most once however often it is asked for.

* `Resolver.sideEnvironment` — from the download of the side;
* `Resolver.joinedEnvironment` — from the environments of both sides;
* `Resolver.modifiedEnvironment` — from the environment of a platform, by modifiers.
* `Resolver.provide` — the environment of a platform and a version after some modifiers.
-/

namespace Jarsmith

/-- What an artifact is known by: a platform and a version, and a name if more was done to it. -/
structure EnvironmentKey where
  platform : Platform
  version : String
  artifact : Option String
  deriving DecidableEq, Repr

/-- The versions that are known, and what was made of them. -/
structure ResolverState where
  versions : VersionState
  environments : AnswerLog EnvironmentKey (Lookup Environment)
  /-- The paths of files that were made from environments. -/
  associated : AnswerLog EnvironmentKey (Lookup String)

/-- Nothing was made yet in a world. -/
def ResolverState.ofWorld (w : World) : ResolverState := ⟨⟨w, .empty⟩, [], []⟩

/-- A computation of a resolver. -/
abbrev ResolverAction := ExceptT Error (StateM ResolverState)

instance : MonadLift VersionAction ResolverAction :=
  ⟨onPart (·.versions) fun s versions => { s with versions := versions }⟩

namespace Resolver

-- ---------------------------------------------------------------------------
-- One side
-- ---------------------------------------------------------------------------

/-- The stages for the jar of a side. A jar that holds libraries beside the classes of the game is
filtered. -/
def sideStages (side : Side) (bundle : Option Bundle) : List Transformer :=
  if bundle.isNone && !side.ownPackages.isEmpty then [.filter side.ownPackages, .stripSignatures]
  else [.stripSignatures]

/-- Makes the jar of a side from its download. -/
def makeSideJar (side : Side) (downloaded jar : String) (bundle : Option Bundle) :
    FileAction Unit := do
  FileAction.makeParents jar
  let extracted ← FileAction.temporarySibling jar
  side.extractJar downloaded extracted bundle
  let written ← observing (Jar.transform extracted jar (sideStages side bundle))
  FileAction.discard extracted
  let _ ← liftExcept written

/-- The environment of a side, made from its download. A version that is not known, or has no
download for the side, is not found. -/
def sideEnvironment (r : Resolver) (p : Platform) (side : Side) (version : String) :
    VersionAction (Lookup Environment) := do
  let .found v _ ← during p.id "resolve version" (r.repository.descriptor version)
    | pure .notFound
  let some download := v.download? side.jarDownload | pure .notFound
  let .found downloaded upToDate ←
      during p.id "download jar"
        (r.downloader.downloadValid download.url (downloadPath p version) .sha1 download.sha1)
    | pure .notFound
  let bundle ← during p.id "read bundler metadata" (Bundle.read downloaded)
  let dependencies ← liftExcept (side.dependencies v bundle)
  let env : Environment := ⟨p.id, p, artifactPath r.sharedRoot p.id version, dependencies, v⟩
  r.refresh env upToDate do
    deleteDerived p version env.jar
    during p.id "transform jar" (makeSideJar side downloaded env.jar bundle)

-- ---------------------------------------------------------------------------
-- Both sides
-- ---------------------------------------------------------------------------

/-- The joined environment of both sides. -/
def joinedEnvironment (r : Resolver) (version : String) :
    (client server : Lookup Environment) → Action (Lookup Environment)
  | .found client clientUpToDate, .found server serverUpToDate =>
    let p := Platform.joined
    let dependencies := MavenCoordinate.sorted (client.dependencies ++ server.dependencies)
    let env : Environment :=
      ⟨p.id, p, artifactPath r.sharedRoot p.id version, dependencies, client.version⟩
    r.refresh env (clientUpToDate && serverUpToDate) do
      deleteDerived p version env.jar
      let _ ← during p.id "merge jars" (Jar.merge client.jar server.jar env.jar)
  | _, _ => pure .notFound

-- ---------------------------------------------------------------------------
-- Modifiers
-- ---------------------------------------------------------------------------

/-- The environment with the name `artifact` that modifiers make of that of a platform. -/
def modifiedEnvironment (r : Resolver) (artifact version : String) (modifiers : List Modifier) :
    (base : Lookup Environment) → Action (Lookup Environment)
  | .notFound => pure .notFound
  | .found base upToDate =>
    let root := if Modifier.areLocal modifiers then r.localRoot else r.sharedRoot
    let env := { base with artifact := artifact, jar := artifactPath root artifact version }
    r.refresh env upToDate do
      let stages ← modifiers.mapM fun m =>
        during artifact "prepare modifier" (m.transformers r.downloader base)
      let _ ← during artifact "transform jar" (Jar.transform base.jar env.jar stages.flatten)

-- ---------------------------------------------------------------------------
-- Each once
-- ---------------------------------------------------------------------------

/-- The environment of a key, made if it was not asked for before. -/
def environmentOnce (key : EnvironmentKey) (make : ResolverAction (Lookup Environment)) :
    ResolverAction (Lookup Environment) :=
  memoized (·.environments) (fun s log => { s with environments := log }) key make

/-- The environment of a platform of one side. -/
def provideSide (r : Resolver) (p : Platform) (side : Side) (version : String) :
    ResolverAction (Lookup Environment) :=
  environmentOnce ⟨p, version, none⟩ (r.sideEnvironment p side version)

/-- The environment of both sides. -/
def provideJoined (r : Resolver) (version : String) : ResolverAction (Lookup Environment) :=
  environmentOnce ⟨.joined, version, none⟩ do
    let client ← r.provideSide .client .client version
    let server ← r.provideSide .server .server version
    r.joinedEnvironment version client server

/-- The environment of a platform. -/
def provideBase (r : Resolver) (p : Platform) (version : String) :
    ResolverAction (Lookup Environment) :=
  match p.side? with
  | some side => r.provideSide p side version
  | none => r.provideJoined version

/-- The environment of a platform after some modifiers, in their order. -/
def provide (r : Resolver) (p : Platform) (version : String) (modifiers : List Modifier) :
    ResolverAction (Lookup Environment) := do
  liftExcept (Modifier.validate modifiers)
  if modifiers.isEmpty then r.provideBase p version
  else
    let artifact ← Modifier.decorate p.id modifiers
    environmentOnce ⟨p, version, some artifact⟩ <| during artifact "apply modifiers" do
      let base ← r.provideBase p version
      r.modifiedEnvironment artifact version modifiers base

end Resolver

end Jarsmith
