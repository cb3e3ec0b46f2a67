import Jarsmith.Resolver.Provide

/-!
# Associated artifacts

Files that are made from the jar of an environment and stand beside it, such as sources.

* `AssociatedArtifact.produce` — makes the file, unless it is there and the jar is up to date;
* `Resolver.associate` — the file for an environment that is asked for by platform and version.
-/

namespace Jarsmith

/-- A file that is made from an environment. -/
structure AssociatedArtifact where
  /-- The end of the name of the file. -/
  id : String
  /-- Whether the file is made anew even if it is up to date. -/
  forced : Bool
  /-- Whether the jar of the environment becomes what `make` leaves of it. -/
  modifiesJar : Bool
  /-- Writes the file for an environment at a path. -/
  make : Environment → String → FileAction Unit

namespace AssociatedArtifact

/-- The path of the file for an environment. -/
def path (a : AssociatedArtifact) (env : Environment) : String :=
  Path.withFileName env.jar s!"{env.artifact}-{env.version.id}-{a.id}.jar"

/-- Lets `make` work on a copy of the jar of an environment, which then takes the place of the
jar. -/
def makeFromCopy (a : AssociatedArtifact) (y : System) (env : Environment) (output : String) :
    FileAction Unit := do
  let copy ← FileAction.temporarySibling env.jar
  FileAction.copyOn y env.jar copy
  FileAction.onFailure (a.make { env with jar := copy } output) (FileAction.discard copy)
  FileAction.moveOn y copy env.jar

/-- The file for an environment. It is made unless it is there and the environment is up to date. -/
def produceOn (a : AssociatedArtifact) (y : System) (r : Resolver) (env : Environment)
    (upToDate : Bool) : FileAction (Lookup String) := do
  let output := a.path env
  if !r.forceRefresh && upToDate && !a.forced && (← getThe Store).isThere output then
    pure (.found output true)
  else
    let staged ← FileAction.temporarySibling output
    FileAction.onFailure
      (do
        if a.modifiesJar then a.makeFromCopy y env staged else a.make env staged
        FileAction.moveOn y staged output)
      (FileAction.discard staged)
    pure (.found output false)

/-- The file for an environment. It is made unless it is there and the environment is up to date. -/
def produce (a : AssociatedArtifact) (r : Resolver) (env : Environment) (upToDate : Bool) :
    FileAction (Lookup String) :=
  a.produceOn .calm r env upToDate

end AssociatedArtifact

/-- The file that is made from the environment of a platform after some modifiers. -/
def Resolver.associate (r : Resolver) (p : Platform) (version : String) (modifiers : List Modifier)
    (a : AssociatedArtifact) : ResolverAction (Lookup String) := do
  liftExcept (Modifier.validate modifiers)
  let name := (← Modifier.decorate p.id modifiers) ++ "-" ++ a.id
  memoized (·.associated) (fun s log => { s with associated := log }) ⟨p, version, some name⟩ <|
    during name "produce associated artifact" do
      match ← r.provide p version modifiers with
      | .notFound => pure .notFound
      | .found env upToDate => a.produce r env upToDate

end Jarsmith
