import Jarsmith.ClassFile.Annotations
import Jarsmith.Jar.Writer

/-!
# Merging jars

The jar of a client and the jar of a server as one: the entries of the client in their order, then
those that only the server has. A class that both have is marked with an annotation; anything else
that both have must be the same, except that the manifest is the client's.

* `Jar.mergeEntries` — the entries of the merged jar;
* `Jar.mergeOn`, `Jar.merge` — from two files to a file.
-/

namespace Jarsmith

namespace ClassFile

/-- The type of the annotation on classes that both sides have. -/
def bothSides : String := "Lmcws/merge/BothSides;"

/-- A class with the annotation behind its invisible annotations. -/
def markBothSides (c : ClassFile) : Pool.Edit ClassFile := do
  let marker ← Pool.internText bothSides
  let found : Option (Nat × Attribute) ←
    liftM (c.pool.attribute? c.attributes AttributeName.invisibleAnnotations)
  match found with
  | some (place, a) =>
    let info : Bytes ← liftM (markedAnnotations (some a.info) marker)
    pure { c with attributes := setBody c.attributes place info }
  | none =>
    let name ← Pool.internText AttributeName.invisibleAnnotations
    let info : Bytes ← liftM (markedAnnotations none marker)
    pure { c with attributes := c.attributes ++ [⟨name, info⟩] }

end ClassFile

namespace Jar

/-- How many entries came from where. -/
structure MergeCounts where
  shared : Nat
  clientOnly : Nat
  serverOnly : Nat
  deriving DecidableEq, Repr

/-- A class entry with the annotation for classes of both sides. -/
def markEntry (e : JarEntry) : ClassResult JarEntry := do
  let c ← ClassFile.parse e.data
  match c.markBothSides.run.run c.pool with
  | (.ok marked, pool) => pure (e.withData (← { marked with pool := pool }.toBytes))
  | (.error fault, _) => throw fault

/-- An entry of the client that the server has too, with the data `other`; `client` is named in
errors. -/
def mergeEntry (client : String) (e : JarEntry) (other : Bytes) : Result JarEntry :=
  match e.kind with
  | .manifest | .directory => .ok e
  | .classFile =>
    if e.data ≠ other then .error (.ambiguousMerge e.name)
    else (markEntry e).mapError (.malformedClass e.name client)
  | .resource => if e.data ≠ other then .error (.ambiguousMerge e.name) else .ok e

/-- The entry of a jar with the given name. -/
def named? (entries : List ArchiveEntry) (name : String) : Option ArchiveEntry :=
  entries.find? (·.name == name)

/-- Writes an entry of the client, merged with that of the server if there is one. -/
def clientStep (client : String) (theirs written : List ArchiveEntry) (e : ArchiveEntry) :
    Result (List ArchiveEntry) := do
  match named? theirs e.name with
  | some other => append written (← mergeEntry client (.ofArchive e) other.data)
  | none => append written (.ofArchive e)

/-- Writes an entry of the server unless the client has one of its name. -/
def serverStep (ours written : List ArchiveEntry) (e : ArchiveEntry) :
    Result (List ArchiveEntry) :=
  if (ours.map (·.name)).contains e.name then .ok written else append written (.ofArchive e)

/-- The entries of the merged jar; `client` is named in errors. -/
def mergeEntries (client : String) (ours theirs : List ArchiveEntry) :
    Result (List ArchiveEntry) := do
  theirs.foldlM (serverStep ours) (← ours.foldlM (clientStep client theirs) [])

/-- How many entries of two jars a merged jar takes from where. -/
def mergeCounts (ours theirs : List ArchiveEntry) : MergeCounts where
  shared := ours.countP fun e => (named? theirs e.name).isSome
  clientOnly := ours.countP fun e => (named? theirs e.name).isNone
  serverOnly := theirs.countP fun e => !(ours.map (·.name)).contains e.name

/-- Writes the merged jar of `client` and `server` to `target`. -/
def mergeOn (y : System) (client server target : String) : FileAction MergeCounts := do
  let ours ← FileAction.entries client
  let theirs ← FileAction.entries server
  FileAction.writeAtomicallyOn y target fun staged => do
    create staged
    let written ← writeSteps y staged (clientStep client theirs) [] ours
    let _ ← writeSteps y staged (serverStep ours) written theirs
    pure (mergeCounts ours theirs)

/-- Writes the merged jar of `client` and `server` to `target`. -/
def merge (client server target : String) : FileAction MergeCounts :=
  mergeOn .calm client server target

end Jar

end Jarsmith
