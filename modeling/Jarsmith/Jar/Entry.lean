import Jarsmith.Archive.Entry
import Jarsmith.Text.Split

/-!
# Jar entries

What an entry of a jar is, as its name tells. Classes for one release of the platform only stand
under `META-INF/versions/` and the number of the release.

* `ArchiveEntry.kind` and `ArchiveEntry.release?` say what a name tells.
* `JarEntry` is an entry that carries its kind and its release along.
* `JarEntry.className?` and `JarEntry.pathForClass` lead from the path of a class to its name and
  back.
-/

namespace Jarsmith

/-- The kinds of entries. -/
inductive EntryKind where
  | classFile
  | resource
  | manifest
  | directory
  deriving DecidableEq, Repr

/-- The path of the manifest. -/
def ArchiveEntry.manifestPath : String := "META-INF/MANIFEST.MF"

/-- The path above the entries of single releases. -/
def ArchiveEntry.versionsPath : String := "META-INF/versions/"

/-- The directory of a path above which the releases stand, and the path behind it. -/
def ArchiveEntry.versioned? (path : String) : Option (String × String) := do
  Text.splitFirst? '/' (← Text.stripPrefix? versionsPath path)

namespace ArchiveEntry

/-- The kind of an entry. -/
def kind (e : ArchiveEntry) : EntryKind :=
  if Text.endsWith e.name "/" then .directory
  else if Text.equalsIgnoringCase e.name manifestPath then .manifest
  else if Text.endsWith e.name ".class" then .classFile
  else .resource

/-- The release for which an entry stands in for the entry of the same name. -/
def release? (e : ArchiveEntry) : Option Nat := do
  let (number, _) ← versioned? e.name
  Text.decimalBelow? 65536 number

end ArchiveEntry

/-- An entry on its way through the stages. It carries what its name told when it was made. -/
structure JarEntry extends ArchiveEntry where
  kind : EntryKind
  release : Option Nat
  deriving DecidableEq

namespace JarEntry

/-- An entry with what its name tells. -/
def ofArchive (e : ArchiveEntry) : JarEntry := ⟨e, e.kind, e.release?⟩

/-- The internal name of the class in an entry, as its path tells. -/
def className? (e : JarEntry) : Option String :=
  match e.kind with
  | .classFile =>
    let path := match e.release with
      | some _ => ((ArchiveEntry.versioned? e.name).map (·.2)).getD e.name
      | none => e.name
    Text.stripSuffix? ".class" path
  | _ => none

/-- The path of an entry for another class, in the same release. -/
def pathForClass (e : JarEntry) (name : String) : String :=
  match e.release with
  | some release => s!"{ArchiveEntry.versionsPath}{release}/{name}.class"
  | none => name ++ ".class"

/-- The entry with other data. -/
def withData (e : JarEntry) (data : Bytes) : JarEntry := { e with data := data }

/-- The entry as an archive holds it. A directory has no data. -/
def stored (e : JarEntry) : ArchiveEntry :=
  if e.kind = .directory then { e.toArchiveEntry with data := [] } else e.toArchiveEntry

end JarEntry

namespace ArchiveEntry

/-- The internal name of the class in an entry, as its path tells. -/
def className? (e : ArchiveEntry) : Option String := (JarEntry.ofArchive e).className?

/-- The path of an entry for another class, in the same release. -/
def pathForClass (e : ArchiveEntry) (name : String) : String :=
  (JarEntry.ofArchive e).pathForClass name

end ArchiveEntry

end Jarsmith
