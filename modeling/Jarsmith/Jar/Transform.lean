import Jarsmith.Jar.Transformer
import Jarsmith.Jar.Writer

/-!
# Transforming jars

A jar whose entries are those of another one after some stages, in the same order.

* `Jar.transformEntries` — the entries of the new jar;
* `Jar.transformOn`, `Jar.transform` — from a file to a file.
-/

namespace Jarsmith.Jar

/-- What some stages make of an entry. An entry of which a class file cannot be read is named in the
error together with `jar`. -/
def transformEntry (jar : String) (stages : List Transformer) (e : ArchiveEntry) :
    Result (Option JarEntry) :=
  (Transformer.run stages (.ofArchive e)).mapError (.malformedClass e.name jar)

/-- Writes what some stages make of an entry behind the entries `written`. -/
def transformStep (jar : String) (stages : List Transformer) (written : List ArchiveEntry)
    (e : ArchiveEntry) : Result (List ArchiveEntry) := do
  match ← transformEntry jar stages e with
  | some e => append written e
  | none => pure written

/-- The entries after the stages. -/
def transformEntries (jar : String) (stages : List Transformer) (entries : List ArchiveEntry) :
    Result (List ArchiveEntry) := entries.foldlM (transformStep jar stages) []

/-- Writes the entries of `source` after the stages to `target`, and gives their number. -/
def transformOn (y : System) (source target : String) (stages : List Transformer) :
    FileAction Nat :=
  FileAction.writeAtomicallyOn y target fun staged => do
    let entries ← FileAction.entries source
    create staged
    let written ← writeSteps y staged (transformStep source stages) [] entries
    pure written.length

/-- Writes the entries of `source` after the stages to `target`, and gives their number. -/
def transform (source target : String) (stages : List Transformer) : FileAction Nat :=
  transformOn .calm source target stages

/-- The hierarchy of the classes in a jar. -/
def hierarchy (path : String) : FileAction ClassHierarchy := do
  FileAction.lift (ClassHierarchy.ofEntries path (← FileAction.entries path))

end Jarsmith.Jar
