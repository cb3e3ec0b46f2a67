import Jarsmith.Jar.Entry
import Jarsmith.Store.Staging

/-!
# Writing jars

A jar is written entry by entry, and the file holds the entries that were written so far. Entries
without a time get the time at which they are written.

* `Jar.append` — the entries of a jar with one more;
* `Jar.create`, `Jar.writeSteps` — the file of a jar that is made step by step.
-/

namespace Jarsmith.Jar

/-- The entries of a jar with one more behind them. A name that comes up twice makes no archive. -/
def append (written : List ArchiveEntry) (e : JarEntry) : Result (List ArchiveEntry) :=
  if (written.map (·.name)).contains e.name then .error .archive else .ok (written ++ [e.stored])

/-- Starts a jar at a path. -/
def create (path : String) : FileAction Unit := FileAction.write path (.archive [])

/-- Makes the jar at a path longer, one step for each item; the file holds what the steps made so
far. -/
def writeSteps {α : Type} (y : System) (path : String)
    (step : List ArchiveEntry → α → Result (List ArchiveEntry)) (written : List ArchiveEntry)
    (items : List α) : FileAction (List ArchiveEntry) :=
  items.foldlM (fun written item => do
    let written ← FileAction.lift (step written item)
    FileAction.write path (y.archive written)
    pure written) written

end Jarsmith.Jar
