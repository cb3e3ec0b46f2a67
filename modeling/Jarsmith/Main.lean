import Jarsmith.Invocation

/-!
# The command line

Brings the files that an invocation may read into a store, runs it, and writes back what changed.
The program has no connection: what is not in the caches counts as out of reach.
-/

namespace Jarsmith.CommandLine

/-- Brings what stands at a path into a store; what cannot be read counts as not there. -/
partial def load (store : Store) (path : String) : IO Store := do
  try
    let place ← IO.FS.realPath path
    if ← place.isDir then
      let entries ← place.readDir
      let store := (store.makeDirectories path).toOption.getD store
      entries.foldlM (fun store entry => load store (Path.join path entry.fileName)) store
    else
      let content ← IO.FS.readBinFile path
      let store := (store.makeDirectories ((Path.parent? path).getD "/")).toOption.getD store
      pure ((store.put path (.raw content.data.toList)).toOption.getD store)
  catch _ => pure store

/-- The path of a place of the store. -/
def pathOf (place : List String) : String := "/" ++ "/".intercalate place

/-- Writes what differs between two stores. -/
def save (before after : Store) : IO Unit := do
  for (place, node) in before.nodes.entries do
    if node ≠ .directory ∧ after.node? place = none then IO.FS.removeFile (pathOf place)
  for (place, node) in after.nodes.entries do
    if before.node? place ≠ some node then
      match node with
      | .directory => IO.FS.createDirAll (pathOf place)
      | .file content =>
        IO.FS.createDirAll (pathOf place.dropLast)
        IO.FS.writeBinFile (pathOf place) ⟨content.bytes.toArray⟩

/-- The directory for caches of the user. -/
def cachesOfUser (here : String) : IO String := do
  let home ← IO.getEnv "HOME"
  pure ((← IO.getEnv "XDG_CACHE_HOME").getD (home.elim here fun home => Path.join home ".cache"))

/-- Runs an invocation; the result is the text of its answer. -/
def run (here : String) (i : Invocation) : IO (Result String) := do
  let start := (Store.empty.makeDirectories i.project).toOption.getD .empty
  let store ← load start (Path.join i.project WorkspaceSettings.fileName)
  let (settings, _) := (i.settings (.usual (← cachesOfUser here))).run.run store
  match settings with
  | .error e => pure (.error e)
  | .ok settings =>
    let settings := { settings with sharedCache := Path.join here settings.sharedCache }
    let paths := settings.localCacheIn i.project :: settings.sharedCache :: i.inputs
    let before ← paths.foldlM load store
    let (answer, world) := i.run settings ⟨before, none, []⟩
    save before world.store
    pure answer

end Jarsmith.CommandLine

open Jarsmith in
/-- Answers a command line. -/
def main (arguments : List String) : IO UInt32 := do
  let here := toString (← IO.currentDir)
  match Invocation.parse here arguments with
  | .error usage =>
    IO.eprintln usage
    pure 2
  | .ok invocation =>
    match ← CommandLine.run here invocation with
    | .ok answer =>
      IO.println answer
      pure 0
    | .error e =>
      IO.eprintln e.message
      pure 1
