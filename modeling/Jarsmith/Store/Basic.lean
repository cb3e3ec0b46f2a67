import Jarsmith.Archive.Zip
import Jarsmith.Error
import Jarsmith.OrderedMap
import Jarsmith.Store.Path

/-!
# The file store

The directories and files that the library reads and writes, as a value. A node is known by the
names that lead to it from the root; the root is always there.

* `Store.locate` follows a path to the place that it names.
* `Store.file?`, `Store.isDirectory`, `Store.filesIn` look at the store.
* `Store.put`, `Store.makeDirectories`, `Store.move`, `Store.remove` change it.
-/

namespace Jarsmith

/-- What stands at a place of the store. -/
inductive Node where
  | directory
  | file (content : Content)
  deriving DecidableEq

/-- Directories and files by the names that lead to them, and the next number for a temporary
name. -/
structure Store where
  nodes : OrderedMap (List String) Node
  counter : Nat

namespace Store

/-- A store without files. -/
def empty : Store := ⟨∅, 0⟩

instance : Inhabited Store := ⟨empty⟩

/-- The greatest length of a name in bytes. -/
def maxName : Nat := 255

-- ---------------------------------------------------------------------------
-- Looking
-- ---------------------------------------------------------------------------

/-- What stands at a place. -/
def node? (s : Store) : List String → Option Node
  | [] => some .directory
  | place => s.nodes.get? place

/-- Follows names from the directory at `place`; all but the last one must lead to a directory. -/
def follow (s : Store) (place : List String) : List String → Except FileFault (List String)
  | [] => .ok place
  | name :: more =>
    if maxName < name.utf8ByteSize then .error .unusable
    else
      let next := if name = ".." then place.dropLast else place ++ [name]
      match more, s.node? next with
      | [], _ => .ok next
      | _, some .directory => s.follow next more
      | _, some (.file _) => .error .unusable
      | _, none => .error .notFound

/-- The place that a path names. -/
def locate (s : Store) (path : String) : Except FileFault (List String) := do
  let place ← s.follow [] (Path.names path)
  match s.node? place with
  | some (.file _) => if Path.isDirectoryPath path then throw .unusable else pure place
  | _ => pure place

/-- What stands at a path. -/
def at? (s : Store) (path : String) : Option Node :=
  match s.locate path with
  | .ok place => s.node? place
  | .error _ => none

/-- Whether there is a file at a path. -/
def isFile (s : Store) (path : String) : Bool :=
  match s.at? path with
  | some (.file _) => true
  | _ => false

/-- Whether there is a directory at a path. -/
def isDirectory (s : Store) (path : String) : Bool := s.at? path == some .directory

/-- Whether anything stands at a path. -/
def isThere (s : Store) (path : String) : Bool := (s.at? path).isSome

/-- What the file at a path holds. -/
def content (s : Store) (path : String) : Except FileFault Content := do
  match s.node? (← s.locate path) with
  | some (.file content) => pure content
  | some .directory => throw .unusable
  | none => throw .notFound

/-- The names of the files directly in the directory at `place`, in the order of characters. -/
def filesIn (s : Store) (place : List String) : List String :=
  (s.nodes.entries.filterMap fun (names, node) =>
    match names.getLast?, node with
    | some name, .file _ => if names.dropLast = place then some name else none
    | _, _ => none).mergeSort fun a b => a ≤ b

/-- The names of everything directly in the directory at a path. -/
def namesIn (s : Store) (directory : String) : List String :=
  match s.locate directory with
  | .error _ => []
  | .ok above =>
    s.nodes.keys.filterMap fun place => if place.dropLast = above then place.getLast? else none

/-- The paths of all files below a directory as seen from it, in the order of characters. -/
def filesBelow (s : Store) (directory : String) : List String :=
  match s.locate directory with
  | .error _ => []
  | .ok above =>
    (s.nodes.entries.filterMap fun (place, node) =>
      if node ≠ .directory ∧ above.isPrefixOf place
      then some ("/".intercalate (place.drop above.length)) else none).mergeSort fun a b => a ≤ b

-- ---------------------------------------------------------------------------
-- Changing
-- ---------------------------------------------------------------------------

/-- The store with `content` in the file at a place. -/
def setFile (s : Store) (place : List String) (content : Content) : Store :=
  { s with nodes := s.nodes.insert place (.file content) }

/-- Writes the file at a path, whose directory must be there. -/
def put (s : Store) (path : String) (content : Content) : Except FileFault Store := do
  let place ← s.locate path
  match s.node? place with
  | some .directory => throw .unusable
  | none =>
    if Path.isDirectoryPath path then throw .unusable
    if s.node? place.dropLast ≠ some .directory then throw .notFound
    pure (s.setFile place content)
  | some (.file _) => pure (s.setFile place content)

/-- Makes the directories that lead along `names` from the directory at `place`. -/
def makeAlong (s : Store) (place : List String) : List String → Except FileFault Store
  | [] => .ok s
  | name :: more =>
    if maxName < name.utf8ByteSize then .error .unusable
    else
      let next := if name = ".." then place.dropLast else place ++ [name]
      match s.node? next with
      | some .directory => s.makeAlong next more
      | some (.file _) => .error .unusable
      | none => { s with nodes := s.nodes.insert next .directory }.makeAlong next more

/-- Makes the directory at a path and all directories above it. -/
def makeDirectories (s : Store) (path : String) : Except FileFault Store :=
  s.makeAlong [] (Path.names path)

/-- Removes the file at a path. -/
def remove (s : Store) (path : String) : Except FileFault Store := do
  let place ← s.locate path
  match s.node? place with
  | some (.file _) => pure { s with nodes := s.nodes.erase place }
  | some .directory => throw .unusable
  | none => throw .notFound

/-- Whether `place` stands below `directory`. -/
def isBelow (directory place : List String) : Bool :=
  directory.isPrefixOf place && directory != place

/-- Moves the directory at `source` with everything below it. -/
def moveDirectory (s : Store) (source target : List String) : Store :=
  let kept := s.nodes.filter fun place _ => !source.isPrefixOf place && place != target
  let moved := s.nodes.entries.filterMap fun (place, node) =>
    if source.isPrefixOf place then some (target ++ place.drop source.length, node) else none
  { s with nodes := moved.foldl (fun nodes (place, node) => nodes.insert place node) kept }

/-- The place of the directory in which the last name of a path stands. -/
def directoryAbove (s : Store) (path : String) : Except FileFault (List String) := do
  let place ← s.follow [] (Path.names path).dropLast
  match s.node? place with
  | some .directory => pure place
  | some (.file _) => throw .unusable
  | none => throw .notFound

/-- Gives the node at place `a` the place `b`, in place of a file or an empty directory that stands
there. -/
def moveNode (s : Store) (node : Node) (a b : List String) : Except FileFault Store :=
  match node, s.node? b with
  | .file _, some .directory => .error .unusable
  | .file content, _ =>
    .ok { s with nodes := (s.nodes.erase a).insert b (.file content) }
  | .directory, some (.file _) => .error .unusable
  | .directory, some .directory =>
    if s.nodes.keys.any (isBelow b) then .error .unusable else .ok (s.moveDirectory a b)
  | .directory, none => .ok (s.moveDirectory a b)

/-- Gives what stands at `source` the path `target`. Neither path may end in a name that only leads
around. -/
def move (s : Store) (source target : String) : Except FileFault Store := do
  let _ ← s.directoryAbove source
  let _ ← s.directoryAbove target
  if Path.endsInDots source ∨ Path.endsInDots target then throw .unusable
  let a ← s.locate source
  let some node := s.node? a | throw .notFound
  if node ≠ .directory ∧ Path.isDirectoryPath target then throw .unusable
  let b ← s.locate target
  if a = b then pure s
  else if node = .directory ∧ isBelow a b then throw .unusable
  else s.moveNode node a b

end Store

end Jarsmith
