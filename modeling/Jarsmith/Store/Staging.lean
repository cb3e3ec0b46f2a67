import Jarsmith.Store.Basic
import Jarsmith.Store.System

/-!
# Staged writes

Computations on the file store, and writes that others never see half done: the content is made at a
temporary sibling of its destination and moved into place as a whole.

A computation keeps what it did to the store before it failed. Where the outcome depends on the system
below the files, the computation exists for every system, and under a name of its own for the one that
does all that it is asked for.

* `FileAction.moveOn`, `FileAction.move` — moves, by a rename or by a copy.
* `FileAction.writeAtomicallyOn`, `FileAction.writeAtomically` — staged writes.
-/

namespace Jarsmith

/-- A computation that reads and changes files, and may fail. -/
abbrev FileAction := ExceptT Error (StateM Store)

namespace FileAction

/-- Looks at the store; a fault is reported for `path`. -/
def look {α : Type} (path : String) (f : Store → Except FileFault α) : FileAction α := do
  match f (← getThe Store) with
  | .ok value => pure value
  | .error fault => throw (.file path fault)

/-- Changes the store; a fault is reported for `path` and changes nothing. -/
def change (path : String) (f : Store → Except FileFault Store) : FileAction Unit := do
  set (← look path f)

/-- A step that cannot touch files. -/
def lift {α : Type} : Result α → FileAction α
  | .ok value => pure value
  | .error e => throw e

/-- What the file at a path holds. -/
def read (path : String) : FileAction Content := look path (·.content path)

/-- The text of the file at a path. -/
def readText (path : String) : FileAction String := do
  match Utf8.decode? (← read path).bytes with
  | some text => pure text
  | none => throw (.file path .unusable)

/-- The digest of the file at a path. -/
def digest (algorithm : HashAlgorithm) (path : String) : FileAction String := do
  pure (algorithm.digest (← read path).bytes)

/-- The entries of the archive at a path. -/
def entries (path : String) : FileAction (List ArchiveEntry) := do
  match (← read path).entries? with
  | some entries => pure entries
  | none => throw .archive

/-- Writes the file at a path, whose directory must be there. -/
def write (path : String) (content : Content) : FileAction Unit :=
  change path (·.put path content)

/-- Writes what the file at `source` holds at `target`, as far as the system copies it; a fault is
reported for `target`. -/
def copyOn (y : System) (source target : String) : FileAction Unit := do
  let content ← look target (·.content source)
  match y.copy source target with
  | .whole => write target content
  | .refused => throw (.file target .unusable)
  | .brokenOff count => do
    write target (.raw (content.bytes.take count))
    throw (.file target .unusable)

/-- Writes what the file at `source` holds at `target`; a fault is reported for `target`. -/
def copy (source target : String) : FileAction Unit := copyOn .calm source target

/-- Removes the file at a path, if it can be removed. -/
def discard (path : String) : FileAction Unit :=
  modify fun s => (s.remove path).toOption.getD s

/-- Removes the files at some paths as far as they can be removed. The answer is the number of those
that cannot. -/
def discardAll (paths : List String) : FileAction Nat := do
  let kept := (← getThe Store)
  let stuck := paths.filter fun path => (kept.remove path).toOption.isNone
  paths.forM discard
  pure stuck.length

/-- Whether there is a file at a path. -/
def isFile (path : String) : FileAction Bool := return (← getThe Store).isFile path

/-- Whether there is a file with a digest at a path. -/
def isValid (algorithm : HashAlgorithm) (path digest : String) : FileAction Bool := do
  match (← getThe Store).at? path with
  | some (.file content) => pure (algorithm.isValid content.bytes digest)
  | _ => pure false

/-- Makes the directories above a path. -/
def makeParents (path : String) : FileAction Unit :=
  match Path.parent? path with
  | some "" | none => pure ()
  | some parent => change parent (·.makeDirectories parent)

/-- Runs `action`; any failure is reported as `e`. -/
def reporting {α : Type} (e : Error) (action : FileAction α) : FileAction α :=
  tryCatch action fun _ => throw e

/-- Puts the file at `source` at `target` by a copy, since it cannot be renamed because of `fault`.
Nothing else than a file is copied. -/
def carry (y : System) (source target : String) (fault : FileFault) : FileAction Unit := do
  let s ← getThe Store
  if s.isFile source && !Path.endsInDots source && !Path.endsInDots target then
    reporting (.file target fault) (copyOn y source target)
    if y.removes source then change source (·.remove source)
    else throw (.file source .unusable)
  else throw (.file target fault)

/-- Puts what stands at `source` at `target`. A rename that is denied is tried again; one that is not
possible is made a copy, which is no single step. -/
def moveOn (y : System) (source target : String) : FileAction Unit := do
  match y.settled source target with
  | .denied => throw (.file target .unusable)
  | .unable fault => carry y source target fault
  | .granted =>
    match (← getThe Store).move source target with
    | .ok moved => set moved
    | .error fault => carry y source target fault

/-- Puts what stands at `source` at `target`. -/
def move (source target : String) : FileAction Unit := moveOn .calm source target

/-- The name of a temporary sibling with the given number. -/
def siblingName (name : String) (number : Nat) : String :=
  "." ++ name ++ "." ++ hexNat 32 number ++ ".tmp"

/-- The name to which the name of a temporary sibling belongs. -/
def siblingTarget? (name : String) : Option String := do
  let (name, number) ← Text.splitLast? '.' (← Text.stripSuffix? ".tmp" name)
  let isDigit (c : Char) : Bool := c.isDigit || ('a' ≤ c && c ≤ 'f')
  if number.length = 32 ∧ number.all isDigit then Text.stripPrefix? "." name else none

/-- The path of a temporary sibling with the given number. -/
def siblingPath (path : String) (number : Nat) : String :=
  Path.withFileName path (siblingName ((Path.fileName? path).getD "") number)

/-- A sibling of a path at which nothing stands. Its number is not given out again. -/
def temporarySibling (path : String) : FileAction String := do
  let s ← getThe Store
  let numbers := (List.range (s.nodes.size + 1)).map (s.counter + ·)
  let number := (numbers.find? fun n => !s.isThere (siblingPath path n)).getD s.counter
  set { s with counter := number + 1 }
  pure (siblingPath path number)

/-- Runs `action`, and `recover` behind it if it fails; the failure stays. -/
def onFailure {α : Type} (action : FileAction α) (recover : FileAction Unit) : FileAction α :=
  tryCatch action fun e => do
    recover
    throw e

/-- Lets `make` write at a temporary sibling of `target` and moves the result into place. When
anything fails, the sibling is removed. -/
def writeAtomicallyOn {α : Type} (y : System) (target : String) (make : String → FileAction α) :
    FileAction α := do
  makeParents target
  let staged ← temporarySibling target
  onFailure
    (do
      let value ← make staged
      moveOn y staged target
      pure value)
    (discard staged)

/-- Lets `make` write at a temporary sibling of `target` and moves the result into place. When
anything fails, the sibling is removed and `target` stays as it was. -/
def writeAtomically {α : Type} (target : String) (make : String → FileAction α) : FileAction α :=
  writeAtomicallyOn .calm target make

end FileAction

end Jarsmith
