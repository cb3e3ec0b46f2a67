import Jarsmith.Archive.Entry
import Jarsmith.Error

/-!
# The system below the files

What the files alone do not decide: whether the system renames a file, how far it copies one, whether
it removes one that was copied, and what time it is. An operation asks for each of these by the paths
that it works on.

* `System.settled` — what comes of a rename that is tried again while it is denied.
* `System.archive` — the file of an archive that is written now.
* `System.calm` — the system that does all that it is asked for.
-/

namespace Jarsmith

/-- What the system answers to a rename. -/
inductive RenameAnswer where
  | granted
  /-- Not now, since another process holds the file. -/
  | denied
  /-- Not at all. -/
  | unable (fault : FileFault)
  deriving DecidableEq

/-- How far the system copies a file. -/
inductive CopyAnswer where
  | whole
  /-- The target cannot be opened. -/
  | refused
  /-- Only so many bytes come to the target. -/
  | brokenOff (count : Nat)
  deriving DecidableEq

/-- What the system does with files. -/
structure System where
  /-- The answer to a rename that was tried `tries` times before. -/
  rename (source target : String) (tries : Nat) : RenameAnswer
  copy (source target : String) : CopyAnswer
  /-- Whether the file at a path is removed once it was copied. -/
  removes (path : String) : Bool
  /-- The time at which an entry with the given name is written. -/
  clock (name : String) : DosTime

namespace System

/-- How often a rename that was denied is tried again. -/
def maxRetries : Nat := 2

/-- The answer to a rename that is tried at most `left` times more while it is denied. -/
def renameAgain (y : System) (source target : String) (tries : Nat) : Nat → RenameAnswer
  | 0 => y.rename source target tries
  | left + 1 =>
    match y.rename source target tries with
    | .denied => y.renameAgain source target (tries + 1) left
    | answer => answer

/-- What comes of a rename behind all tries. -/
def settled (y : System) (source target : String) : RenameAnswer :=
  y.renameAgain source target 0 maxRetries

/-- The file of an archive with the given entries. Those that have no time get that of writing. -/
def archive (y : System) (entries : List ArchiveEntry) : Content :=
  .archive (entries.map (·.stamped y.clock))

/-- The system that does all that it is asked for, at the first moment that an archive knows. -/
def calm : System where
  rename _ _ _ := .granted
  copy _ _ := .whole
  removes _ := true
  clock _ := .first

/-- A system that copies whole files and removes what was copied. -/
structure Whole (y : System) : Prop where
  copy : ∀ source target count, y.copy source target ≠ .brokenOff count
  removes : ∀ path, y.removes path = true

end System

end Jarsmith
