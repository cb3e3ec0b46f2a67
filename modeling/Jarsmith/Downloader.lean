import Jarsmith.Lookup
import Jarsmith.Settings
import Jarsmith.World

/-!
# Downloaders

Ways to get a file of the remote to a place in the store. A file that is there already may do; it is
then up to date. A file that the remote does not have is not found.

* `Downloader.direct` takes any file that is there, and writes straight to the place.
* `Downloader.staged` obeys a mode, and lets nobody see a file before it is complete and checked.
-/

namespace Jarsmith

/-- A way to get files of the remote to places below a directory. -/
structure Downloader where
  /-- The directory. -/
  root : String
  /-- Gets the file at an address to a path. -/
  fetch : (url target : String) → Action (Lookup String)
  /-- Gets the file at an address, which must have a digest, to a path. -/
  fetchValid : (url target : String) → HashAlgorithm → (digest : String) → Action (Lookup String)

namespace Downloader

-- ---------------------------------------------------------------------------
-- Getting files below the root
-- ---------------------------------------------------------------------------

/-- The same downloader for another directory. -/
def withRoot (d : Downloader) (root : String) : Downloader := { d with root := root }

/-- Gets the file at an address to a path below the root. -/
def download (d : Downloader) (url path : String) : Action (Lookup String) :=
  d.fetch url (Path.join d.root path)

/-- Gets the file at an address, which must have a digest, to a path below the root. -/
def downloadValid (d : Downloader) (url path : String) (algorithm : HashAlgorithm)
    (digest : String) : Action (Lookup String) :=
  d.fetchValid url (Path.join d.root path) algorithm digest

/-- What the files hold that were found. -/
def bytes (found : Lookup String) : FileAction (Lookup Bytes) :=
  found.mapM fun path => do pure (← FileAction.read path).bytes

/-- The text of the files that were found. -/
def text (found : Lookup String) : FileAction (Lookup String) := found.mapM FileAction.readText

-- ---------------------------------------------------------------------------
-- Straight to the place
-- ---------------------------------------------------------------------------

/-- Writes the file at an address to a path. -/
def fetchDirect (url target : String) : Action (Lookup String) := do
  match ← World.ask url with
  | none => pure .notFound
  | some content =>
    FileAction.makeParents target
    FileAction.write target content
    pure (.found target false)

/-- Fails if a file was found that has another digest. -/
def check (algorithm : HashAlgorithm) (digest : String) : Lookup String → FileAction Unit
  | .notFound => pure ()
  | .found path _ => do
    let actual ← FileAction.digest algorithm path
    if !Text.equalsIgnoringCase actual digest then
      throw (.hashMismatch path algorithm digest actual)

/-- The downloader that takes any file that is there, unless it must have another digest, and writes
what it fetches straight to the place. A fetched file that has another digest stays there. -/
def direct (root : String) : Downloader where
  root := root
  fetch url target := do
    if ← FileAction.isFile target then pure (.found target true) else fetchDirect url target
  fetchValid url target algorithm digest := do
    if ← FileAction.isValid algorithm target digest then pure (.found target true)
    else
      let fetched ← fetchDirect url target
      check algorithm digest fetched
      pure fetched

-- ---------------------------------------------------------------------------
-- By a staged file
-- ---------------------------------------------------------------------------

/-- Puts the file at an address at a path once it is complete and `accept` has not failed on it. -/
def fetchStaged (accept : Content → Result Unit) (url target : String) :
    Action (Lookup String) := do
  match ← World.ask url with
  | none => pure .notFound
  | some content =>
    FileAction.writeAtomically target fun staged => do
      FileAction.write staged content
      FileAction.lift (accept content)
    pure (.found target false)

/-- Accepts content with a digest; `target` is named in the error. -/
def accepts (target : String) (algorithm : HashAlgorithm) (digest : String) (content : Content) :
    Result Unit :=
  let actual := algorithm.digest content.bytes
  if Text.equalsIgnoringCase actual digest then .ok ()
  else .error (.hashMismatch target algorithm digest actual)

/-- The number of times that a file with a wrong digest is fetched. -/
def attempts : Nat := 2

/-- Fetches until the digest fits, `again` times more after a wrong digest. -/
def fetchChecked (url target : String) (algorithm : HashAlgorithm) (digest : String) :
    (again : Nat) → Action (Lookup String)
  | 0 => fetchStaged (accepts target algorithm digest) url target
  | again + 1 =>
    tryCatch (fetchStaged (accepts target algorithm digest) url target) fun
      | .hashMismatch .. => fetchChecked url target algorithm digest again
      | e => throw e

/-- The downloader that obeys a mode and stages what it fetches. A file that has another digest than
it must have is removed. -/
def staged (mode : ResolveMode) (root : String) : Downloader where
  root := root
  fetch url target := do
    if mode != .remoteOnly && (← FileAction.isFile target) then pure (.found target true)
    else if mode.allowsRemote then fetchStaged (fun _ => .ok ()) url target
    else pure .notFound
  fetchValid url target algorithm digest := do
    if ← FileAction.isValid algorithm target digest then pure (.found target true)
    else
      if ← FileAction.isFile target then FileAction.discard target
      if mode.allowsRemote then fetchChecked url target algorithm digest (attempts - 1)
      else pure .notFound

end Downloader

end Jarsmith
