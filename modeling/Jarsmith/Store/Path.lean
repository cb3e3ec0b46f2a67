import Jarsmith.Text.Split

/-!
# Paths

Paths are texts with `/` between names. A path that starts with `/` is absolute. Empty names and `.`
between slashes do not count; `..` stays, since what it means depends on the files that are there.
-/

namespace Jarsmith.Path

/-- Whether a path is absolute. -/
def isAbsolute (path : String) : Bool := Text.startsWith path "/"

/-- The names of a path. -/
def names (path : String) : List String :=
  (Text.split '/' path).filter fun name => name != "" && name != "."

/-- Whether a path can only be the path of a directory, since it ends in a slash. -/
def isDirectoryPath (path : String) : Bool := Text.endsWith path "/"

/-- Whether two paths have the same names and start at the same place. -/
def agree (a b : String) : Bool :=
  let startsInDot (path : String) : Bool := path == "." || Text.startsWith path "./"
  isAbsolute a == isAbsolute b && startsInDot a == startsInDot b && names a == names b

/-- Whether the last name of a path is no name of its own: `.`, `..` or that of the root. -/
def endsInDots (path : String) : Bool :=
  match ((Text.split '/' path).filter (· != "")).getLast? with
  | some name => name == "." || name == ".."
  | none => true

/-- The path of `path` as seen from `directory`. -/
def join (directory path : String) : String :=
  if isAbsolute path || directory.isEmpty then path
  else if Text.endsWith directory "/" then directory ++ path
  else directory ++ "/" ++ path

/-- The last name of a path, unless it leads upwards. -/
def fileName? (path : String) : Option String :=
  (names path).getLast?.filter (· != "..")

/-- The path without its last name. A path without names is in no directory. -/
def parent? (path : String) : Option String :=
  let all := names path
  if all.isEmpty then none
  else some ((if isAbsolute path then "/" else "") ++ "/".intercalate all.dropLast)

/-- The last name of a path without what follows its last dot; a dot in front belongs to the
name. -/
def stem? (path : String) : Option String :=
  (fileName? path).map fun name =>
    match Text.splitLast? '.' name with
    | some ("", _) | none => name
    | some (stem, _) => stem

/-- What follows the last dot of a name; a dot in front belongs to the name. -/
def extension? (name : String) : Option String :=
  match Text.splitLast? '.' name with
  | some ("", _) | none => none
  | some (_, extension) => some extension

/-- The path with another last name. -/
def withFileName (path name : String) : String :=
  match parent? path with
  | some parent => join parent name
  | none => name

end Jarsmith.Path
