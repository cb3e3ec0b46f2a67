import Jarsmith.Json.Value
import Jarsmith.Maven

/-!
# Libraries

The libraries that a version of the game needs, with the rules that say on which systems.

* `Library.isAllowedOn` — the last rule that fits a system decides; without rules a library is
  allowed.
* `Library.isNatives` — whether a library holds code for one kind of machine only.
-/

namespace Jarsmith

/-- What programs run on. -/
structure HostSystem where
  name : String
  arch : String
  deriving DecidableEq, Repr

/-- The system that the library runs on. -/
def HostSystem.current : HostSystem := ⟨"linux", "x86_64"⟩

/-- The systems that a rule fits: all of them where it says nothing. -/
structure SystemPattern where
  name : Option String
  arch : Option String
  deriving DecidableEq, Repr

namespace SystemPattern

/-- Whether a rule fits a system. -/
def fits (p : SystemPattern) (system : HostSystem) : Bool :=
  p.name.all (· == system.name) && p.arch.all (· == system.arch)

/-- Reads a pattern. -/
def ofJson? (j : JsonValue) : Option SystemPattern := do
  let r ← j.record? ["name", "arch"]
  let name ← r.optional "name" (·.string?)
  let arch ← r.optional "arch" (·.string?)
  some ⟨name, arch⟩

/-- Writes a pattern. -/
def toJson (p : SystemPattern) : JsonValue :=
  .ofFields [("name", .ofOption .ofString p.name), ("arch", .ofOption .ofString p.arch)]

end SystemPattern

/-- A rule that allows or forbids a library on the systems that it fits. -/
structure LibraryRule where
  allows : Bool
  system : Option SystemPattern
  deriving DecidableEq, Repr

namespace LibraryRule

/-- Whether a rule fits a system. -/
def fits (r : LibraryRule) (system : HostSystem) : Bool := r.system.all (·.fits system)

/-- Reads a rule. -/
def ofJson? (j : JsonValue) : Option LibraryRule := do
  let r ← j.record? ["action", "os"]
  let allows ← r.required "action" (JsonValue.choice? [("allow", true), ("disallow", false)])
  let system ← r.optional "os" SystemPattern.ofJson?
  some ⟨allows, system⟩

/-- Writes a rule. -/
def toJson (r : LibraryRule) : JsonValue :=
  .ofFields [("action", .ofString (if r.allows then "allow" else "disallow")),
    ("os", .ofOption SystemPattern.toJson r.system)]

end LibraryRule

/-- A file that a library consists of. -/
structure LibraryFile where
  path : Option String
  sha1 : String
  size : Nat
  url : String
  deriving DecidableEq, Repr

namespace LibraryFile

/-- Reads a file. -/
def ofJson? (j : JsonValue) : Option LibraryFile := do
  let r ← j.record? ["path", "sha1", "size", "url"]
  let path ← r.optional "path" (·.string?)
  let sha1 ← r.required "sha1" (·.string?)
  let size ← r.defaulted "size" 0 (·.natBelow? UInt64.size)
  let url ← r.required "url" (·.string?)
  some ⟨path, sha1, size, url⟩

/-- Writes a file. -/
def toJson (f : LibraryFile) : JsonValue :=
  .ofFields [("path", .ofOption .ofString f.path), ("sha1", .ofString f.sha1),
    ("size", .ofNat f.size),
    ("url", .ofString f.url)]

end LibraryFile

/-- The files that a library consists of. -/
structure LibraryFiles where
  artifact : Option LibraryFile
  classifiers : Option (OrderedMap String LibraryFile)

namespace LibraryFiles

/-- Reads the files. -/
def ofJson? (j : JsonValue) : Option LibraryFiles := do
  let r ← j.record? ["artifact", "classifiers"]
  let artifact ← r.optional "artifact" LibraryFile.ofJson?
  let classifiers ← r.optional "classifiers" (JsonValue.map? LibraryFile.ofJson?)
  some ⟨artifact, classifiers⟩

/-- Writes the files. -/
def toJson (f : LibraryFiles) : JsonValue :=
  .ofFields [("artifact", .ofOption LibraryFile.toJson f.artifact),
    ("classifiers", .ofOption (JsonValue.ofMap LibraryFile.toJson) f.classifiers)]

end LibraryFiles

/-- A library. -/
structure Library where
  name : String
  files : Option LibraryFiles
  rules : Option (List LibraryRule)
  /-- The classifiers of the files with machine code by the names of systems. -/
  natives : Option (OrderedMap String String)

namespace Library

/-- Whether a library is used on a system. -/
def isAllowedOn (l : Library) (system : HostSystem) : Bool :=
  match l.rules with
  | none => true
  | some rules => ((rules.reverse.find? (·.fits system)).map (·.allows)).getD false

/-- Whether a library holds machine code. -/
def isNatives (l : Library) : Bool := l.natives.isSome || Text.hasWord ":natives-" l.name

/-- The coordinate that the name of a library is. -/
def coordinate? (l : Library) : Option MavenCoordinate := (MavenCoordinate.parse l.name).toOption

/-- Reads a library. -/
def ofJson? (j : JsonValue) : Option Library := do
  let r ← j.record? ["name", "downloads", "rules", "natives"]
  let name ← r.required "name" (·.string?)
  let files ← r.optional "downloads" LibraryFiles.ofJson?
  let rules ← r.optional "rules" (JsonValue.list? LibraryRule.ofJson?)
  let natives ← r.optional "natives" (JsonValue.map? (·.string?))
  some ⟨name, files, rules, natives⟩

/-- Writes a library. -/
def toJson (l : Library) : JsonValue :=
  .ofFields [("name", .ofString l.name), ("downloads", .ofOption LibraryFiles.toJson l.files),
    ("rules", .ofOption (fun rules => .array (rules.map LibraryRule.toJson)) l.rules),
    ("natives", .ofOption (JsonValue.ofMap .ofString) l.natives)]

end Library

end Jarsmith
