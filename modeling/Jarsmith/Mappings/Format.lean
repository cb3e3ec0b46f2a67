import Jarsmith.Archive.Zip
import Jarsmith.Mappings.Parchment
import Jarsmith.Mappings.ProGuard
import Jarsmith.Mappings.Srg
import Jarsmith.Mappings.Tiny

/-!
# Mapping formats

The formats that a table can be read from, and how they are chosen by name. A file of some formats
may be an archive that holds the text under a fixed name.
-/

namespace Jarsmith

/-- A format of mapping files. A tiny file holds several namespaces, of which two are read. -/
inductive MappingFormat where
  | proguard
  | srg
  | csrg
  | tsrg
  | tiny (source target : String)
  | parchment
  deriving DecidableEq, Repr

namespace MappingFormat

/-- The names by which formats are listed. -/
def names : List String := ["proguard", "srg", "csrg", "tsrg", "tiny", "parchment"]

/-- The namespaces of a tiny file that are read unless others are asked for. -/
def defaultNamespaces : String × String := ("official", "named")

/-- The format with the given name in any letter case. -/
def ofName (name : String) (namespaces : Option (String × String)) : Result MappingFormat :=
  let (source, target) := namespaces.getD defaultNamespaces
  match Text.lowerLatin name with
  | "proguard" => .ok proguard
  | "srg" => .ok srg
  | "csrg" => .ok csrg
  | "tsrg" | "tsrg2" => .ok tsrg
  | "tiny" | "tiny2" => .ok (tiny source target)
  | "parchment" => .ok parchment
  | other => .error (.configuration (.unknownFormat other names))

/-- The name of a format. -/
def name : MappingFormat → String
  | proguard => "proguard"
  | srg => "srg"
  | csrg => "csrg"
  | tsrg => "tsrg"
  | tiny .. => "tiny"
  | parchment => "parchment"

/-- The name under which an archive holds the text, for the formats that come in archives. -/
def archiveEntry? : MappingFormat → Option String
  | tiny .. => some "mappings/mappings.tiny"
  | parchment => some "parchment.json"
  | _ => none

/-- The table that a text writes. -/
def parse (format : MappingFormat) (text : String) : Except MappingFault MappingSet :=
  match format with
  | proguard => Mappings.ProGuard.parse text
  | srg => Mappings.Srg.parse text
  | csrg => Mappings.Csrg.parse text
  | tsrg => Mappings.Tsrg.parse text
  | tiny source target => do (← TinyFile.parse text).toMappingSet source target
  | parchment => Mappings.Parchment.parse text

/-- The table that a text writes; a fault is reported for the format. -/
def readText (format : MappingFormat) (text : String) : Result MappingSet :=
  (format.parse text).mapError (.mappings format.name)

/-- The text that an archive holds for the format. -/
def archivedText (format : MappingFormat) (content : Content) : Result String := do
  let fault (f : MappingFault) : Error := .mappings format.name f
  let some entry := format.archiveEntry? | throw (fault .archiveUnsupported)
  let some entries := content.entries? | throw .archive
  let some found := entries.find? (·.name == entry) | throw (fault (.archiveWithout entry))
  match Utf8.decode? found.data with
  | some text => pure text
  | none => throw (fault .archiveNotText)

/-- The table that a file holds. -/
def read (format : MappingFormat) (content : Content) : Result MappingSet := do
  let text ← if content.looksPacked then format.archivedText content else pure content.text
  format.readText text

end MappingFormat

end Jarsmith
