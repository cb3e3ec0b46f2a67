import Jarsmith.ClassFile.Fault
import Jarsmith.Digest

/-!
# Errors

Why a request fails. Each cause is a constructor, and `Error.message` is its only wording.
-/

namespace Jarsmith

/-- What is wrong with a line of a mapping file. -/
inductive LineFault where
  | unrecognizedLine (line : String)
  | unrecognizedMember (line : String)
  | malformedClassLine (line : String)
  | malformedMemberLine (line : String)
  | badParameterIndex (index : String)
  | fieldWithoutOwner
  | methodWithoutOwner
  | classNeedsTwoNames
  | memberOutsideClass
  | memberBeforeClass
  | memberWithoutType
  | unterminatedArguments
  | commentOutsideClass
  | detailOutsideClass
  | detailOutsideMember
  | parameterOutsideMethod
  | malformedParameterLine
  | unexpectedIndentation
  | noTinyHeader
  /-- A class line in a file without namespaces: no name lists the class, and reading breaks off
  without an answer. -/
  | namelessClass
  deriving DecidableEq, Repr

/-- The wording of a fault in a line. -/
def LineFault.message : LineFault → String
  | unrecognizedLine line => s!"unrecognised line '{line}'"
  | unrecognizedMember line => s!"unrecognised member '{line}'"
  | malformedClassLine line => s!"malformed class line '{line}'"
  | malformedMemberLine line => s!"malformed member line '{line}'"
  | badParameterIndex index => s!"bad parameter index '{index}'"
  | fieldWithoutOwner => "field without owner"
  | methodWithoutOwner => "method without owner"
  | classNeedsTwoNames => "class line needs two names"
  | memberOutsideClass => "member outside of a class"
  | memberBeforeClass => "member before any class"
  | memberWithoutType => "member without type"
  | unterminatedArguments => "unterminated argument list"
  | commentOutsideClass => "comment outside of a class"
  | detailOutsideClass => "member detail outside of a class"
  | detailOutsideMember => "member detail outside of a member"
  | parameterOutsideMethod => "parameter outside of a method"
  | malformedParameterLine => "malformed parameter line"
  | unexpectedIndentation => "unexpected indentation"
  | noTinyHeader => "missing 'v1' or 'tiny\\t2' header"
  | namelessClass => "class without a name"

/-- Why a mapping file cannot be read. -/
inductive MappingFault where
  | atLine (line : Nat) (fault : LineFault)
  | unknownNamespace (name : String) (available : List String)
  | archiveUnsupported
  | archiveWithout (entry : String)
  | archiveNotText
  /-- The document is not the one that the format prescribes. -/
  | document
  deriving DecidableEq, Repr

/-- The wording of a fault in a mapping file. -/
def MappingFault.message : MappingFault → String
  | atLine line fault => s!"line {line}: {fault.message}"
  | unknownNamespace name available =>
    s!"unknown namespace '{name}' (available: " ++ ", ".intercalate available ++ ")"
  | archiveUnsupported => "archives are not supported for this format"
  | archiveWithout entry => s!"archive has no '{entry}' entry"
  | archiveNotText => "stream did not contain valid UTF-8"
  | document => "malformed document"

/-- What is wrong with a line of an access widener. -/
inductive WidenerFault where
  | empty
  | invalidHeader (line : String)
  | unexpectedNamespace (found expected : String)
  | differentNamespace (found existing : String)
  | transitiveNeedsV2
  | unknownChange (word : String)
  | mutableClass
  | mutableMethod
  | extendableField
  | invalidDescriptor (text : String)
  | malformedRule (line : String)
  deriving DecidableEq, Repr

/-- The wording of a fault in an access widener. -/
def WidenerFault.message : WidenerFault → String
  | empty => "empty access widener"
  | invalidHeader line => s!"invalid header '{line}'"
  | unexpectedNamespace found expected =>
    s!"namespace '{found}' does not match the expected '{expected}'"
  | differentNamespace found existing =>
    s!"namespace '{found}' differs from previously read '{existing}'"
  | transitiveNeedsV2 => "transitive rules require accessWidener v2"
  | unknownChange word => s!"unknown access change '{word}'"
  | mutableClass => "classes cannot be made mutable"
  | mutableMethod => "methods cannot be made mutable"
  | extendableField => "fields cannot be made extendable"
  | invalidDescriptor text => s!"invalid method descriptor '{text}'"
  | malformedRule line => s!"malformed rule '{line}'"

/-- What is wrong with the metadata of a bundle. -/
inductive BundleFault where
  | invalidVersion (text : String)
  | incompatible (jar version reader : String)
  | noServer
  | malformedLine (index line : String)
  | serverMissing (jar path : String)
  deriving DecidableEq, Repr

/-- The wording of a fault in the metadata of a bundle. -/
def BundleFault.message : BundleFault → String
  | invalidVersion text => s!"Invalid version {text}"
  | incompatible jar version reader =>
    Text.quoted jar ++ s!" uses bundler format {version}, which cannot be read by format {reader}"
  | noServer => "Missing server jar from versions list"
  | malformedLine index line => s!"Malformed line in {index}.list: {line}"
  | serverMissing jar path =>
    "Could not locate server artifact in " ++ Text.quoted jar ++ s!" at {path}"

/-- What is wrong with a request. -/
inductive ConfigurationFault where
  | noLayers
  | unresolvedLayer (name place : String) (count : Nat)
  | unknownFormat (name : String) (supported : List String)
  | layerNotation (text : String)
  | tinyNamespaces (text : String)
  | repeatedModifier (key : String)
  | severalRemappers (keys : List String)
  | earlyModifier (early remapper : String)
  | unknownTransformer (id : String) (known : List String)
  | missingInput (id input : String)
  | unknownPlatform (id : String)
  deriving DecidableEq, Repr

/-- The wording of a fault in a request. -/
def ConfigurationFault.message : ConfigurationFault → String
  | noLayers => "no mapping layers declared"
  | unresolvedLayer name place count =>
    s!"mapping layer '{name}' ({place}) did not resolve to exactly 1 file (got {count})"
  | unknownFormat name supported =>
    s!"unknown mapping format '{name}' (supported: " ++ ", ".intercalate supported ++ ")"
  | layerNotation text => s!"mapping layer '{text}' must be written as format:path"
  | tinyNamespaces text => s!"tiny namespaces '{text}' must be written as from:to"
  | repeatedModifier key => s!"modifier '{key}' was declared more than once"
  | severalRemappers keys =>
    "only one remapping modifier may be active, got " ++ ", ".intercalate keys
  | earlyModifier early remapper =>
    s!"modifier '{early}' must be declared after the remapping modifier '{remapper}'"
  | unknownTransformer id known =>
    s!"unknown transformer '{id}' (known: " ++ ", ".intercalate known ++ ")"
  | missingInput id input => s!"transformer '{id}' requires {input}"
  | unknownPlatform id => s!"unknown platform '{id}' (expected client, server or joined)"

/-- Whether a file was missing, or could not be used for another reason. -/
inductive FileFault where
  | notFound
  | unusable
  deriving DecidableEq, Repr

/-- Why a request fails. -/
inductive Error where
  | file (path : String) (fault : FileFault)
  /-- The remote cannot be reached. -/
  | unreachable (url : String)
  | downloadFailed (url : String) (status : Nat)
  | hashMismatch (path : String) (algorithm : HashAlgorithm) (expected actual : String)
  | invalidCoordinate (text : String)
  | versionNotFound (version : String) (latest : Option String)
  | bundle (fault : BundleFault)
  /-- A document is no JSON, or not the document that was asked for. -/
  | json
  | xml
  /-- A file is no archive, or cannot become one. -/
  | archive
  | classFormat (fault : ClassFault)
  | malformedClass (entry artifact : String) (fault : ClassFault)
  | ambiguousMerge (entry : String)
  | mappings (format : String) (fault : MappingFault)
  | accessWidener (line : Nat) (fault : WidenerFault)
  | configuration (fault : ConfigurationFault)
  | noOfficialMappings (version side : String)
  /-- Jars that belong to an outdated one could not be deleted. -/
  | undeletable (count : Nat) (platform version : String)
  /-- A task came after its queue was closed. -/
  | queueClosed
  /-- The queue was closed before it came to a task. -/
  | taskDropped
  /-- The failure of a step on the way to an artifact. -/
  | during (artifact step : String) (source : Error)
  | other (message : String)
  deriving DecidableEq

namespace Error

/-- The wording of an error. -/
def message : Error → String
  | file path fault =>
    "IO error at " ++ Text.quoted path ++ ": " ++
      match fault with
      | .notFound => "no such file or directory"
      | .unusable => "the file cannot be used"
  | unreachable url => s!"HTTP request failed: {url}"
  | downloadFailed url status => s!"Download failed for {url}: HTTP {status}"
  | hashMismatch path algorithm expected actual =>
    s!"{algorithm.name} mismatch for " ++ Text.quoted path ++
      s!": expected {expected}, got {actual}"
  | invalidCoordinate text => s!"Invalid Maven coordinate: {text}"
  | versionNotFound version latest =>
    s!"Minecraft version '{version}' could not be found" ++
      match latest with
      | some latest => s!". The latest release is '{latest}'"
      | none => ""
  | bundle fault => s!"Bundler metadata error: {fault.message}"
  | json => "JSON error"
  | xml => "XML error"
  | archive => "Zip error"
  | classFormat fault => s!"Invalid class file: {fault.message}"
  | malformedClass entry artifact fault =>
    s!"Malformed class {entry} in {artifact}: {fault.message}"
  | ambiguousMerge entry =>
    s!"Ambiguous merge: client and server disagree on the contents of {entry}"
  | mappings format fault => s!"Failed to read {format} mappings: {fault.message}"
  | accessWidener line fault => s!"Invalid access widener at line {line}: {fault.message}"
  | configuration fault => s!"Invalid configuration: {fault.message}"
  | noOfficialMappings version side =>
    s!"No mappings were available for Minecraft {version} side {side}! " ++
      "Official mappings are only available for releases 1.14.4 and newer."
  | undeletable count platform version =>
    s!"Failed to delete {count} associated artifacts of {platform} {version}"
  | queueClosed => "sync executor has shut down"
  | taskDropped => "sync task was dropped before it ran"
  | during artifact step source => s!"Failed to {step} for {artifact}: {source.message}"
  | other text => text

/-- Whether the error, or the one that it wraps, reports a missing version. -/
def isVersionNotFound : Error → Bool
  | versionNotFound .. => true
  | during _ _ source => source.isVersionNotFound
  | _ => false

/-- Names the entry and the artifact in which a class file is faulty; other errors stay. -/
def inEntry (entry artifact : String) : Error → Error
  | classFormat fault => malformedClass entry artifact fault
  | e => e

end Error

/-- The outcome of a request. -/
abbrev Result := Except Error

instance : MonadLift ClassResult Result := ⟨fun r => r.mapError .classFormat⟩

/-- Tags the error of a computation with the artifact and the step. -/
def during {m : Type → Type} {α : Type} [Monad m] (artifact step : String)
    (action : ExceptT Error m α) : ExceptT Error m α :=
  action.adapt (.during artifact step)

end Jarsmith
