import Jarsmith.AccessWidener.Apply
import Jarsmith.Jar.Entry
import Jarsmith.Jar.LocalNames
import Jarsmith.Jar.Manifest
import Jarsmith.Jar.SourceFile
import Jarsmith.Remap.Class

/-!
# Transformers

The stages through which the entries of a jar pass. A stage changes an entry, deletes it, or leaves
it as it is.

* `Transformer.apply` — one stage;
* `Transformer.run` — several stages, up to the first deletion;
* `Transformer.choose` — the stages of the given names.
-/

namespace Jarsmith

/-- Runs a fix. The answer is none if there was nothing to fix; a fixed class has the pool that the
fix left. -/
def ClassFile.fix (c : ClassFile) (f : Pool.Edit (Option ClassFile)) :
    ClassResult (Option ClassFile) :=
  match f.run.run c.pool with
  | (.ok fixed, pool) => .ok (fixed.map fun fixed => { fixed with pool := pool })
  | (.error fault, _) => .error fault

/-- A stage. -/
inductive Transformer where
  /-- Keeps the classes of the root package and of packages that start in an allowed way, and
  deletes directories. -/
  | filter (allowed : List String)
  /-- Deletes signature files and the digests in the manifest. -/
  | stripSignatures
  /-- Replaces names of local variables that no source file can contain. -/
  | fixLocalNames
  /-- Renames classes and members. -/
  | remap (remapper : Remapper)
  /-- Relaxes access flags. -/
  | widenAccess (widener : AccessWidener)
  /-- Names source files after their outermost classes. -/
  | fixSourceFile

/-- What stages are made of. -/
structure TransformerInputs where
  allowed : List String
  remapper : Option Remapper
  widener : Option AccessWidener

namespace Transformer

-- ---------------------------------------------------------------------------
-- Choosing
-- ---------------------------------------------------------------------------

/-- The name of a stage. -/
def name : Transformer → String
  | filter _ => "filter"
  | stripSignatures => "strip-signatures"
  | fixLocalNames => "fix-lvt-names"
  | remap _ => "remap"
  | widenAccess _ => "access-widener"
  | fixSourceFile => "source-file"

/-- The names of all stages. -/
def names : List String :=
  ["filter", "strip-signatures", "fix-lvt-names", "remap", "access-widener", "source-file"]

/-- The stage of a known name, if its inputs are there. -/
def ofName (inputs : TransformerInputs) (id : String) : Result Transformer :=
  let missing (input : String) : Result Transformer :=
    .error (.configuration (.missingInput id input))
  match id with
  | "filter" =>
    if inputs.allowed.isEmpty then missing "at least one allowed package"
    else .ok (filter inputs.allowed)
  | "strip-signatures" => .ok stripSignatures
  | "fix-lvt-names" => .ok fixLocalNames
  | "remap" =>
    match inputs.remapper with
    | some remapper => .ok (remap remapper)
    | none => missing "a remapper"
  | "access-widener" =>
    match inputs.widener with
    | some widener => .ok (widenAccess widener)
    | none => missing "an access widener"
  | "source-file" => .ok fixSourceFile
  | _ => .error (.configuration (.unknownTransformer id names))

/-- The stages of the given names. An unknown name is reported before a missing input. -/
def choose (inputs : TransformerInputs) (ids : List String) : Result (List Transformer) :=
  match ids.find? fun id => !names.contains id with
  | some id => .error (.configuration (.unknownTransformer id names))
  | none => ids.mapM (ofName inputs)

-- ---------------------------------------------------------------------------
-- The stages
-- ---------------------------------------------------------------------------

/-- Whether a class is in the root package or in an allowed one. -/
def isAllowed (allowed : List String) (className : String) : Bool :=
  !Text.hasChar className '/' || allowed.any fun start => Text.startsWith className start

/-- Whether a class, a resource or a manifest passes the filter. -/
def passes (allowed : List String) (e : JarEntry) : Bool :=
  match e.kind with
  | .directory => false
  | .classFile => e.className?.any (isAllowed allowed)
  | .resource | .manifest => true

/-- Whether a path is that of a signature or of a block of signatures. -/
def isSignatureFile (path : String) : Bool :=
  match Text.stripPrefix? "META-INF/" path with
  | none => false
  | some file =>
    !Text.hasChar file '/' && (Text.startsWith file "SIG-" ||
      [".SF", ".RSA", ".DSA", ".EC"].any fun ending => Text.endsWith (Text.upperLatin file) ending)

/-- Whether an attribute of the manifest holds a digest. -/
def isDigestKey (key : String) : Bool := Text.endsWith (Text.upperLatin key) "-DIGEST"

/-- Deletes signature files and the digests in the manifest. -/
def stripSignature (e : JarEntry) : Option JarEntry :=
  match e.kind with
  | .manifest =>
    let m := JarManifest.parse e.data
    if m.hasSectionAttribute isDigestKey then
      some (e.withData (m.stripSections isDigestKey).toBytes)
    else some e
  | .resource => if isSignatureFile e.name then none else some e
  | _ => some e

/-- The main class of a manifest under its new name. -/
def remapManifest (r : Remapper) (e : JarEntry) : JarEntry :=
  let m := JarManifest.parse e.data
  match (m.mainAttribute? "Main-Class").bind fun main => r.class? (Text.replace '.' '/' main) with
  | some mapped =>
    e.withData (m.setMainAttribute "Main-Class" (Text.replace '/' '.' mapped)).toBytes
  | none => e

/-- The class file in an entry after an edit; an entry of which nothing changed keeps its bytes. -/
def editClass (f : ClassFile → ClassResult ClassFile) (changed : ClassFile → ClassFile → Bool)
    (e : JarEntry) : ClassResult JarEntry := do
  let c ← ClassFile.parse e.data
  let edited ← f c
  if changed c edited then pure (e.withData (← edited.toBytes)) else pure e

/-- The class file in an entry after a fix; an entry with nothing to fix keeps its bytes. -/
def fixClass (f : ClassFile → Pool.Edit (Option ClassFile)) (e : JarEntry) :
    ClassResult JarEntry := do
  let c ← ClassFile.parse e.data
  match ← c.fix (f c) with
  | some fixed => pure (e.withData (← fixed.toBytes))
  | none => pure e

/-- Both fixes of a class behind each other. -/
def fixNames (c : ClassFile) : Pool.Edit (Option ClassFile) := do
  let first ← c.fixSourceFile
  let second ← (first.getD c).fixLocalNames
  pure (second.or first)

/-- A class under its new name, with a source file and local variables that go with it. It moves to
the path of its new name. -/
def remapClass (r : Remapper) (e : JarEntry) : ClassResult JarEntry := do
  let c ← ClassFile.parse e.data
  let old ← c.name
  let remapped ← (← r.apply c).toBytes
  let c ← ClassFile.parse remapped
  let fixed ← c.fix (fixNames c)
  let renamed ← (fixed.getD c).name
  let data ← (fixed.map ClassFile.toBytes).getD (.ok remapped)
  if renamed = old then pure (e.withData data)
  else pure (.ofArchive ⟨e.pathForClass renamed, e.time, data⟩)

/-- Passes an entry through a stage; the answer is none if it is deleted. -/
def apply (t : Transformer) (e : JarEntry) : ClassResult (Option JarEntry) :=
  match t with
  | filter allowed => .ok (if passes allowed e then some e else none)
  | stripSignatures => .ok (stripSignature e)
  | fixLocalNames =>
    if e.kind = .classFile then some <$> fixClass ClassFile.fixLocalNames e
    else .ok (some e)
  | remap r =>
    match e.kind with
    | .classFile => some <$> remapClass r e
    | .manifest => .ok (some (remapManifest r e))
    | _ => .ok (some e)
  | widenAccess w =>
    if e.kind = .classFile ∧ !w.isEmpty then some <$> editClass w.apply AccessWidener.changed e
    else .ok (some e)
  | fixSourceFile =>
    if e.kind = .classFile then some <$> fixClass ClassFile.fixSourceFile e
    else .ok (some e)

/-- Passes an entry through several stages, up to the first that deletes it. -/
def run : List Transformer → JarEntry → ClassResult (Option JarEntry)
  | [], e => .ok (some e)
  | t :: more, e => do
    match ← t.apply e with
    | some e => run more e
    | none => pure none

/-- Passes an entry of an archive through several stages. -/
def applyAll (stages : List Transformer) (e : ArchiveEntry) : ClassResult (Option ArchiveEntry) := do
  pure ((← run stages (.ofArchive e)).map (·.toArchiveEntry))

end Transformer

end Jarsmith
