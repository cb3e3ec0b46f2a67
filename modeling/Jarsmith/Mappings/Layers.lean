import Jarsmith.Mappings.Format
import Jarsmith.Mappings.Merge
import Jarsmith.Store.Staging

/-!
# Mapping layers

A stack of mapping files, each known by a name, the name of a format and a text that the host
resolves to a file. Later layers win.

* `MappingLayers.ofSpecs` checks the formats before anything is read.
* `ResolvedLayer.stateKey` is a digest of everything that the merged table depends on.
* `ResolvedLayer.readAll` gives the merged table.
-/

namespace Jarsmith

/-- A layer as it was asked for; `source` is what the host resolves. -/
structure LayerSpec where
  name : String
  format : String
  source : String
  namespaces : Option (String × String)
  deriving DecidableEq, Repr

/-- A layer with a known format. -/
structure MappingLayer where
  spec : LayerSpec
  format : MappingFormat
  deriving DecidableEq, Repr

/-- A layer with the file that its source stands for. -/
structure ResolvedLayer where
  name : String
  format : MappingFormat
  file : String
  deriving DecidableEq, Repr

namespace LayerSpec

/-- The layer that `format:path` describes, named after the file. Namespaces, written as `from:to`,
are for the tiny formats; others pass them over. -/
def parse (text : String) (tinyNamespaces : Option String) : Result LayerSpec := do
  let fault : Error := .configuration (.layerNotation text)
  let some (format, path) := Text.splitFirst? ':' text | throw fault
  if format.isEmpty || path.isEmpty then throw fault
  let spec : LayerSpec := ⟨(Path.stem? path).getD path, format, path, none⟩
  match tinyNamespaces with
  | some namespaces =>
    if Text.startsWith format "tiny" then
      match Text.splitFirst? ':' namespaces with
      | some pair => pure { spec with namespaces := some pair }
      | none => throw (.configuration (.tinyNamespaces namespaces))
    else pure spec
  | none => pure spec

end LayerSpec

namespace Host

/-- The files that a path stands for: itself, if it is a file, or the files directly in the
directory, in the order of their names. -/
def filesOf (path : String) : FileAction (List String) := do
  let s ← getThe Store
  match s.locate path with
  | .ok place =>
    match s.node? place with
    | some (.file _) => pure [path]
    | some .directory => pure ((s.filesIn place).map (Path.join path))
    | none => pure []
  | .error _ => pure []

end Host

namespace MappingLayer

/-- The layer with its file, which must be the only one that its source stands for. -/
def resolve (layer : MappingLayer) : FileAction ResolvedLayer := do
  let spec := layer.spec
  match ← Host.filesOf spec.source with
  | [file] => pure ⟨spec.name, layer.format, file⟩
  | files => throw (.configuration (.unresolvedLayer spec.name spec.source files.length))

end MappingLayer

/-- A stack of layers, the first one lowest. -/
structure MappingLayers where
  layers : List MappingLayer

namespace MappingLayers

/-- The stack of the given layers, at least one and each of a known format. -/
def ofSpecs (specs : List LayerSpec) : Result MappingLayers := do
  if specs.isEmpty then throw (.configuration .noLayers)
  let layers ← specs.mapM fun spec => do
    pure ⟨spec, ← MappingFormat.ofName spec.format spec.namespaces⟩
  pure ⟨layers⟩

/-- The number of layers. -/
def size (stack : MappingLayers) : Nat := stack.layers.length

/-- The layers with their files. -/
def resolve (stack : MappingLayers) : FileAction (List ResolvedLayer) :=
  stack.layers.mapM (·.resolve)

end MappingLayers

namespace ResolvedLayer

/-- The format and the namespaces that are read, as text. -/
def formatText (layer : ResolvedLayer) : String :=
  layer.format.name ++
    match layer.format with
    | .tiny source target => source ++ ":" ++ target
    | _ => ""

/-- The name, the format and the file of a layer. A zero stands behind the name and behind the
format, but not behind the file. -/
def stateBytes (layer : ResolvedLayer) (content : Bytes) : Bytes :=
  Utf8.encode layer.name ++ 0 :: (Utf8.encode layer.formatText ++ 0 :: content)

/-- The names, formats and files of a stack, one layer behind the other. -/
def stateMessage (layers : List ResolvedLayer) : FileAction Bytes := do
  let parts ← layers.mapM fun layer => do
    pure (layer.stateBytes (← FileAction.read layer.file).bytes)
  pure parts.flatten

/-- The digest of the names, formats and files of a stack. -/
def stateKey (layers : List ResolvedLayer) : FileAction String := do
  pure (HashAlgorithm.sha1.digest (← stateMessage layers))

/-- The table of a layer. -/
def read (layer : ResolvedLayer) : FileAction MappingSet := do
  FileAction.lift (layer.format.read (← FileAction.read layer.file))

/-- The tables of all layers, merged in their order. -/
def readAll (layers : List ResolvedLayer) : FileAction MappingSet :=
  layers.foldlM (fun merged layer => do pure (merged.merge (← layer.read))) ∅

end ResolvedLayer

end Jarsmith
