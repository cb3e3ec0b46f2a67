import Jarsmith.ClassFile.Basic
import Jarsmith.ClassFile.TypeTarget

/-!
# Annotations

The trees that annotation attributes hold, their encoding, and the change of their references. Some
indices of a tree depend on how classes and members are called; `AnnotationRef` says which, and
`mapRefs` visits each of them once, in the order of the bytes.

The nesting of element values is read with a bound on its depth. Each level takes at least one byte,
so a bound above the length of the body is never met.
-/

namespace Jarsmith

/-- The kinds of constants that are values of elements. -/
inductive ConstantKind where
  | boolean
  | byte
  | short
  | int
  | char
  | long
  | float
  | double
  | string
  deriving DecidableEq, Repr

mutual

/-- A value of an element of an annotation. -/
inductive ElementValue where
  | constant (kind : ConstantKind) (index : UInt16)
  | enumConstant (type name : UInt16)
  | classLiteral (descriptor : UInt16)
  | nested (tree : AnnotationTree)
  | array (values : List ElementValue)

/-- An annotation: the descriptor of its type and its elements. -/
inductive AnnotationTree where
  | mk (type : UInt16) (elements : List AnnotationElement)

/-- A named element of an annotation. -/
inductive AnnotationElement where
  | mk (name : UInt16) (value : ElementValue)

end

/-- An annotation of a type, with what it is attached to. -/
structure TypeAnnotationTree where
  kind : TargetKind
  info : TargetInfo
  path : List TypePathStep
  tree : AnnotationTree

/-- What an annotation attribute holds. -/
inductive AnnotationBody where
  | annotations (list : List AnnotationTree)
  | parameters (lists : List (List AnnotationTree))
  | types (list : List TypeAnnotationTree)
  | defaultValue (value : ElementValue)

/-- The kinds of annotation attributes. -/
inductive AnnotationShape where
  | annotations
  | parameters
  | types
  | defaultValue
  deriving DecidableEq

/-- The kind of the annotation attribute with the given name, if there is one. -/
def AnnotationShape.ofName? (name : String) : Option AnnotationShape :=
  if name = AttributeName.visibleAnnotations ∨ name = AttributeName.invisibleAnnotations then
    some .annotations
  else if name = AttributeName.visibleParameterAnnotations
      ∨ name = AttributeName.invisibleParameterAnnotations then some .parameters
  else if name = AttributeName.visibleTypeAnnotations
      ∨ name = AttributeName.invisibleTypeAnnotations then some .types
  else if name = AttributeName.annotationDefault then some .defaultValue
  else none

-- ---------------------------------------------------------------------------
-- Reading
-- ---------------------------------------------------------------------------

/-- The kind of constant that a letter stands for. -/
def ConstantKind.ofLetter? (letter : UInt8) : Option ConstantKind :=
  match Char.ofNat letter.toNat with
  | 'B' => some .byte
  | 'C' => some .char
  | 'D' => some .double
  | 'F' => some .float
  | 'I' => some .int
  | 'J' => some .long
  | 'S' => some .short
  | 'Z' => some .boolean
  | 's' => some .string
  | _ => none

mutual

/-- The next element value. -/
def ElementValue.read : Nat → Reader ElementValue
  | 0 => failure
  | depth + 1 => do
    let letter ← Reader.byte
    match ConstantKind.ofLetter? letter with
    | some kind => .constant kind <$> Reader.index
    | none =>
      match Char.ofNat letter.toNat with
      | 'e' => .enumConstant <$> Reader.index <*> Reader.index
      | 'c' => .classLiteral <$> Reader.index
      | '@' => .nested <$> AnnotationTree.read depth
      | '[' => .array <$> Reader.table (ElementValue.read depth)
      | _ => failure

/-- The next annotation. -/
def AnnotationTree.read : Nat → Reader AnnotationTree
  | 0 => failure
  | depth + 1 => do
    let type ← Reader.index
    let elements ← Reader.table (AnnotationElement.read depth)
    pure (.mk type elements)

/-- The next element. -/
def AnnotationElement.read : Nat → Reader AnnotationElement
  | 0 => failure
  | depth + 1 => do
    let name ← Reader.index
    let value ← ElementValue.read depth
    pure (.mk name value)

end

/-- The next annotation of a type. -/
def TypeAnnotationTree.read (depth : Nat) : Reader TypeAnnotationTree :=
  Reader.tagged TargetKind.ofTag? fun kind => do
    let info ← TargetInfo.read kind.form
    let path ← Reader.smallTable TypePathStep.read
    let tree ← AnnotationTree.read depth
    pure ⟨kind, info, path, tree⟩

namespace AnnotationBody

/-- The body of the given kind at the front of the bytes. -/
def read (shape : AnnotationShape) (depth : Nat) : Reader AnnotationBody :=
  match shape with
  | .annotations => .annotations <$> Reader.table (AnnotationTree.read depth)
  | .parameters => .parameters <$> Reader.smallTable (Reader.table (AnnotationTree.read depth))
  | .types => .types <$> Reader.table (TypeAnnotationTree.read depth)
  | .defaultValue => .defaultValue <$> ElementValue.read depth

/-- What the body of an attribute of the given kind holds. -/
def parse (shape : AnnotationShape) (info : Bytes) : ClassResult AnnotationBody :=
  decoded (Reader.front (read shape (info.length + 2)) info)

end AnnotationBody

-- ---------------------------------------------------------------------------
-- Writing
-- ---------------------------------------------------------------------------

/-- The letter under which a kind of constant is written. -/
def ConstantKind.letter : ConstantKind → UInt8
  | .boolean => UInt8.ofNat 'Z'.toNat
  | .byte => UInt8.ofNat 'B'.toNat
  | .short => UInt8.ofNat 'S'.toNat
  | .int => UInt8.ofNat 'I'.toNat
  | .char => UInt8.ofNat 'C'.toNat
  | .long => UInt8.ofNat 'J'.toNat
  | .float => UInt8.ofNat 'F'.toNat
  | .double => UInt8.ofNat 'D'.toNat
  | .string => UInt8.ofNat 's'.toNat

mutual

/-- The written form. -/
def ElementValue.toBytes : ElementValue → Bytes
  | .constant kind index => kind.letter :: putU16 index
  | .enumConstant type name => UInt8.ofNat 'e'.toNat :: (putU16 type ++ putU16 name)
  | .classLiteral descriptor => UInt8.ofNat 'c'.toNat :: putU16 descriptor
  | .nested tree => UInt8.ofNat '@'.toNat :: tree.toBytes
  | .array values =>
    UInt8.ofNat '['.toNat :: (putU16 (UInt16.ofNat values.length) ++ valuesToBytes values)

/-- The written form of values in a row. -/
def valuesToBytes : List ElementValue → Bytes
  | [] => []
  | value :: more => value.toBytes ++ valuesToBytes more

/-- The written form. -/
def AnnotationTree.toBytes : AnnotationTree → Bytes
  | .mk type elements =>
    putU16 type ++ (putU16 (UInt16.ofNat elements.length) ++ elementsToBytes elements)

/-- The written form of elements in a row. -/
def elementsToBytes : List AnnotationElement → Bytes
  | [] => []
  | element :: more => element.toBytes ++ elementsToBytes more

/-- The written form. -/
def AnnotationElement.toBytes : AnnotationElement → Bytes
  | .mk name value => putU16 name ++ value.toBytes

end

/-- The written form. -/
def TypeAnnotationTree.toBytes (a : TypeAnnotationTree) : Bytes :=
  a.kind.tag :: (a.info.toBytes ++ UInt8.ofNat a.path.length
    :: (a.path.flatMap TypePathStep.toBytes ++ a.tree.toBytes))

/-- The written form of annotations with their number. -/
def annotationsToBytes (list : List AnnotationTree) : Bytes :=
  putU16 (UInt16.ofNat list.length) ++ list.flatMap AnnotationTree.toBytes

/-- The written form. -/
def AnnotationBody.toBytes : AnnotationBody → Bytes
  | .annotations list => annotationsToBytes list
  | .parameters lists => UInt8.ofNat lists.length :: lists.flatMap annotationsToBytes
  | .types list => putU16 (UInt16.ofNat list.length) ++ list.flatMap TypeAnnotationTree.toBytes
  | .defaultValue value => value.toBytes

-- ---------------------------------------------------------------------------
-- Changing references
-- ---------------------------------------------------------------------------

/-- An index of an annotation that depends on how something is called. -/
inductive AnnotationRef where
  /-- The descriptor of an annotation or enumeration type. -/
  | type (index : UInt16)
  /-- The name of an element, which is a method of the annotation type. -/
  | element (annotationType name : UInt16)
  | enumConstant (enumType name : UInt16)
  | classLiteral (index : UInt16)
  deriving DecidableEq, Repr

/-- The index as it stands in the tree. -/
def AnnotationRef.index : AnnotationRef → UInt16
  | type index | classLiteral index => index
  | element _ name | enumConstant _ name => name

section Mapping

variable {m : Type → Type} [Monad m] (f : AnnotationRef → m UInt16)

mutual

/-- Puts `f r` in the place of each reference `r`. -/
def ElementValue.mapRefs : ElementValue → m ElementValue
  | .constant kind index => pure (.constant kind index)
  | .enumConstant type name => do
    let newType ← f (.type type)
    let newName ← f (.enumConstant type name)
    pure (.enumConstant newType newName)
  | .classLiteral descriptor => .classLiteral <$> f (.classLiteral descriptor)
  | .nested tree => do
    let tree ← tree.mapRefs
    pure (.nested tree)
  | .array values => do
    let values ← mapRefsOfValues values
    pure (.array values)

/-- Puts `f r` in the place of each reference `r` of values in a row. -/
def mapRefsOfValues : List ElementValue → m (List ElementValue)
  | [] => pure []
  | value :: more => do
    let value ← value.mapRefs
    let more ← mapRefsOfValues more
    pure (value :: more)

/-- Puts `f r` in the place of each reference `r`. -/
def AnnotationTree.mapRefs : AnnotationTree → m AnnotationTree
  | .mk type elements => do
    let newType ← f (.type type)
    let elements ← mapRefsOfElements type elements
    pure (.mk newType elements)

/-- Puts `f r` in the place of each reference `r` of the elements of an annotation. -/
def mapRefsOfElements (annotationType : UInt16) :
    List AnnotationElement → m (List AnnotationElement)
  | [] => pure []
  | .mk name value :: more => do
    let name ← f (.element annotationType name)
    let value ← value.mapRefs
    let more ← mapRefsOfElements annotationType more
    pure (.mk name value :: more)

end

/-- Puts `f r` in the place of each reference `r`. -/
def TypeAnnotationTree.mapRefs (a : TypeAnnotationTree) : m TypeAnnotationTree := do
  let tree ← a.tree.mapRefs f
  pure { a with tree := tree }

/-- Puts `f r` in the place of each reference `r`. -/
def AnnotationBody.mapRefs : AnnotationBody → m AnnotationBody
  | .annotations list => .annotations <$> list.mapM (·.mapRefs f)
  | .parameters lists => .parameters <$> lists.mapM fun list => list.mapM (·.mapRefs f)
  | .types list => .types <$> list.mapM (·.mapRefs f)
  | .defaultValue value => .defaultValue <$> value.mapRefs f

end Mapping

/-- The body of an attribute with the annotations that `existing` holds, if it is there, and behind
them an annotation of the type `marker` without elements. -/
def markedAnnotations (existing : Option Bytes) (marker : UInt16) : ClassResult Bytes := do
  let list ← match existing with
    | none => pure []
    | some info =>
      decoded (Reader.front (Reader.table (AnnotationTree.read (info.length + 2))) info)
  let count ← count16 (list.length + 1) "annotations"
  let mark := AnnotationTree.mk marker []
  pure (putU16 count ++ list.flatMap AnnotationTree.toBytes ++ mark.toBytes)

end Jarsmith
