import Jarsmith.Proofs.Remap.Annotations

/-!
# The pieces of annotations

The written form of an annotation attribute is a row of pieces: bytes that no renaming touches, and
between them the references. A walk that puts new indices in the place of the references asks for
each of them once, in the order of the bytes, and writes the other pieces as they are. This holds in
any monad, so also for a walk that fails or remembers what it was asked for.

* `AnnotationBody.pieces` — the pieces of a written form; `AnnotationBody.flatMap_pieces` says that
  they are all of it.
* `AnnotationBody.toBytes_mapRefs` — what a walk writes.
* `AnnotationBody.mapRefs_index` — a walk that keeps every index keeps the body.
-/

namespace Jarsmith

/-- A piece of the written form of an annotation. -/
inductive AnnotationPiece where
  /-- Tags, numbers, targets, paths and the indices of constants. -/
  | kept (bytes : Bytes)
  | ref (r : AnnotationRef)

-- ---------------------------------------------------------------------------
-- The pieces of a tree
-- ---------------------------------------------------------------------------

mutual

/-- The pieces of a value. -/
def ElementValue.pieces : ElementValue → List AnnotationPiece
  | .constant kind index => [.kept (kind.letter :: putU16 index)]
  | .enumConstant type name =>
    [.kept [UInt8.ofNat 'e'.toNat], .ref (.type type), .ref (.enumConstant type name)]
  | .classLiteral descriptor => [.kept [UInt8.ofNat 'c'.toNat], .ref (.classLiteral descriptor)]
  | .nested tree => .kept [UInt8.ofNat '@'.toNat] :: tree.pieces
  | .array values =>
    .kept (UInt8.ofNat '['.toNat :: putU16 (UInt16.ofNat values.length)) :: valuesPieces values

/-- The pieces of values in a row. -/
def valuesPieces : List ElementValue → List AnnotationPiece
  | [] => []
  | value :: more => value.pieces ++ valuesPieces more

/-- The pieces of an annotation. -/
def AnnotationTree.pieces : AnnotationTree → List AnnotationPiece
  | .mk type elements =>
    .ref (.type type) :: .kept (putU16 (UInt16.ofNat elements.length)) ::
      elementsPieces type elements

/-- The pieces of the elements of an annotation of the given type. -/
def elementsPieces (type : UInt16) : List AnnotationElement → List AnnotationPiece
  | [] => []
  | .mk name value :: more =>
    .ref (.element type name) :: (value.pieces ++ elementsPieces type more)

end

/-- The pieces of an annotation of a type. -/
def TypeAnnotationTree.pieces (a : TypeAnnotationTree) : List AnnotationPiece :=
  .kept (a.kind.tag :: (a.info.toBytes ++ UInt8.ofNat a.path.length
    :: a.path.flatMap TypePathStep.toBytes)) :: a.tree.pieces

/-- The pieces of annotations with their number. -/
def annotationsPieces (list : List AnnotationTree) : List AnnotationPiece :=
  .kept (putU16 (UInt16.ofNat list.length)) :: list.flatMap AnnotationTree.pieces

/-- The pieces of the body of an annotation attribute. -/
def AnnotationBody.pieces : AnnotationBody → List AnnotationPiece
  | .annotations list => annotationsPieces list
  | .parameters lists => .kept [UInt8.ofNat lists.length] :: lists.flatMap annotationsPieces
  | .types list =>
    .kept (putU16 (UInt16.ofNat list.length)) :: list.flatMap TypeAnnotationTree.pieces
  | .defaultValue value => value.pieces

namespace AnnotationPiece

/-- The bytes of a piece. -/
def toBytes : AnnotationPiece → Bytes
  | kept bytes => bytes
  | ref r => putU16 r.index

section Writing

variable {m : Type → Type} [Monad m] (f : AnnotationRef → m UInt16)

/-- The bytes of a piece, with the index that `f` gives for a reference. -/
def write : AnnotationPiece → m Bytes
  | kept bytes => pure bytes
  | ref r => putU16 <$> f r

/-- The bytes of pieces in a row. -/
def writeAll (pieces : List AnnotationPiece) : m Bytes := List.flatten <$> pieces.mapM (write f)

variable [LawfulMonad m] (bytes : Bytes) (r : AnnotationRef) (pieces more : List AnnotationPiece)

@[simp] theorem writeAll_nil : writeAll f [] = pure [] := by simp [writeAll]

@[simp] theorem writeAll_kept :
    writeAll f (kept bytes :: more) = (bytes ++ ·) <$> writeAll f more := by
  simp [writeAll, write]

@[simp] theorem writeAll_ref :
    writeAll f (ref r :: more) = (do
      let i ← f r
      (putU16 i ++ ·) <$> writeAll f more) := by
  simp [writeAll, write]

@[simp] theorem writeAll_append :
    writeAll f (pieces ++ more) = (do
      let bytes ← writeAll f pieces
      (bytes ++ ·) <$> writeAll f more) := by
  induction pieces with
  | nil => simp
  | cons piece rest ih => cases piece <;> simp [ih]

end Writing

end AnnotationPiece

-- ---------------------------------------------------------------------------
-- What a walk writes
-- ---------------------------------------------------------------------------

section Walk

open AnnotationPiece

variable {m : Type → Type} [Monad m] [LawfulMonad m]

/-- If only a view of an outcome counts, the computation of the view can stand for it. -/
theorem bind_view {α γ δ : Type} {x : m α} {y : m γ} {g : α → γ} (hView : g <$> x = y)
    (k : γ → m δ) : (x >>= fun a => k (g a)) = y >>= k := by
  rw [← hView, bind_map_left]

theorem map_view {α γ δ : Type} {x : m α} {y : m γ} {g : α → γ} (hView : g <$> x = y)
    (k : γ → δ) : (fun a => k (g a)) <$> x = k <$> y := by
  rw [← hView, Functor.map_map]

variable (f : AnnotationRef → m UInt16)

mutual

theorem ElementValue.toBytes_mapRefs (v : ElementValue) :
    ElementValue.toBytes <$> v.mapRefs f = writeAll f v.pieces := by
  match v with
  | .constant kind index => simp [ElementValue.mapRefs, ElementValue.pieces, ElementValue.toBytes]
  | .enumConstant type name =>
    simp [ElementValue.mapRefs, ElementValue.pieces, ElementValue.toBytes]
  | .classLiteral descriptor =>
    simp [ElementValue.mapRefs, ElementValue.pieces, ElementValue.toBytes]
  | .nested tree =>
    simpa [ElementValue.mapRefs, ElementValue.pieces, ElementValue.toBytes] using
      map_view tree.toBytes_mapRefs (UInt8.ofNat '@'.toNat :: ·)
  | .array values =>
    simpa [ElementValue.mapRefs, ElementValue.pieces, ElementValue.toBytes] using
      map_view (toBytes_mapRefsOfValues values) fun counted =>
        UInt8.ofNat '['.toNat :: (putU16 (UInt16.ofNat counted.1) ++ counted.2)

/-- The number of the values is written in front of them, so it belongs to what a walk leaves. -/
theorem toBytes_mapRefsOfValues (vs : List ElementValue) :
    (fun l => (l.length, valuesToBytes l)) <$> mapRefsOfValues f vs =
      (vs.length, ·) <$> writeAll f (valuesPieces vs) := by
  match vs with
  | [] => simp [mapRefsOfValues, valuesPieces, valuesToBytes]
  | v :: more =>
    have hMore (bytes : Bytes) := map_view (toBytes_mapRefsOfValues more) fun counted =>
      (counted.1 + 1, bytes ++ counted.2)
    have hBoth := bind_view v.toBytes_mapRefs fun bytes =>
      (fun rest => (more.length + 1, bytes ++ rest)) <$> writeAll f (valuesPieces more)
    simpa [mapRefsOfValues, valuesPieces, valuesToBytes, hMore] using hBoth

theorem AnnotationTree.toBytes_mapRefs (t : AnnotationTree) :
    AnnotationTree.toBytes <$> t.mapRefs f = writeAll f t.pieces := by
  match t with
  | .mk type elements =>
    have hElements (i : UInt16) := map_view (toBytes_mapRefsOfElements type elements)
      fun counted => putU16 i ++ (putU16 (UInt16.ofNat counted.1) ++ counted.2)
    simp [AnnotationTree.mapRefs, AnnotationTree.pieces, AnnotationTree.toBytes, hElements]

theorem toBytes_mapRefsOfElements (type : UInt16) (es : List AnnotationElement) :
    (fun l => (l.length, elementsToBytes l)) <$> mapRefsOfElements f type es =
      (es.length, ·) <$> writeAll f (elementsPieces type es) := by
  match es with
  | [] => simp [mapRefsOfElements, elementsPieces, elementsToBytes]
  | .mk name v :: more =>
    have hMore (i : UInt16) (bytes : Bytes) :=
      map_view (toBytes_mapRefsOfElements type more) fun counted =>
        (counted.1 + 1, putU16 i ++ (bytes ++ counted.2))
    have hBoth (i : UInt16) := bind_view v.toBytes_mapRefs fun bytes =>
      (fun rest => (more.length + 1, putU16 i ++ (bytes ++ rest))) <$>
        writeAll f (elementsPieces type more)
    simp [mapRefsOfElements, elementsPieces, elementsToBytes, AnnotationElement.toBytes, hMore,
      hBoth]

end

/-- A loop over rows writes the pieces of the rows. -/
theorem toBytes_mapM {α : Type} {g : α → m α} {w : α → Bytes} {ps : α → List AnnotationPiece}
    (hRow : ∀ a, w <$> g a = writeAll f (ps a)) (l : List α) :
    (fun l => (l.length, l.flatMap w)) <$> l.mapM g =
      (l.length, ·) <$> writeAll f (l.flatMap ps) := by
  induction l with
  | nil => simp
  | cons a more ih =>
    have hMore (bytes : Bytes) := map_view ih fun counted => (counted.1 + 1, bytes ++ counted.2)
    have hBoth := bind_view (hRow a) fun bytes =>
      (fun rest => (more.length + 1, bytes ++ rest)) <$> writeAll f (more.flatMap ps)
    simpa [hMore] using hBoth

theorem annotationsToBytes_mapM (list : List AnnotationTree) :
    annotationsToBytes <$> list.mapM (·.mapRefs f) = writeAll f (annotationsPieces list) := by
  have hRows := map_view (toBytes_mapM f (AnnotationTree.toBytes_mapRefs f) list) fun counted =>
    putU16 (UInt16.ofNat counted.1) ++ counted.2
  rw [Functor.map_map] at hRows
  rw [annotationsPieces, writeAll_kept]
  exact hRows

theorem TypeAnnotationTree.toBytes_mapRefs (a : TypeAnnotationTree) :
    TypeAnnotationTree.toBytes <$> a.mapRefs f = writeAll f a.pieces := by
  simpa [TypeAnnotationTree.mapRefs, TypeAnnotationTree.pieces, TypeAnnotationTree.toBytes] using
    map_view (a.tree.toBytes_mapRefs f) fun bytes =>
      a.kind.tag :: (a.info.toBytes ++ UInt8.ofNat a.path.length
        :: (a.path.flatMap TypePathStep.toBytes ++ bytes))

/-- **What a walk writes** are the pieces of the body, with an index that was asked for in the place
of each reference. -/
theorem AnnotationBody.toBytes_mapRefs (b : AnnotationBody) :
    AnnotationBody.toBytes <$> b.mapRefs f = writeAll f b.pieces := by
  cases b with
  | annotations list =>
    rw [AnnotationBody.mapRefs, Functor.map_map]
    exact annotationsToBytes_mapM f list
  | parameters lists =>
    simpa [AnnotationBody.mapRefs, AnnotationBody.pieces, AnnotationBody.toBytes] using
      map_view (toBytes_mapM f (annotationsToBytes_mapM f) lists) fun counted =>
        UInt8.ofNat counted.1 :: counted.2
  | types list =>
    simpa [AnnotationBody.mapRefs, AnnotationBody.pieces, AnnotationBody.toBytes] using
      map_view (toBytes_mapM f (TypeAnnotationTree.toBytes_mapRefs f) list) fun counted =>
        putU16 (UInt16.ofNat counted.1) ++ counted.2
  | defaultValue value =>
    rw [AnnotationBody.mapRefs, Functor.map_map]
    exact value.toBytes_mapRefs f

end Walk

-- ---------------------------------------------------------------------------
-- Keeping every index
-- ---------------------------------------------------------------------------

section Keeping

namespace AnnotationRef

variable (i j : UInt16)

@[simp] theorem index_type : (type i).index = i := rfl

@[simp] theorem index_element : (element i j).index = j := rfl

@[simp] theorem index_enumConstant : (enumConstant i j).index = j := rfl

@[simp] theorem index_classLiteral : (classLiteral i).index = i := rfl

end AnnotationRef

variable {m : Type → Type} [Monad m] [LawfulMonad m]

mutual

theorem ElementValue.mapRefs_index (v : ElementValue) :
    v.mapRefs (fun r => (pure r.index : m UInt16)) = pure v := by
  match v with
  | .constant kind index => rfl
  | .enumConstant type name => simp [ElementValue.mapRefs]
  | .classLiteral descriptor => simp [ElementValue.mapRefs]
  | .nested tree => simp [ElementValue.mapRefs, tree.mapRefs_index]
  | .array values => simp [ElementValue.mapRefs, mapRefsOfValues_index values]

theorem mapRefsOfValues_index (vs : List ElementValue) :
    mapRefsOfValues (fun r => (pure r.index : m UInt16)) vs = pure vs := by
  match vs with
  | [] => rfl
  | v :: more => simp [mapRefsOfValues, v.mapRefs_index, mapRefsOfValues_index more]

theorem AnnotationTree.mapRefs_index (t : AnnotationTree) :
    t.mapRefs (fun r => (pure r.index : m UInt16)) = pure t := by
  match t with
  | .mk type elements =>
    simp [AnnotationTree.mapRefs, mapRefsOfElements_index type elements]

theorem mapRefsOfElements_index (type : UInt16) (es : List AnnotationElement) :
    mapRefsOfElements (fun r => (pure r.index : m UInt16)) type es = pure es := by
  match es with
  | [] => rfl
  | .mk name v :: more =>
    simp [mapRefsOfElements, v.mapRefs_index, mapRefsOfElements_index type more]

end

theorem TypeAnnotationTree.mapRefs_index (a : TypeAnnotationTree) :
    a.mapRefs (fun r => (pure r.index : m UInt16)) = pure a := by
  simp [TypeAnnotationTree.mapRefs, a.tree.mapRefs_index]

/-- A walk that keeps every index keeps the body. -/
theorem AnnotationBody.mapRefs_index (b : AnnotationBody) :
    b.mapRefs (fun r => (pure r.index : m UInt16)) = pure b := by
  have hRows {α : Type} (l : List α) : l.mapM (fun a => (pure a : m α)) = pure l :=
    List.mapM_pure.trans (congrArg pure l.map_id)
  cases b <;>
    simp [AnnotationBody.mapRefs, AnnotationTree.mapRefs_index, TypeAnnotationTree.mapRefs_index,
      ElementValue.mapRefs_index, hRows]

end Keeping

end Jarsmith
