import Jarsmith.Proofs.Remap.Annotations
import Jarsmith.Remap.Class

/-!
# Renaming in attributes only adds names

Whatever a renaming changes in the attributes of a class, its members, code and record components,
it changes no constant that is there: the bodies are led to names that are appended.

* `addsNames_mapRefs` — the walk over an annotation adds what its references add.
* `addsNames_remapCommon`, `addsNames_remapMethodAttribute`, `addsNames_remapClassAttribute` — the
  attributes of every owner, of methods and of classes.
-/

namespace Jarsmith

open Pool (Edit AddsNames)

-- ---------------------------------------------------------------------------
-- Annotations
-- ---------------------------------------------------------------------------

/-- The walk over an annotation adds what its references add. -/
theorem AnnotationBody.addsNames_mapRefs {f : AnnotationRef → Edit UInt16}
    (hf : ∀ ref, AddsNames (f ref)) (body : AnnotationBody) : AddsNames (body.mapRefs f) := by
  intro p body' q hSound h
  obtain ⟨hSound', hGrows, -⟩ := body.mapRefs_spec (I := Pool.Sound) (R := fun _ _ _ => True)
    (fun _ _ _ _ _ _ => trivial) (fun ref p i q hSound hRun => by
      obtain ⟨hSound', hGrows⟩ := hf ref p i q hSound hRun
      exact ⟨hSound', hGrows, trivial⟩) hSound h
  exact ⟨hSound', hGrows⟩

-- ---------------------------------------------------------------------------
-- Attributes
-- ---------------------------------------------------------------------------

namespace ClassRemapping

variable (r : ClassRemapping)

theorem addsNames_descriptorAt (index : UInt16) : AddsNames (r.descriptorAt index) :=
  AddsNames.reading.bind fun _ => .repoint

theorem addsNames_renamed (index : UInt16) (new : Option String) :
    AddsNames (renamed index new) := by
  cases new with
  | none => exact .pure
  | some name => exact .internText

theorem addsNames_remapAnnotationRef (ref : AnnotationRef) :
    AddsNames (r.remapAnnotationRef ref) := by
  cases ref with
  | type index => exact r.addsNames_descriptorAt index
  | classLiteral index => exact r.addsNames_descriptorAt index
  | element type name =>
    exact AddsNames.reading.bind fun _ => AddsNames.reading.bind fun _ => addsNames_renamed _ _
  | enumConstant type name =>
    exact AddsNames.reading.bind fun _ => AddsNames.reading.bind fun _ => addsNames_renamed _ _

theorem addsNames_remapCommonAttribute (a : Attribute) : AddsNames (r.remapCommonAttribute a) := by
  refine AddsNames.liftM.bind fun kind => ?_
  split
  · exact AddsNames.liftM.bind fun _ => AddsNames.liftM.bind fun _ =>
      AddsNames.liftM.bind fun _ => AddsNames.repoint.bind fun _ => .pure
  · split
    · exact AddsNames.liftM.bind fun body =>
        (body.addsNames_mapRefs r.addsNames_remapAnnotationRef).bind fun _ => .pure
    · exact .pure

theorem addsNames_remapCommon (list : List Attribute) : AddsNames (r.remapCommon list) :=
  .mapM r.addsNames_remapCommonAttribute list

-- ---------------------------------------------------------------------------
-- Attributes of methods
-- ---------------------------------------------------------------------------

theorem addsNames_remapLocal (method : MemberKey) (done : RenamedLocals) (v : LocalVariable) :
    AddsNames (r.remapLocal method done v) :=
  (addsNames_renamed _ _).bind fun _ => (r.addsNames_descriptorAt _).bind fun _ => .pure

theorem addsNames_remapLocals (method : MemberKey) (list : List LocalVariable) :
    ∀ done, AddsNames (r.remapLocals method done list) := by
  induction list with
  | nil => exact fun _ => .pure
  | cons v more ih =>
    exact fun done => (r.addsNames_remapLocal method done v).bind fun _ =>
      (ih _).bind fun _ => .pure

theorem addsNames_remapLocalType (done : RenamedLocals) (v : LocalVariable) :
    AddsNames (r.remapLocalType done v) :=
  AddsNames.reading.bind fun _ => AddsNames.liftM.bind fun _ =>
    AddsNames.repoint.bind fun _ => .pure

theorem addsNames_remapLocalTables (method : MemberKey) (list : List Attribute) :
    ∀ done, AddsNames (r.remapLocalTables method done list) := by
  induction list with
  | nil => exact fun _ => .pure
  | cons a more ih =>
    intro done
    refine AddsNames.liftM.bind fun kind => ?_
    split
    · exact AddsNames.liftM.bind fun _ => (r.addsNames_remapLocals method _ _).bind fun _ =>
        AddsNames.liftM.bind fun _ => (ih _).bind fun _ => .pure
    · exact (ih _).bind fun _ => .pure

theorem addsNames_remapTypeTable (done : RenamedLocals) (a : Attribute) :
    AddsNames (r.remapTypeTable done a) := by
  refine AddsNames.liftM.bind fun kind => ?_
  split
  · exact AddsNames.liftM.bind fun _ => (AddsNames.mapM (r.addsNames_remapLocalType done) _).bind
      fun _ => AddsNames.liftM.bind fun _ => .pure
  · exact .pure

theorem addsNames_remapCode (method : MemberKey) (code : Code) :
    AddsNames (r.remapCode method code) :=
  (r.addsNames_remapLocalTables method _ _).bind fun _ =>
    (AddsNames.mapM (r.addsNames_remapTypeTable _) _).bind fun _ =>
      (r.addsNames_remapCommon _).bind fun _ => .pure

theorem addsNames_remapParameters (method : MemberKey) (list : List MethodParameter) :
    ∀ slots, AddsNames (r.remapParameters method list slots) := by
  induction list with
  | nil => exact fun _ => .pure
  | cons p more ih =>
    intro slots
    cases slots with
    | nil => exact .pure
    | cons slot slots =>
      have hRest : ∀ p, AddsNames (do
          let more ← r.remapParameters method more slots
          pure (p :: more)) := fun _ => (ih slots).bind fun _ => .pure
      rw [remapParameters]
      split
      · exact AddsNames.internText.bind fun _ => AddsNames.pure.bind hRest
      · exact AddsNames.pure.bind hRest

theorem addsNames_remapMethodAttribute (method : MemberKey) (isStatic : Bool) (a : Attribute) :
    AddsNames (r.remapMethodAttribute method isStatic a) := by
  refine AddsNames.liftM.bind fun kind => ?_
  split
  · exact AddsNames.liftM.bind fun _ => (r.addsNames_remapCode method _).bind fun _ =>
      AddsNames.liftM.bind fun _ => .pure
  · split
    · exact AddsNames.liftM.bind fun _ => AddsNames.liftM.bind fun _ =>
        (r.addsNames_remapParameters method _ _).bind fun _ =>
          AddsNames.liftM.bind fun _ => .pure
    · exact .pure

-- ---------------------------------------------------------------------------
-- Attributes of classes
-- ---------------------------------------------------------------------------

theorem addsNames_remapInnerClass (c : InnerClass) : AddsNames (r.remapInnerClass c) := by
  rw [remapInnerClass]
  split
  · refine AddsNames.liftM.bind fun _ => AddsNames.reading.bind fun _ => ?_
    split
    · exact .pure
    · -- both ways to find the outer class end in the same step
      extract_lets rest
      have hRest : ∀ outer, AddsNames (rest outer) := by
        intro outer
        show AddsNames (if _ then _ else _)
        split
        · exact .pure
        · exact AddsNames.repoint.bind fun _ => .pure
      split
      · exact AddsNames.reading.map.bind hRest
      · exact AddsNames.pure.bind hRest
  · exact .pure

theorem addsNames_remapEnclosing (e : EnclosingMethod) (method : UInt16) :
    AddsNames (r.remapEnclosing e method) :=
  AddsNames.liftM.bind fun _ => AddsNames.liftM.bind fun _ =>
    AddsNames.internNameAndType.bind fun _ => .pure

theorem addsNames_remapComponent (c : RecordComponent) : AddsNames (r.remapComponent c) :=
  AddsNames.reading.bind fun _ => AddsNames.reading.bind fun _ =>
    (addsNames_renamed _ _).bind fun _ => AddsNames.repoint.bind fun _ =>
      (r.addsNames_remapCommon _).bind fun _ => .pure

theorem addsNames_remapClassAttribute (a : Attribute) : AddsNames (r.remapClassAttribute a) := by
  refine AddsNames.liftM.bind fun kind => ?_
  split
  · exact AddsNames.liftM.bind fun _ => (AddsNames.mapM r.addsNames_remapInnerClass _).bind
      fun _ => AddsNames.liftM.bind fun _ => .pure
  · split
    · refine AddsNames.liftM.bind fun e => ?_
      split
      · exact (r.addsNames_remapEnclosing e _).bind fun _ => .pure
      · exact .pure
    · split
      · exact AddsNames.liftM.bind fun _ => (AddsNames.mapM r.addsNames_remapComponent _).bind
          fun _ => AddsNames.liftM.bind fun _ => .pure
      · exact .pure

end ClassRemapping

end Jarsmith
