import Jarsmith.Proofs.ClassFile.Bodies
import Jarsmith.Proofs.ClassFile.Descriptor
import Jarsmith.Proofs.ClassFile.SignatureNames
import Jarsmith.Proofs.Pool.Known
import Jarsmith.Proofs.Remap.Renaming

/-!
# Renaming nothing

A remapper without new names still takes every body apart and interns every pair again. Nothing
changes: what is written back is what was read, and what is interned is found where it stood.

* `Remapper.silent` — the remapper without new names.
* `remapPool_stays`, `remapField_stays`, `remapMethod_stays`, `remapClassAttribute_stays` — the
  steps of its run.
* `Remapper.toBytes_apply_silent` — a class file comes out of the run as it went in.
-/

namespace Jarsmith

open Outcome
open Pool (Edit Yields Stays yields_bind yields_pure yields_liftM yields_reading yields_replaceAt)

/-- The remapper that gives no new name. -/
def Remapper.silent : Remapper :=
  ⟨fun _ => none, fun _ _ => none, fun _ _ => none, fun _ _ => none, fun _ _ _ => none⟩

theorem Remapper.descriptor_silent (text : String) : silent.descriptor text = text :=
  Descriptor.rename_of_fixed fun _ _ => rfl

theorem Remapper.renameInternal_silent (name : String) :
    Descriptor.renameInternal silent.className name = name := by
  unfold Descriptor.renameInternal
  split
  · exact descriptor_silent name
  · rfl

-- ---------------------------------------------------------------------------
-- Annotations
-- ---------------------------------------------------------------------------

section Annotations

variable {f : AnnotationRef → Edit UInt16} {p : Pool}

mutual

theorem ElementValue.mapRefs_stays (hf : ∀ ref, Stays (f ref) p ref.index) (v : ElementValue) :
    Stays (v.mapRefs f) p v := by
  match v with
  | .constant kind index => rw [ElementValue.mapRefs]; exact .pure
  | .enumConstant type name =>
    rw [ElementValue.mapRefs]
    exact (hf (.type type)).bind ((hf (.enumConstant type name)).bind .pure)
  | .classLiteral descriptor =>
    rw [ElementValue.mapRefs]
    exact (hf (.classLiteral descriptor)).map
  | .nested tree =>
    rw [ElementValue.mapRefs]
    exact (tree.mapRefs_stays hf).bind .pure
  | .array values =>
    rw [ElementValue.mapRefs]
    exact (mapRefsOfValues_stays hf values).bind .pure

theorem mapRefsOfValues_stays (hf : ∀ ref, Stays (f ref) p ref.index) (list : List ElementValue) :
    Stays (mapRefsOfValues f list) p list := by
  match list with
  | [] => rw [mapRefsOfValues]; exact .pure
  | v :: more =>
    rw [mapRefsOfValues]
    exact (v.mapRefs_stays hf).bind ((mapRefsOfValues_stays hf more).bind .pure)

theorem AnnotationTree.mapRefs_stays (hf : ∀ ref, Stays (f ref) p ref.index)
    (t : AnnotationTree) : Stays (t.mapRefs f) p t := by
  match t with
  | .mk type elements =>
    rw [AnnotationTree.mapRefs]
    exact (hf (.type type)).bind ((mapRefsOfElements_stays hf type elements).bind .pure)

theorem mapRefsOfElements_stays (hf : ∀ ref, Stays (f ref) p ref.index) (type : UInt16)
    (list : List AnnotationElement) : Stays (mapRefsOfElements f type list) p list := by
  match list with
  | [] => rw [mapRefsOfElements]; exact .pure
  | .mk name v :: more =>
    rw [mapRefsOfElements]
    exact (hf (.element type name)).bind
      ((v.mapRefs_stays hf).bind ((mapRefsOfElements_stays hf type more).bind .pure))

end

theorem AnnotationBody.mapRefs_stays (hf : ∀ ref, Stays (f ref) p ref.index)
    (body : AnnotationBody) : Stays (body.mapRefs f) p body := by
  cases body with
  | annotations list => exact (Stays.mapM fun t _ => t.mapRefs_stays hf).map
  | parameters lists => exact (Stays.mapM fun list _ => .mapM fun t _ => t.mapRefs_stays hf).map
  | types list => exact (Stays.mapM fun a _ => (a.tree.mapRefs_stays hf).bind .pure).map
  | defaultValue v => exact (v.mapRefs_stays hf).map

end Annotations

-- ---------------------------------------------------------------------------
-- Attributes
-- ---------------------------------------------------------------------------

namespace ClassRemapping

variable {r : ClassRemapping}

section Silent

variable (hSilent : r.remapper = .silent)

include hSilent

theorem descriptorAt_stays (index : UInt16) : Stays (r.descriptorAt index) r.source index := by
  unfold descriptorAt
  rw [hSilent]
  refine .reading fun old hOld => .repoint ?_
  rw [Remapper.descriptor_silent]
  exact hOld

theorem signature_of_parse {text : String} {s : Signature} (hParse : Signature.parse text = .ok s) :
    r.signature text = .ok text := by
  have hRename : s.rename r.remapper.className = s := by
    rw [hSilent]
    exact s.rename_id
  unfold signature
  rw [hParse]
  dsimp only
  rw [hRename, Signature.toString_of_parse hParse]

theorem signature_silent {old new : String} (h : r.signature old = .ok new) : new = old := by
  cases hParse : Signature.parse old with
  | ok s =>
    rw [signature_of_parse hSilent hParse] at h
    exact (Except.ok.inj h).symm
  | error offset =>
    rw [signature, hParse] at h
    cases h

theorem remapAnnotationRef_stays (ref : AnnotationRef) :
    Stays (r.remapAnnotationRef ref) r.source ref.index := by
  cases ref with
  | type index => exact descriptorAt_stays hSilent index
  | classLiteral index => exact descriptorAt_stays hSilent index
  | element type name =>
    refine .reading fun type _ => .reading fun old _ => ?_
    rw [hSilent]
    cases classOfDescriptor? type <;> exact .pure
  | enumConstant type name =>
    refine .reading fun type _ => .reading fun old _ => ?_
    rw [hSilent]
    cases classOfDescriptor? type <;> exact .pure

theorem remapCommonAttribute_stays {a : Attribute} (hFilled : a.isFilled r.source = true) :
    Stays (r.remapCommonAttribute a) r.source a := by
  refine .asking fun kind hKind => ?_
  split
  · rename_i hSignature
    subst hSignature
    refine .asking fun index hIndex => .asking fun old hOld => .asking fun new hNew => ?_
    obtain rfl := signature_silent hSilent hNew
    have hInfo := Attribute.signature_of_isFilled hFilled hKind hIndex
    exact (Stays.repoint hOld).bind (by rw [← hInfo]; exact .pure)
  · split
    · rename_i shape hShape
      refine .asking fun body hBody => ?_
      obtain ⟨-, hInfo⟩ := Attribute.annotations_of_isFilled hFilled hKind hShape hBody
      exact (body.mapRefs_stays (remapAnnotationRef_stays hSilent)).bind
        (by rw [← hInfo]; exact .pure)
    · exact .pure

theorem remapCommon_stays {list : List Attribute}
    (hFilled : ∀ a ∈ list, a.isFilled r.source = true) :
    Stays (r.remapCommon list) r.source list :=
  .mapM fun a ha => remapCommonAttribute_stays hSilent (hFilled a ha)

-- ---------------------------------------------------------------------------
-- Method bodies
-- ---------------------------------------------------------------------------

theorem remapLocals_stays (method : MemberKey) (rows : List LocalVariable) :
    Stays (r.remapLocals method [] rows) r.source (rows, []) := by
  have hRow : ∀ v, Stays (r.remapLocal method [] v) r.source (v, []) := by
    intro v
    have hNew : (if v.start = 0 then r.remapper.parameter? r.owner method v.slot else none) =
        none := by
      rw [hSilent]
      exact ite_self none
    unfold remapLocal
    simp only [hNew, renamed]
    exact Stays.pure.bind ((descriptorAt_stays hSilent v.descriptor).bind .pure)
  induction rows with
  | nil => exact .pure
  | cons v more ih => exact (hRow v).bind (ih.bind .pure)

theorem remapLocalType_stays (v : LocalVariable) :
    Stays (r.remapLocalType [] v) r.source v := by
  refine .reading fun old hOld => .asking fun new hNew => ?_
  obtain rfl := signature_silent hSilent hNew
  exact (Stays.repoint hOld).bind .pure

theorem remapLocalTables_stays (method : MemberKey) {list : List Attribute}
    (hFilled : ∀ a ∈ list, a.isFilled r.source = true) :
    Stays (r.remapLocalTables method [] list) r.source (list, []) := by
  induction list with
  | nil => exact .pure
  | cons a more ih =>
    obtain ⟨ha, hMore⟩ := List.forall_mem_cons.1 hFilled
    refine .asking fun kind hKind => ?_
    split
    · rename_i hTable
      refine .asking fun rows hRows => (remapLocals_stays hSilent method rows).bind ?_
      refine .asking fun info hInfo => (ih hMore).bind ?_
      have hBody := Attribute.localVariables_of_isFilled ha hKind (.inl hTable) hRows
      rw [← (LocalVariable.tableToBytes_eq_ok.1 hInfo).2, ← hBody]
      exact .pure
    · exact (ih hMore).bind .pure

theorem remapTypeTable_stays {a : Attribute} (hFilled : a.isFilled r.source = true) :
    Stays (r.remapTypeTable [] a) r.source a := by
  refine .asking fun kind hKind => ?_
  split
  · rename_i hTable
    refine .asking fun rows hRows =>
      (Stays.mapM fun v _ => remapLocalType_stays hSilent v).bind (.asking fun info hInfo => ?_)
    have hBody := Attribute.localVariables_of_isFilled hFilled hKind (.inr hTable) hRows
    rw [← (LocalVariable.tableToBytes_eq_ok.1 hInfo).2, ← hBody]
    exact .pure
  · exact .pure

theorem remapCode_stays (method : MemberKey) {code : Code}
    (hFilled : ∀ a ∈ code.attributes, a.isFilled r.source = true) :
    Stays (r.remapCode method code) r.source code :=
  (remapLocalTables_stays hSilent method hFilled).bind <|
    (Stays.mapM fun a ha => remapTypeTable_stays hSilent (hFilled a ha)).bind <|
      (remapCommon_stays hSilent hFilled).bind .pure

theorem remapParameters_stays (method : MemberKey) (parameters : List MethodParameter) :
    ∀ slots, Stays (r.remapParameters method parameters slots) r.source parameters := by
  induction parameters with
  | nil => exact fun _ => .pure
  | cons p more ih =>
    intro slots
    cases slots with
    | nil => exact .pure
    | cons slot slots =>
      rw [remapParameters, hSilent]
      exact Stays.pure.bind ((ih slots).bind .pure)

theorem remapMethodAttribute_stays (method : MemberKey) (isStatic : Bool) {a : Attribute}
    (hFilled : a.isFilled r.source = true)
    (hNested : ∀ b ∈ a.nested r.source, b.isFilled r.source = true) :
    Stays (r.remapMethodAttribute method isStatic a) r.source a := by
  refine .asking fun kind hKind => ?_
  split
  · rename_i hCode
    subst hCode
    refine .asking fun code hSplit => ?_
    rw [Attribute.nested_of_code hKind hSplit] at hNested
    refine (remapCode_stays hSilent method hNested).bind (.asking fun info hInfo => ?_)
    obtain ⟨b, -, hBody, rfl⟩ := Attribute.code_of_isFilled hFilled hKind hSplit
    have hSame : info = a.info := by
      rw [hBody]
      exact (Code.toBytes_eq_ok.1 hInfo).2.symm
    rw [hSame]
    exact .pure
  · split
    · rename_i hParameters
      subst hParameters
      refine .asking fun parameters hRows => .asking fun slots _ =>
        (remapParameters_stays hSilent method parameters slots.1).bind
          (.asking fun info hInfo => ?_)
      rw [← (MethodParameter.tableToBytes_eq_ok.1 hInfo).2,
        ← Attribute.parameters_of_isFilled hFilled hKind hRows]
      exact .pure
    · exact .pure

-- ---------------------------------------------------------------------------
-- Members
-- ---------------------------------------------------------------------------

theorem remapField_stays {m : Member} (hFilled : Attribute.Filled r.source m.attributes) :
    Stays (r.remapField m) r.source m := by
  refine .reading fun name _ => .reading fun descriptor hDescriptor => ?_
  rw [hSilent, Remapper.descriptor_silent]
  exact Stays.pure.bind <| (Stays.repoint hDescriptor).bind <|
    (remapCommon_stays hSilent fun a ha => (hFilled a ha).1).bind .pure

theorem remapMethod_stays {m : Member} (hFilled : Attribute.Filled r.source m.attributes) :
    Stays (r.remapMethod m) r.source m := by
  refine .reading fun name _ => .reading fun descriptor hDescriptor => ?_
  rw [hSilent, Remapper.descriptor_silent]
  refine Stays.pure.bind ((Stays.repoint hDescriptor).bind ?_)
  refine (Stays.mapM fun a ha => ?_).bind
    ((remapCommon_stays hSilent fun a ha => (hFilled a ha).1).bind .pure)
  exact remapMethodAttribute_stays hSilent _ _ (hFilled a ha).1 (hFilled a ha).2

-- ---------------------------------------------------------------------------
-- Classes
-- ---------------------------------------------------------------------------

omit hSilent in
/-- A nested class whose name stays keeps its simple name. -/
theorem remapInnerClass_stays (c : InnerClass) : Stays (r.remapInnerClass c) r.source c := by
  unfold remapInnerClass
  split
  · refine .asking fun old hOld => .reading fun new hNew => ?_
    rw [if_pos (Except.ok.inj (hOld.symm.trans hNew))]
    exact .pure
  · exact .pure

theorem remapComponent_stays {c : RecordComponent}
    (hFilled : ∀ a ∈ c.attributes, a.isFilled r.source = true) :
    Stays (r.remapComponent c) r.source c := by
  refine .reading fun name _ => .reading fun descriptor hDescriptor => ?_
  rw [hSilent, Remapper.descriptor_silent]
  exact Stays.pure.bind <| (Stays.repoint hDescriptor).bind <|
    (remapCommon_stays hSilent hFilled).bind .pure

variable (hSound : r.source.Sound) (hKnows : r.source.Knows)
  (hDistinct : r.source.NamesDistinct) (hStandard : r.source.hasStandardPairs = true)

include hSound hKnows hDistinct hStandard

theorem remapEnclosing_stays {e : EnclosingMethod} {method : UInt16}
    (hMethod : e.method = some method) : Stays (r.remapEnclosing e method) r.source e := by
  refine .asking fun owner _ => .asking fun (name, descriptor) hPair => ?_
  dsimp only
  rw [hSilent, Remapper.descriptor_silent]
  refine (Stays.of_yields
    (Pool.yields_internNameAndType_known hSound hKnows hDistinct hStandard hPair)).bind ?_
  rw [← hMethod]
  exact .pure

theorem remapClassAttribute_stays {a : Attribute} (hFilled : a.isFilled r.source = true)
    (hNested : ∀ b ∈ a.nested r.source, b.isFilled r.source = true) :
    Stays (r.remapClassAttribute a) r.source a := by
  refine .asking fun kind hKind => ?_
  split
  · rename_i hInner
    subst hInner
    refine .asking fun rows hRows =>
      (Stays.mapM fun c _ => remapInnerClass_stays c).bind (.asking fun info hInfo => ?_)
    rw [← (InnerClass.tableToBytes_eq_ok.1 hInfo).2,
      ← Attribute.innerClasses_of_isFilled hFilled hKind hRows]
    exact .pure
  split
  · rename_i hEnclosing
    subst hEnclosing
    refine .asking fun e hBody => ?_
    split
    · rename_i method hMethod
      refine (remapEnclosing_stays hSilent hSound hKnows hDistinct hStandard hMethod).bind ?_
      rw [← Attribute.enclosingMethod_of_isFilled hFilled hKind hBody]
      exact .pure
    · exact .pure
  split
  · rename_i hRecord
    subst hRecord
    refine .asking fun components hComponents => ?_
    rw [Attribute.nested_of_record hKind hComponents] at hNested
    refine (Stays.mapM fun c hc => remapComponent_stays hSilent fun b hb =>
      hNested b (List.mem_flatMap.2 ⟨c, hc, hb⟩)).bind (.asking fun info hInfo => ?_)
    rw [← (RecordComponent.tableToBytes_eq_ok.1 hInfo).2,
      ← Attribute.record_of_isFilled hFilled hKind hComponents]
    exact .pure
  · exact .pure

-- ---------------------------------------------------------------------------
-- Constants
-- ---------------------------------------------------------------------------

theorem memberNameAndType_stays {rename? : String → MemberKey → Option String}
    (hRename : ∀ owner key, rename? owner key = none) {index owner nat : UInt16}
    (hFind : r.source.find? index = some (.fieldRef owner nat) ∨
      r.source.find? index = some (.methodRef owner nat) ∨
      r.source.find? index = some (.interfaceMethodRef owner nat)) :
    Stays (r.memberNameAndType rename? index) r.source nat := by
  refine .asking fun m hm => ?_
  rw [hSilent, Remapper.descriptor_silent, hRename]
  obtain ⟨owner', nat', hFind', hPair, -⟩ := Pool.memberRef_eq_ok.1 hm
  obtain rfl : nat' = nat := by
    obtain h | h | h := hFind <;> simp_all
  exact .of_yields (Pool.yields_internNameAndType_known hSound hKnows hDistinct hStandard hPair)

omit hSound hKnows hDistinct hStandard in
/-- A call site is called like a method that the remapper knows, so it keeps its name. -/
theorem callSiteName_silent {methods : List BootstrapMethod} {bootstrap : UInt16}
    {name descriptor : String} {new : Option String}
    (h : r.callSiteName methods bootstrap ⟨name, descriptor⟩ = .ok new) : new.getD name = name := by
  have hSite := callSiteName_spec h
  rw [hSilent] at hSite
  by_cases hLambda : ∃ interface implemented,
      r.source.LambdaMethod methods bootstrap descriptor interface implemented
  · obtain ⟨_, _, hLambda⟩ := hLambda
    exact hSite.lambda _ _ hLambda
  · exact hSite.other fun interface implemented h => hLambda ⟨interface, implemented, h⟩

theorem remapConstant_stays (methods : List BootstrapMethod) {index : UInt16} {c : Constant}
    (hFind : r.source.find? index = some c) :
    Stays (r.remapConstant methods index) r.source () := by
  have hPair {name descriptor : String} {nat : UInt16}
      (h : r.source.nameAndType nat = .ok (name, descriptor)) :
      Stays (Pool.internNameAndType name (r.remapper.descriptor descriptor)) r.source nat := by
    rw [hSilent, Remapper.descriptor_silent]
    exact .of_yields (Pool.yields_internNameAndType_known hSound hKnows hDistinct hStandard h)
  refine .asking fun c' hGet => ?_
  rw [Pool.get_eq_ok, hFind] at hGet
  cases hGet
  cases c with
  | classRef name =>
    refine .asking fun old _ => ?_
    dsimp only
    rw [hSilent, Remapper.renameInternal_silent, if_neg (not_not.2 rfl)]
    exact .pure
  | fieldRef owner nat =>
    refine (memberNameAndType_stays hSilent hSound hKnows hDistinct hStandard ?_ (.inl hFind)).bind
      (.replaceAt hFind rfl nofun)
    rw [hSilent]
    exact fun _ _ => rfl
  | methodRef owner nat =>
    refine (memberNameAndType_stays hSilent hSound hKnows hDistinct hStandard ?_
      (.inr (.inl hFind))).bind (.replaceAt hFind rfl nofun)
    rw [hSilent]
    exact fun _ _ => rfl
  | interfaceMethodRef owner nat =>
    refine (memberNameAndType_stays hSilent hSound hKnows hDistinct hStandard ?_
      (.inr (.inr hFind))).bind (.replaceAt hFind rfl nofun)
    rw [hSilent]
    exact fun _ _ => rfl
  | methodType descriptor =>
    refine .asking fun old hOld => ?_
    rw [hSilent, Remapper.descriptor_silent]
    exact (Stays.repoint hOld).bind (.replaceAt hFind rfl nofun)
  | methodHandle kind reference =>
    refine .asking fun target _ => ?_
    split
    · exact .throw
    · exact .pure
  | invokeDynamic bootstrap nat =>
    refine .asking fun (name, descriptor) hNat => .asking fun new hNew => ?_
    rw [callSiteName_silent hSilent hNew]
    exact (hPair hNat).bind (.replaceAt hFind rfl nofun)
  | dynamic bootstrap nat =>
    refine .asking fun (name, descriptor) hNat => ?_
    exact (hPair hNat).bind (.replaceAt hFind rfl nofun)
  | _ => exact .pure

theorem remapPool_stays (methods : List BootstrapMethod) :
    Stays (r.remapPool methods) r.source () :=
  .forM fun _ hIndex =>
    let ⟨_, hFind⟩ := Pool.mem_indices.1 hIndex
    remapConstant_stays hSilent hSound hKnows hDistinct hStandard methods hFind

theorem remapRest_stays (methods : List BootstrapMethod) {c : ClassFile}
    (hPool : c.pool = r.source) (hFilled : c.BodiesFilled) :
    Stays (r.remapRest methods c) r.source c := by
  have hAttributes := hFilled.attributes
  have hFields := fun m hm => remapField_stays hSilent (hPool ▸ hFilled.field (m := m) hm)
  have hMethods := fun m hm => remapMethod_stays hSilent (hPool ▸ hFilled.method (m := m) hm)
  rw [hPool] at hAttributes
  refine (remapPool_stays hSilent hSound hKnows hDistinct hStandard methods).bind ?_
  refine (Stays.mapM hFields).bind ((Stays.mapM hMethods).bind ?_)
  refine (Stays.mapM fun a ha => remapClassAttribute_stays hSilent hSound hKnows hDistinct hStandard
    (hAttributes a ha).1 (hAttributes a ha).2).bind ?_
  exact (remapCommon_stays hSilent fun a ha => (hAttributes a ha).1).bind .pure

end Silent

end ClassRemapping

namespace Remapper

variable {bytes : Bytes} {c c' : ClassFile}

/-- A class file whose names are distinct and written in standard form keeps everything. -/
theorem eq_of_apply_silent (hRead : ClassFile.decode bytes = .ok c)
    (hDistinct : c.pool.NamesDistinct) (hStandard : c.pool.hasStandardPairs = true)
    (hFilled : c.BodiesFilled) (hApply : silent.apply c = .ok c') : c' = c := by
  obtain ⟨owner, -, hApply⟩ := bind_ok_iff.1 hApply
  obtain ⟨methods, -, hApply⟩ := bind_ok_iff.1 hApply
  obtain ⟨edited, q, hRun, rfl⟩ := ClassFile.edit_eq_ok.1 hApply
  obtain ⟨rfl, rfl⟩ := ClassRemapping.remapRest_stays (r := ⟨silent, c.pool, owner⟩) rfl
    (ClassFile.sound_decode hRead) (ClassFile.knows_decode hRead) hDistinct hStandard methods rfl
    hFilled _ _ hRun
  rfl

/-- **A renaming that renames nothing is the identity on bytes**, for a class file without equal
texts and equal pairs, whose pairs are of texts in standard form and whose bodies hold nothing
behind their tables. -/
theorem toBytes_apply_silent (hParse : ClassFile.parse bytes = .ok c)
    (hInside : ClassFile.EndsInside bytes c.pool) (hDistinct : c.pool.NamesDistinct)
    (hStandard : c.pool.hasStandardPairs = true) (hFilled : c.BodiesFilled)
    (hApply : silent.apply c = .ok c') : c'.toBytes = .ok bytes := by
  rw [eq_of_apply_silent (ClassFile.decode_of_parse hParse) hDistinct hStandard hFilled hApply]
  exact (ClassFile.toBytes_parse hParse hInside).1

end Remapper

/-- The bytes of a class `a` whose signature is `La;`. It refers to a field of its own of the type
`a`; `name` are the bytes of the field's name. -/
def fieldUserBytes (name : Bytes) : Bytes :=
  [0xCA, 0xFE, 0xBA, 0xBE, 0, 0, 0, 52, 0, 8, 1, 0, 1, 97, 7, 0, 1,
    1, 0, UInt8.ofNat name.length] ++ name ++ [1, 0, 3, 76, 97, 59, 12, 0, 3, 0, 4, 9, 0, 2, 0, 5,
    1, 0, 9, 83, 105, 103, 110, 97, 116, 117, 114, 101,
    0, 0x20, 0, 2, 0, 0, 0, 0, 0, 0, 0, 0, 0, 1, 0, 7, 0, 0, 0, 2, 0, 4]

/-- What `fieldUserBytes` hold. -/
def fieldUser (name : Bytes) : ClassFile :=
  ⟨0, 52, Pool.ofConstants [.utf8 [97], .classRef 1, .utf8 name, .utf8 [76, 97, 59],
      .nameAndType 3 4, .fieldRef 2 5, .utf8 [83, 105, 103, 110, 97, 116, 117, 114, 101]],
    0x20, 2, none, [], [], [], [⟨7, [0, 4]⟩]⟩

/-- Only the reference to the field may change the pool. -/
theorem fieldUser_apply {name : Bytes} {q : Pool}
    (hRef : Yields (ClassRemapping.remapConstant ⟨.silent, (fieldUser name).pool, "a"⟩ [] 6)
      (fieldUser name).pool () q) (hText : q.text 4 = .ok "La;") :
    Remapper.silent.apply (fieldUser name) = .ok { fieldUser name with pool := q } := by
  let p := (fieldUser name).pool
  let r : ClassRemapping := ⟨.silent, p, "a"⟩
  have hPool : Yields (r.remapPool []) p () q := by
    show Yields ([1, 2, 3, 4, 5, 6, 7].forM (r.remapConstant [])) p () q
    refine yields_bind.2 ⟨(), p, rfl, yields_bind.2 ⟨(), p, rfl, ?_⟩⟩
    refine yields_bind.2 ⟨(), p, rfl, yields_bind.2 ⟨(), p, rfl, ?_⟩⟩
    exact yields_bind.2 ⟨(), p, rfl, yields_bind.2 ⟨(), q, hRef, rfl⟩⟩
  have hSignature : r.signature "La;" = .ok "La;" := by
    have hParse : Signature.parse "La;" = .ok ⟨none, .types [.classType "a" []]⟩ := rfl
    exact ClassRemapping.signature_of_parse rfl hParse
  have hCommon : Yields (r.remapCommon [⟨7, [0, 4]⟩]) q [⟨7, [0, 4]⟩] q := by
    refine yields_bind.2 ⟨⟨7, [0, 4]⟩, q, ?_, yields_pure.2 ⟨rfl, rfl⟩⟩
    refine yields_bind.2 ⟨AttributeName.signature, q, yields_liftM.2 ⟨rfl, rfl⟩, ?_⟩
    refine yields_bind.2 ⟨4, q, yields_liftM.2 ⟨rfl, rfl⟩, ?_⟩
    refine yields_bind.2 ⟨"La;", q, yields_liftM.2 ⟨rfl, rfl⟩, ?_⟩
    refine yields_bind.2 ⟨"La;", q, yields_liftM.2 ⟨hSignature, rfl⟩, ?_⟩
    refine yields_bind.2 ⟨4, q, ?_, yields_pure.2 ⟨rfl, rfl⟩⟩
    exact yields_bind.2 ⟨"La;", q, yields_reading.2 ⟨hText, rfl⟩, yields_pure.2 ⟨rfl, rfl⟩⟩
  refine bind_ok_iff.2 ⟨"a", rfl, bind_ok_iff.2 ⟨[], rfl,
    ClassFile.edit_eq_ok.2 ⟨fieldUser name, q, ?_, rfl⟩⟩⟩
  refine yields_bind.2 ⟨(), q, hPool, yields_bind.2 ⟨[], q, rfl, yields_bind.2 ⟨[], q, rfl, ?_⟩⟩⟩
  exact yields_bind.2 ⟨[⟨7, [0, 4]⟩], q, rfl, yields_bind.2 ⟨_, q, hCommon, rfl⟩⟩

/-- A field called `f` is found where it stands. -/
theorem Remapper.toBytes_apply_silent_fieldUser :
    ∃ c c', ClassFile.parse (fieldUserBytes [102]) = .ok c ∧ silent.apply c = .ok c' ∧
      c'.toBytes = .ok (fieldUserBytes [102]) := by
  have hParse : ClassFile.parse (fieldUserBytes [102]) = .ok (fieldUser [102]) := rfl
  have hRead := ClassFile.decode_of_parse hParse
  have hDistinct : (fieldUser [102]).pool.NamesDistinct := by decide
  have hStandard : (fieldUser [102]).pool.hasStandardPairs = true := by decide
  have hRef : Yields
      (ClassRemapping.remapConstant ⟨.silent, (fieldUser [102]).pool, "a"⟩ [] 6)
      (fieldUser [102]).pool () (fieldUser [102]).pool := by
    refine yields_bind.2 ⟨.fieldRef 2 5, _, rfl, yields_bind.2 ⟨5, (fieldUser [102]).pool, ?_, ?_⟩⟩
    · refine yields_bind.2 ⟨⟨"a", "f", "La;"⟩, _, rfl, ?_⟩
      exact Pool.yields_internNameAndType_known (ClassFile.sound_decode hRead)
        (ClassFile.knows_decode hRead) hDistinct hStandard rfl
    · exact yields_replaceAt.2 ⟨.fieldRef 2 5, rfl, nofun, rfl, Pool.replaced_self rfl rfl nofun⟩
  have hApply := fieldUser_apply hRef rfl
  exact ⟨_, _, hParse, hApply,
    toBytes_apply_silent hParse (by decide) hDistinct hStandard (by decide) hApply⟩

/-- A text of one character may be written in two bytes, and is not found again in this form: a
field called `1` in that way gets another name and another pair. -/
theorem Remapper.toBytes_apply_silent_ne :
    ∃ c c', ClassFile.parse (fieldUserBytes [0xC0, 0xB1]) = .ok c ∧
      ClassFile.EndsInside (fieldUserBytes [0xC0, 0xB1]) c.pool ∧ c.pool.NamesDistinct ∧
      c.BodiesFilled ∧ silent.apply c = .ok c' ∧
      c'.toBytes ≠ .ok (fieldUserBytes [0xC0, 0xB1]) := by
  let p := (fieldUser [0xC0, 0xB1]).pool
  let p₁ := p.append (.utf8 [49])
  let p₂ := p₁.append (.nameAndType 8 4)
  let q := p₂.replaced 6 (.fieldRef 2 5) (.fieldRef 2 9)
  have hParse : ClassFile.parse (fieldUserBytes [0xC0, 0xB1]) = .ok (fieldUser [0xC0, 0xB1]) := rfl
  have hRead := ClassFile.decode_of_parse hParse
  have hSound : p.Sound := ClassFile.sound_decode hRead
  have hKnows : p₁.Knows := Pool.knows_append (ClassFile.knows_decode hRead)
  have hName : Yields (Pool.internText "1") p 8 p₁ :=
    Pool.yields_internText (hSound.utf8s_eq_none (by decide)) (by decide) (by decide)
  obtain ⟨hSound₁, -, -⟩ := Pool.internText_spec hSound hName
  have hDescriptor : Yields (Pool.internText "La;") p₁ 4 p₁ :=
    Pool.yields_internText_known hSound₁ hKnows (by decide) rfl
  have hNew : p₁.nameAndTypes[((8 : UInt16), (4 : UInt16))]? = none :=
    hSound₁.nameAndTypes_eq_none (by decide)
  have hPair : Yields (Pool.internNameAndType "1" "La;") p 9 p₂ := by
    refine yields_bind.2 ⟨8, p₁, hName, yields_bind.2 ⟨4, p₁, hDescriptor, ?_⟩⟩
    refine yields_bind.2 ⟨p₁, p₁, rfl, ?_⟩
    rw [hNew]
    exact Pool.yields_add.2 ⟨by decide, rfl, rfl⟩
  have hRef : Yields
      (ClassRemapping.remapConstant ⟨.silent, (fieldUser [0xC0, 0xB1]).pool, "a"⟩ [] 6)
      (fieldUser [0xC0, 0xB1]).pool () q := by
    refine yields_bind.2 ⟨.fieldRef 2 5, _, rfl, yields_bind.2 ⟨9, p₂, ?_, ?_⟩⟩
    · exact yields_bind.2 ⟨⟨"a", "1", "La;"⟩, _, rfl, hPair⟩
    · exact yields_replaceAt.2 ⟨.fieldRef 2 5, rfl, nofun, rfl, rfl⟩
  exact ⟨_, _, hParse, by decide, by decide, by decide, fieldUser_apply hRef rfl, by decide⟩

end Jarsmith
