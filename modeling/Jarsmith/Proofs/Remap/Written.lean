import Jarsmith.Proofs.Pool.Again
import Jarsmith.Proofs.Remap.Bodies

/-!
# Renamed classes that are read again

A renamed class has the slots and the tables of the class it was made of, whatever stands behind the
views of the bodies of its attributes. What is read of its written form is the renamed class.

* `Named` — an attribute keeps its name, which is a text.
* `BodyKept` — what becomes of the body of a method.
* `ClassKept` — what becomes of the tables of a class.
* `ClassFile.eq_of_parse_apply` — a renamed class that is written and read again.
-/

namespace Jarsmith

open Outcome Reader
open Pool (Edit Yields Grows Keeps Lasting yields_bind yields_pure yields_liftM yields_reading)

/-- The pieces of a body that was written. -/
theorem Code.eq_of_split_written {b : CodeBody} {code : Code} (hFits : b.Fits)
    (hSplit : split b.written = .ok code) : code = ⟨b.head, b.attributes⟩ := by
  have hSelf : CodeBody.read b.written = some (b, []) :=
    CodeBody.reads_read.eq_some.2 ⟨hFits, (List.append_nil _).symm⟩
  have hOnly : ∀ b' rest, CodeBody.read b.written = some (b', rest) → b' = b ∧ rest = [] :=
    fun _ _ hRead => Prod.mk.inj (Option.some.inj (hRead.symm.trans hSelf))
  obtain ⟨b', hFits', hEq, rfl⟩ := split_eq_ok (fun b' rest h => (hOnly b' rest h).2) hSplit
  obtain ⟨rfl, -⟩ := hOnly b' []
    (CodeBody.reads_read.eq_some.2 ⟨hFits', hEq.trans (List.append_nil _).symm⟩)
  rfl

namespace ClassRemapping

variable {r : ClassRemapping} {p q : Pool} {a b a' : Attribute} {method : MemberKey}

-- ---------------------------------------------------------------------------
-- Attributes
-- ---------------------------------------------------------------------------

/-- An attribute keeps its name, which is a text. -/
def Named (r : ClassRemapping) (a a' : Attribute) : Prop :=
  a'.name = a.name ∧ ∃ kind, r.source.storedText a.name = .ok kind

theorem Named.trans (h : r.Named a b) (h' : r.Named b a') : r.Named a a' :=
  ⟨h'.1.trans h.1, h.2⟩

theorem Pass.named {kinds : String → Prop} {body : String → Bytes → Bytes → Prop}
    (h : r.Pass kinds body a a') : r.Named a a' :=
  ⟨h.1, h.2.imp fun _ hKind => hKind.1⟩

/-- The pass over signatures and annotations, whatever stands behind their views. -/
abbrev AnyCommonPass (r : ClassRemapping) : Attribute → Attribute → Prop :=
  r.Pass IsCommon fun _ _ _ => True

theorem anyCommonPass_of_remap (h : Yields (r.remapCommonAttribute a) p a' q) :
    r.AnyCommonPass a a' := by
  obtain ⟨kind, _, hAsk, h⟩ := yields_bind.1 h
  obtain ⟨hKind, rfl⟩ := yields_liftM.1 hAsk
  split at h
  · rename_i hSignature
    obtain ⟨_, _, -, h⟩ := yields_bind.1 h
    obtain ⟨_, _, -, h⟩ := yields_bind.1 h
    obtain ⟨_, _, -, h⟩ := yields_bind.1 h
    obtain ⟨_, _, -, h⟩ := yields_bind.1 h
    obtain ⟨rfl, -⟩ := yields_pure.1 h
    exact .changed hKind (.inl hSignature) trivial
  · rename_i hNot
    split at h
    · rename_i shape hShape
      obtain ⟨_, _, -, h⟩ := yields_bind.1 h
      obtain ⟨_, _, -, h⟩ := yields_bind.1 h
      obtain ⟨rfl, -⟩ := yields_pure.1 h
      exact .changed hKind (.inr (by rw [hShape]; rfl)) trivial
    · rename_i hShape
      obtain ⟨rfl, -⟩ := yields_pure.1 h
      refine .kept hKind fun hCommon => hCommon.elim hNot fun hSome => ?_
      rw [hShape] at hSome
      cases hSome

/-- The pass over signatures and annotations behind what other passes have done. -/
theorem remapCommon_behind_any {R : Attribute → Attribute → Prop} {old list new : List Attribute}
    (hp : r.Reached p) (hList : List.Forall₂ R old list) (h : Yields (r.remapCommon list) p new q) :
    r.Reached q ∧ p.Grows q ∧
      List.Forall₂ (fun a c => ∃ b, R a b ∧ r.AnyCommonPass b c) old new := by
  refine Pool.forall₂_of_mapM (I := r.Reached) (P := fun _ => R)
    (R := fun _ a c => ∃ b, R a b ∧ r.AnyCommonPass b c)
    (fun _ _ _ _ _ h => h) (fun _ _ _ _ _ h => h) ?_ hList hp h
  intro a b p c q hp hab hRun
  obtain ⟨hq, hGrows⟩ := hp.addsNames (r.addsNames_remapCommonAttribute b) hRun
  exact ⟨hq, hGrows, b, hab, anyCommonPass_of_remap hRun⟩

-- ---------------------------------------------------------------------------
-- Method bodies
-- ---------------------------------------------------------------------------

theorem remapCode_named {code code' : Code} (hp : r.Reached p)
    (h : Yields (r.remapCode method code) p code' q) :
    code'.head = code.head ∧ List.Forall₂ r.Named code.attributes code'.attributes := by
  obtain ⟨⟨list₁, done⟩, p₁, hTables, h⟩ := yields_bind.1 h
  obtain ⟨list₂, p₂, hTypeTables, h⟩ := yields_bind.1 h
  obtain ⟨list₃, p₃, hCommon, h⟩ := yields_bind.1 h
  obtain ⟨rfl, rfl⟩ := yields_pure.1 h
  obtain ⟨hp₁, -, hDone, hFirst⟩ := remapLocalTables_spec hp (by simp [NamesGiven]) hTables
  obtain ⟨hp₂, -, hSecond⟩ := Pool.forall₂_of_mapM (I := r.Reached) (P := fun _ => r.Named)
    (R := fun _ => r.Named) (fun _ _ _ _ _ h => h) (fun _ _ _ _ _ h => h)
    (fun a b p c q hp hab hRun => by
      obtain ⟨hq, hGrows, hPass⟩ := remapTypeTable_spec hp hDone hRun
      exact ⟨hq, hGrows, hab.trans hPass.now.named⟩)
    (hFirst.imp fun _ _ h => h.now.named) hp₁ hTypeTables
  obtain ⟨-, -, hThird⟩ := remapCommon_behind_any hp₂ hSecond hCommon
  refine ⟨rfl, hThird.imp ?_⟩
  rintro a c ⟨b, hab, hbc⟩
  exact hab.trans hbc.named

/-- What has become of the body of a method: the pieces of the new one stand behind each other, and
the nested attributes keep their names. -/
def BodyKept (r : ClassRemapping) (info info' : Bytes) : Prop :=
  ∃ code code' : Code, Code.split info = .ok code ∧ code'.toBytes = .ok info' ∧
    code'.head = code.head ∧ List.Forall₂ r.Named code.attributes code'.attributes

/-- The nested attributes of a body behind which nothing stood are read again. -/
theorem BodyKept.forall₂_nested {info info' : Bytes} {code' : Code} (h : r.BodyKept info info')
    (hFills : CodeBody.read.fills info = true) (hSplit : Code.split info' = .ok code') :
    ∃ code, Code.split info = .ok code ∧
      List.Forall₂ r.Named code.attributes code'.attributes := by
  obtain ⟨code, new, hOld, hBytes, hHead, hNamed⟩ := h
  obtain ⟨b, hFits, rfl, rfl⟩ := Code.split_eq_ok (fills_iff.1 hFills) hOld
  obtain ⟨hWrite, rfl⟩ := Code.toBytes_eq_ok.1 hBytes
  have hAll := allFit_of_names (hNamed.imp fun _ _ h => h.1) hFits.attributes hWrite
  have hNew : ({ b with attributes := new.attributes } : CodeBody).Fits :=
    ⟨hFits.bytecode, hFits.exceptions, hAll⟩
  rw [hHead] at hSplit
  obtain rfl := Code.eq_of_split_written hNew hSplit
  exact ⟨_, hOld, hNamed⟩

theorem remapMethodAttribute_pass {isStatic : Bool} (hp : r.Reached p)
    (h : Yields (r.remapMethodAttribute method isStatic a) p a' q) :
    r.Pass (fun kind => kind = AttributeName.code ∨ kind = AttributeName.methodParameters)
      (fun kind info info' => kind = AttributeName.code → r.BodyKept info info') a a' := by
  obtain ⟨kind, _, hAsk, h⟩ := yields_bind.1 h
  obtain ⟨hKind, rfl⟩ := yields_liftM.1 hAsk
  split at h
  · rename_i hCode
    obtain ⟨code, _, hAsk, h⟩ := yields_bind.1 h
    obtain ⟨hSplit, rfl⟩ := yields_liftM.1 hAsk
    obtain ⟨code', p₁, hRun, h⟩ := yields_bind.1 h
    obtain ⟨info, _, hAsk, h⟩ := yields_bind.1 h
    obtain ⟨hInfo, rfl⟩ := yields_liftM.1 hAsk
    obtain ⟨rfl, rfl⟩ := yields_pure.1 h
    obtain ⟨hHead, hNamed⟩ := remapCode_named hp hRun
    exact .changed hKind (.inl hCode) fun _ => ⟨code, code', hSplit, hInfo, hHead, hNamed⟩
  · rename_i hCode
    split at h
    · rename_i hParameters
      obtain ⟨_, _, -, h⟩ := yields_bind.1 h
      obtain ⟨_, _, -, h⟩ := yields_bind.1 h
      obtain ⟨_, _, -, h⟩ := yields_bind.1 h
      obtain ⟨_, _, -, h⟩ := yields_bind.1 h
      obtain ⟨rfl, -⟩ := yields_pure.1 h
      exact .changed hKind (.inr hParameters) fun hIsCode => absurd hIsCode hCode
    · rename_i hParameters
      obtain ⟨rfl, -⟩ := yields_pure.1 h
      exact .kept hKind (by simp [hCode, hParameters])

/-- An attribute of a method keeps its name, which is a text. -/
def MethodAttributeKept (r : ClassRemapping) (a a' : Attribute) : Prop :=
  a'.name = a.name ∧ ∃ kind, r.source.storedText a.name = .ok kind ∧
    (kind = AttributeName.code → r.BodyKept a.info a'.info)

-- ---------------------------------------------------------------------------
-- Members
-- ---------------------------------------------------------------------------

/-- What has become of a member whose attributes become what `R` says. -/
structure MemberKept (r : ClassRemapping) (R : Attribute → Attribute → Prop) (q : Pool)
    (m m' : Member) : Prop where
  name : ∃ s, q.text m'.name = .ok s
  descriptor : ∃ s, q.text m'.descriptor = .ok s
  attributes : List.Forall₂ R m.attributes m'.attributes

theorem MemberKept.mono {R : Attribute → Attribute → Prop} {m m' : Member} (hGrows : p.Grows q)
    (h : r.MemberKept R p m m') : r.MemberKept R q m m' where
  name := h.name.imp fun _ => hGrows.text
  descriptor := h.descriptor.imp fun _ => hGrows.text
  attributes := h.attributes

theorem memberKept_of_named {R : Attribute → Attribute → Prop}
    {rename? : MemberKey → Option String} {m m' : Member} (h : r.MemberNamed rename? q m m')
    (hAttributes : List.Forall₂ R m.attributes m'.attributes) : r.MemberKept R q m m' := by
  obtain ⟨-, _, _, -, -, hName, hDescriptor⟩ := h
  exact ⟨⟨_, hName⟩, ⟨_, hDescriptor⟩, hAttributes⟩

theorem remapField_kept {m m' : Member} (hp : r.Reached p) (h : Yields (r.remapField m) p m' q) :
    r.Reached q ∧ p.Grows q ∧ r.MemberKept r.Named q m m' := by
  obtain ⟨p₁, hSound₁, hGrows₁, hNamed, hCommon⟩ := remapField_steps hp.sound h
  obtain ⟨hq, hGrows₂, hAll⟩ := remapCommon_behind_any (R := Eq) (hp.step hSound₁ hGrows₁)
    (List.forall₂_same.2 fun _ _ => rfl) hCommon
  refine ⟨hq, hGrows₁.trans_same hGrows₂, memberKept_of_named (hNamed.mono hGrows₂) ?_⟩
  refine hAll.imp ?_
  rintro a c ⟨_, rfl, hPass⟩
  exact hPass.named

theorem remapMethod_kept {m m' : Member} (hp : r.Reached p)
    (h : Yields (r.remapMethod m) p m' q) :
    r.Reached q ∧ p.Grows q ∧ r.MemberKept r.MethodAttributeKept q m m' := by
  have hKinds : ∀ kind, kind = AttributeName.code ∨ kind = AttributeName.methodParameters →
      ¬ IsCommon kind := by
    rintro _ (rfl | rfl) <;> decide
  obtain ⟨key, p₁, hSound₁, hGrows₁, hNamed, h⟩ := remapMethod_steps hp.sound h
  obtain ⟨list, p₂, hOwn, hCommon⟩ := yields_bind.1 h
  obtain ⟨hp₂, hGrows₂, hFirst⟩ := Pool.forall₂_of_mapM_same (I := r.Reached)
    (P := fun _ => True) (R := fun _ => r.Pass _ _) (fun _ _ _ _ _ h => h)
    (fun a p b q hp _ hRun => by
      obtain ⟨hq, hGrows⟩ := hp.addsNames (r.addsNames_remapMethodAttribute key _ a) hRun
      exact ⟨hq, hGrows, remapMethodAttribute_pass hp hRun⟩)
    (fun _ _ => trivial) (hp.step hSound₁ hGrows₁) hOwn
  obtain ⟨hq, hGrows₃, hAll⟩ := remapCommon_behind_any hp₂ hFirst hCommon
  have hLater := hGrows₂.trans_same hGrows₃
  refine ⟨hq, hGrows₁.trans_same hLater, memberKept_of_named (hNamed.mono hLater) ?_⟩
  refine hAll.imp ?_
  rintro a c ⟨b, hab, hbc⟩
  obtain ⟨hName, kind, hKind, hBody, -⟩ := hab.trans hbc hKinds
  exact ⟨hName, kind, hKind, fun hCode => (hBody (.inl (.inl hCode))).1 (.inl hCode) hCode⟩

-- ---------------------------------------------------------------------------
-- Classes
-- ---------------------------------------------------------------------------

theorem name_of_remapClassAttribute (h : Yields (r.remapClassAttribute a) p a' q) :
    a'.name = a.name := by
  obtain ⟨kind, _, -, h⟩ := yields_bind.1 h
  split at h
  · obtain ⟨_, _, -, h⟩ := yields_bind.1 h
    obtain ⟨_, _, -, h⟩ := yields_bind.1 h
    obtain ⟨_, _, -, h⟩ := yields_bind.1 h
    obtain ⟨rfl, -⟩ := yields_pure.1 h
    rfl
  split at h
  · obtain ⟨_, _, -, h⟩ := yields_bind.1 h
    split at h
    · obtain ⟨_, _, -, h⟩ := yields_bind.1 h
      obtain ⟨rfl, -⟩ := yields_pure.1 h
      rfl
    · obtain ⟨rfl, -⟩ := yields_pure.1 h
      rfl
  split at h
  · obtain ⟨_, _, -, h⟩ := yields_bind.1 h
    obtain ⟨_, _, -, h⟩ := yields_bind.1 h
    obtain ⟨_, _, -, h⟩ := yields_bind.1 h
    obtain ⟨rfl, -⟩ := yields_pure.1 h
    rfl
  · obtain ⟨rfl, -⟩ := yields_pure.1 h
    rfl

/-- What has become of the tables of a class. -/
structure ClassKept (r : ClassRemapping) (q : Pool) (c c' : ClassFile) : Prop where
  start : c'.thisClass = c.thisClass ∧ c'.superClass = c.superClass ∧ c'.interfaces = c.interfaces
  fields : List.Forall₂ (r.MemberKept r.Named q) c.fields c'.fields
  methods : List.Forall₂ (r.MemberKept r.MethodAttributeKept q) c.methods c'.methods
  attributes : List.Forall₂ (fun a a' : Attribute => a'.name = a.name) c.attributes c'.attributes

theorem remapRest_kept {methods : List BootstrapMethod} {c c' : ClassFile}
    (hSound : r.source.Sound) (hZero : r.source.entries[0]? = some .unusable)
    (h : Yields (r.remapRest methods c) r.source c' q) : r.Reached q ∧ r.ClassKept q c c' := by
  obtain ⟨_, p, hPool, h⟩ := yields_bind.1 h
  obtain ⟨fields, p₁, hFields, h⟩ := yields_bind.1 h
  obtain ⟨methods', p₂, hMethods, h⟩ := yields_bind.1 h
  obtain ⟨mid, p₃, hAttributes, h⟩ := yields_bind.1 h
  obtain ⟨attributes, p₄, hCommon, h⟩ := yields_bind.1 h
  obtain ⟨rfl, rfl⟩ := yields_pure.1 h
  obtain ⟨hp₁, -, hFields⟩ := Pool.forall₂_of_mapM_same (P := fun _ => True)
    (fun _ _ _ _ hGrows h => h.mono hGrows) (fun _ _ _ _ hp _ => remapField_kept hp)
    (fun _ _ => trivial) (reached_remapPool hSound hZero hPool) hFields
  obtain ⟨hp₂, hGrows₂, hMethods⟩ := Pool.forall₂_of_mapM_same (P := fun _ => True)
    (fun _ _ _ _ hGrows h => h.mono hGrows) (fun _ _ _ _ hp _ => remapMethod_kept hp)
    (fun _ _ => trivial) hp₁ hMethods
  obtain ⟨hp₃, hGrows₃, hOwn⟩ := Pool.forall₂_of_mapM_same (I := r.Reached)
    (P := fun _ => True) (R := fun _ (a b : Attribute) => b.name = a.name) (fun _ _ _ _ _ h => h)
    (fun a p b q hp _ hRun => by
      obtain ⟨hq, hGrows⟩ := hp.addsNames (r.addsNames_remapClassAttribute a) hRun
      exact ⟨hq, hGrows, name_of_remapClassAttribute hRun⟩) (fun _ _ => trivial) hp₂ hAttributes
  obtain ⟨hq, hGrows₄, hAll⟩ := remapCommon_behind_any hp₃ hOwn hCommon
  have hLater := hGrows₃.trans_same hGrows₄
  refine ⟨hq, ⟨rfl, rfl, rfl⟩, hFields.imp fun _ _ h => h.mono (hGrows₂.trans_same hLater),
    hMethods.imp fun _ _ h => h.mono hLater, hAll.imp ?_⟩
  rintro a c ⟨b, hab, hbc⟩
  exact hbc.1.trans hab

-- ---------------------------------------------------------------------------
-- The layout of the pool
-- ---------------------------------------------------------------------------

/-- A renamed constant has the width that it had. -/
theorem Becomes.isWide {methods : List BootstrapMethod} {i : UInt16} {k : Constant}
    (h : r.Becomes methods q i k) (hUsable : k ≠ .unusable) :
    ∃ d, q.find? i = some d ∧ d.isWide = k.isWide := by
  cases k with
  | classRef name =>
    obtain ⟨_, -, hName⟩ := h
    obtain ⟨name', hFind, -⟩ := Pool.className_eq_ok.1 hName
    exact ⟨_, hFind, rfl⟩
  | fieldRef owner nat | methodRef owner nat | interfaceMethodRef owner nat =>
    obtain ⟨_, _, -, hFind, -⟩ := h
    exact ⟨_, hFind, rfl⟩
  | methodType type =>
    obtain ⟨_, _, -, hFind, -⟩ := h
    exact ⟨_, hFind, rfl⟩
  | dynamic bootstrap nat =>
    obtain ⟨_, _, _, -, hFind, -⟩ := h
    exact ⟨_, hFind, rfl⟩
  | invokeDynamic bootstrap nat =>
    obtain ⟨_, _, _, _, -, hFind, -⟩ := h
    exact ⟨_, hFind, rfl⟩
  | unusable => exact absurd rfl hUsable
  | _ => exact ⟨_, h, rfl⟩

theorem laid_remapRest {methods : List BootstrapMethod} {c c' : ClassFile} {written : Bytes}
    (hSound : r.source.Sound) (hLaid : r.source.Laid)
    (h : Yields (r.remapRest methods c) r.source c' q) (hWritten : q.toBytes = .ok written) :
    q.Laid := by
  obtain ⟨p, _, _, _, hPool, hGrows, hBecomes, -⟩ := remapRest_spec hSound h
  obtain ⟨hReached, -⟩ := remapRest_kept hSound hLaid.slotZero h
  have hKeeps : Keeps (fun j => ∃ i ∈ r.source.indices, j = i.toNat) r.source q :=
    (hPool.trans hGrows).mono fun _ h => h.elim id False.elim
  refine hKeeps.laid hLaid ?_ fun _ _ hk => Pool.textFits_of_toBytes hReached.zero hWritten hk
  rintro _ ⟨i, hi, rfl⟩
  obtain ⟨k, hk⟩ := Pool.mem_indices.1 hi
  obtain ⟨hEntry, hUsable⟩ := Pool.find?_eq_some.1 hk
  obtain ⟨d, hd, hWide⟩ := ((hBecomes i k hk).mono hGrows id).isWide hUsable
  obtain ⟨hEntry', hUsable'⟩ := Pool.find?_eq_some.1 hd
  exact ⟨k, d, hEntry, hEntry', hUsable, hUsable', hWide⟩

/-- The members that were made of members that fit do, if they can be written. -/
theorem fits_of_memberKept {R : Attribute → Attribute → Prop} {list list' : List Member}
    (hq : r.Reached q) (hR : ∀ a a', R a a' → a'.name = a.name)
    (hKept : List.Forall₂ (r.MemberKept R q) list list') (hFits : ∀ m ∈ list, m.Fits)
    (hWrite : ∀ m ∈ list', Attribute.CanWrite m.attributes) : ∀ m ∈ list', m.Fits :=
  forall_of_forall₂ hFits hWrite hKept fun _ _ hFits hWrite h =>
    { name := h.name.elim fun _ => hq.ne_zero
      descriptor := h.descriptor.elim fun _ => hq.ne_zero
      attributes := allFit_of_names (h.attributes.imp hR) hFits.attributes hWrite }

end ClassRemapping

/-- Members that were written can be. -/
theorem Member.canWrite_of_listToBytes {what : String} {l : List Member} {bytes : Bytes}
    (h : listToBytes what l = .ok bytes) :
    l.length < 65536 ∧ ∀ m ∈ l, Attribute.CanWrite m.attributes := by
  obtain ⟨_, hCount, h⟩ := bind_ok_iff.1 h
  obtain ⟨_, hMembers, -⟩ := bind_ok_iff.1 h
  refine ⟨(count16_eq_ok.1 hCount).1, fun m hm => ?_⟩
  obtain ⟨_, hBytes⟩ := exists_of_mapM_ok hMembers m hm
  exact (Member.toBytes_eq_ok.1 hBytes).1

namespace ClassFile

variable {c c' d : ClassFile} {r : Remapper} {bytes written : Bytes}

/-- What a renaming runs. -/
theorem remapRest_of_apply (hApply : r.apply c = .ok c') :
    ∃ owner methods edited, c.name = .ok owner ∧
      Yields (ClassRemapping.remapRest ⟨r, c.pool, owner⟩ methods c) c.pool edited c'.pool ∧
        c' = { edited with pool := c'.pool } := by
  obtain ⟨owner, hOwner, hApply⟩ := bind_ok_iff.1 hApply
  obtain ⟨methods, -, hApply⟩ := bind_ok_iff.1 hApply
  obtain ⟨edited, q, hRun, rfl⟩ := edit_eq_ok.1 hApply
  exact ⟨owner, methods, edited, hOwner, hRun, rfl⟩

/-- What becomes of the tables of a class file. -/
theorem kept_of_apply (hParse : parse bytes = .ok c) (hApply : r.apply c = .ok c') :
    ∃ owner, ClassRemapping.Reached ⟨r, c.pool, owner⟩ c'.pool ∧
      ClassRemapping.ClassKept ⟨r, c.pool, owner⟩ c'.pool c c' := by
  obtain ⟨owner, methods, edited, -, hRun, hEq⟩ := remapRest_of_apply hApply
  have hDecode := decode_of_parse hParse
  obtain ⟨hReached, hKept⟩ := ClassRemapping.remapRest_kept (r := ⟨r, c.pool, owner⟩)
    (sound_decode hDecode) (slotZero_decode hDecode) hRun
  refine ⟨owner, hReached, ?_⟩
  rw [hEq]
  exact ⟨hKept.start, hKept.fields, hKept.methods, hKept.attributes⟩

/-- A renamed class that can be written has tables that fit and a pool that is laid out as class
files have it. -/
theorem fits_of_apply (hParse : parse bytes = .ok c) (hApply : r.apply c = .ok c')
    (hWritten : c'.toBytes = .ok written) : c'.Fits ∧ c'.pool.Laid := by
  obtain ⟨owner, hReached, ⟨hThis, hSuper, hInterfaces⟩, hFields, hMethods, hAttributes⟩ :=
    kept_of_apply hParse hApply
  have hFits := fits_parse hParse
  simp only [toBytes, bind_ok_iff] at hWritten
  obtain ⟨pool, hPool, _, -, fields, hFieldBytes, methods, hMethodBytes, attributes,
    hAttributeBytes, -⟩ := hWritten
  obtain ⟨hFieldCount, hFieldWrite⟩ := Member.canWrite_of_listToBytes hFieldBytes
  obtain ⟨hMethodCount, hMethodWrite⟩ := Member.canWrite_of_listToBytes hMethodBytes
  have hAttributeWrite := (Attribute.listToBytes_eq_ok.1 hAttributeBytes).1
  constructor
  · exact {
      interfaces := hInterfaces ▸ hFits.interfaces
      fields := ⟨hFieldCount, ClassRemapping.fits_of_memberKept hReached (fun _ _ h => h.1)
        hFields hFits.fields.2 hFieldWrite⟩
      methods := ⟨hMethodCount, ClassRemapping.fits_of_memberKept hReached (fun _ _ h => h.1)
        hMethods hFits.methods.2 hMethodWrite⟩
      attributes := ClassRemapping.allFit_of_names hAttributes hFits.attributes hAttributeWrite
      thisClass := hThis ▸ hFits.thisClass
      superClass := hSuper ▸ hFits.superClass
      interfaceIndices := hInterfaces ▸ hFits.interfaceIndices }
  · obtain ⟨owner, methods, edited, -, hRun, -⟩ := remapRest_of_apply hApply
    exact ClassRemapping.laid_remapRest (r := ⟨r, c.pool, owner⟩)
      (sound_decode (decode_of_parse hParse)) (laid_parse hParse) hRun hPool

/-- **A renamed class that is written and read again** has the slots and the tables of the renamed
class. -/
theorem eq_of_parse_apply (hParse : parse bytes = .ok c) (hApply : r.apply c = .ok c')
    (hWritten : c'.toBytes = .ok written) (hAgain : parse written = .ok d) :
    d.pool.entries = c'.pool.entries ∧ d = { c' with pool := d.pool } := by
  obtain ⟨hFits, hLaid⟩ := fits_of_apply hParse hApply hWritten
  obtain ⟨pool, hPool, -⟩ := bind_ok_iff.1 hWritten
  obtain rfl := Except.ok.inj (hWritten.symm.trans (hFits.toBytes hPool))
  have hRead := decode_eq_ok.1 (decode_of_parse hAgain)
  obtain ⟨-, mid, hBytes, hSlots⟩ := read_eq_some.1 hRead
  -- the version stands in front of the pool
  simp only [List.append_assoc] at hBytes
  obtain ⟨-, hBytes⟩ := putU16_inj (List.append_cancel_left hBytes)
  obtain ⟨-, rfl⟩ := putU16_inj hBytes
  obtain ⟨hEntries, hBehind⟩ := hLaid.entries_of_read hPool hSlots
  have hSame : ({ c' with pool := d.pool } : ClassFile).Fits :=
    ⟨⟨hFits.interfaces, hFits.fields, hFits.methods, hFits.attributes⟩, hFits.thisClass,
      hFits.superClass, hFits.interfaceIndices⟩
  have hOther := read_eq_some.2 ⟨hSame, pool ++ c'.behindPool, rfl, by
    rw [hSlots, hBehind]
    exact congrArg (fun rest => some (d.pool, rest)) (List.append_nil _).symm⟩
  simp only [List.append_assoc] at hRead
  exact ⟨hEntries, (Prod.mk.inj (Option.some.inj (hRead.symm.trans hOther))).1⟩

end ClassFile

end Jarsmith
