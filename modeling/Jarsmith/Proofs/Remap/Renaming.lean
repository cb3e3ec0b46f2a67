import Jarsmith.Proofs.Remap.Attributes
import Jarsmith.Proofs.Remap.Constants

/-!
# What a renaming changes in a class

A renamed class differs from the class it was made of by the names that the remapper gives, and by
nothing else in its constants and members.

* `ConstantRenamed` — what a constant of the old pool is in the new one.
* `MemberRenamed` — what a declared member is.
* `ClassRenamed` — what a class is.
* `classRenamed_of_apply` — a successful renaming of a class file renames exactly as the remapper
  says.
-/

namespace Jarsmith

open Outcome
open Pool (Edit Yields Keeps Grows yields_bind yields_pure yields_liftM yields_reading
  yields_replaceAt yields_internText)

/-- The text at an index of a member. A class file may announce an index that its pool lacks; the
names that were appended decide what stands there. -/
def Pool.declaredText (old new : Pool) (index : UInt16) : ClassResult String :=
  if index.toNat < old.size then old.text index else new.text index

/-- What can be viewed in the new pool stood in the old one, or at an index that the old one
lacks. -/
theorem Pool.Keeps.declaredText {touched : Nat → Prop} {old new : Pool} {index : UInt16}
    {s : String} (hKeeps : Keeps touched old new) (hText : new.text index = .ok s) :
    Pool.declaredText old new index = .ok s := by
  unfold Pool.declaredText
  split
  · rename_i hIndex
    exact hKeeps.text_back hIndex hText
  · exact hText

namespace Remapper

/-- A reference to a member under the new names. -/
def memberRef (r : Remapper) (rename? : String → MemberKey → Option String) (m : Pool.MemberRef) :
    Pool.MemberRef :=
  ⟨Descriptor.renameInternal r.className m.owner,
    (rename? m.owner ⟨m.name, m.descriptor⟩).getD m.name, r.descriptor m.descriptor⟩

/-- What has become of a constant at `index` of the pool `old` in the pool `new`. -/
def ConstantRenamed (r : Remapper) (methods : List BootstrapMethod) (old new : Pool)
    (index : UInt16) : Constant → Prop
  | .classRef _ => ∃ name, old.className index = .ok name ∧
      new.className index = .ok (Descriptor.renameInternal r.className name)
  | .fieldRef owner _ => ∃ m nat, old.memberRef index = .ok m ∧
      new.find? index = some (.fieldRef owner nat) ∧
      new.memberRef index = .ok (r.memberRef r.field? m)
  | .methodRef owner _ => ∃ m nat, old.memberRef index = .ok m ∧
      new.find? index = some (.methodRef owner nat) ∧
      new.memberRef index = .ok (r.memberRef r.method? m)
  | .interfaceMethodRef owner _ => ∃ m nat, old.memberRef index = .ok m ∧
      new.find? index = some (.interfaceMethodRef owner nat) ∧
      new.memberRef index = .ok (r.memberRef r.method? m)
  | .methodType type => ∃ text type', old.text type = .ok text ∧
      new.find? index = some (.methodType type') ∧ new.text type' = .ok (r.descriptor text)
  | .dynamic bootstrap nat => ∃ name descriptor nat',
      old.nameAndType nat = .ok (name, descriptor) ∧
      new.find? index = some (.dynamic bootstrap nat') ∧
      new.nameAndType nat' = .ok (name, r.descriptor descriptor)
  | .invokeDynamic bootstrap nat => ∃ name descriptor nat' site,
      old.nameAndType nat = .ok (name, descriptor) ∧
      new.find? index = some (.invokeDynamic bootstrap nat') ∧
      new.nameAndType nat' = .ok (site, r.descriptor descriptor) ∧
      r.CallSiteNamed old methods bootstrap name descriptor site
  | c => new.find? index = some c

/-- What has become of a declared member: it has the name that `rename?` gives for its old name and
descriptor, if there is one, and the new form of its descriptor. -/
structure MemberRenamed (r : Remapper) (rename? : MemberKey → Option String) (old new : Pool)
    (m m' : Member) : Prop where
  access : m'.access = m.access
  names : ∃ name descriptor, Pool.declaredText old new m.name = .ok name ∧
    Pool.declaredText old new m.descriptor = .ok descriptor ∧
    new.text m'.name = .ok ((rename? ⟨name, descriptor⟩).getD name) ∧
    new.text m'.descriptor = .ok (r.descriptor descriptor)

/-- What has become of the class `c`, called `owner`, whose call sites are linked by `methods`. -/
structure ClassRenamed (r : Remapper) (owner : String) (methods : List BootstrapMethod)
    (c c' : ClassFile) : Prop where
  version : (c'.minor, c'.major) = (c.minor, c.major)
  access : c'.access = c.access
  thisClass : c'.thisClass = c.thisClass
  superClass : c'.superClass = c.superClass
  interfaces : c'.interfaces = c.interfaces
  /-- Every slot that could be used holds the renamed constant. -/
  constants : ∀ index k, c.pool.find? index = some k →
    r.ConstantRenamed methods c.pool c'.pool index k
  /-- A slot that could not be used cannot be used. -/
  unusable : ∀ index : UInt16, index.toNat < c.pool.size → c.pool.find? index = none →
    c'.pool.find? index = none
  /-- What was appended are texts, and names with descriptors. -/
  appended : ∀ j k, c.pool.size ≤ j → c'.pool.entries[j]? = some k →
    (∃ raw, k = .utf8 raw) ∨ ∃ name descriptor, k = .nameAndType name descriptor
  fields : List.Forall₂ (r.MemberRenamed (r.field? owner) c.pool c'.pool) c.fields c'.fields
  methods : List.Forall₂ (r.MemberRenamed (r.method? owner) c.pool c'.pool) c.methods c'.methods

end Remapper

-- ---------------------------------------------------------------------------
-- Members
-- ---------------------------------------------------------------------------

namespace ClassRemapping

variable {r : ClassRemapping} {p q : Pool}

/-- The new names of a member, all of them viewed in one pool. -/
def MemberNamed (r : ClassRemapping) (rename? : MemberKey → Option String) (q : Pool)
    (m m' : Member) : Prop :=
  m'.access = m.access ∧ ∃ name descriptor, q.text m.name = .ok name ∧
    q.text m.descriptor = .ok descriptor ∧
    q.text m'.name = .ok ((rename? ⟨name, descriptor⟩).getD name) ∧
    q.text m'.descriptor = .ok (r.remapper.descriptor descriptor)

theorem MemberNamed.mono {rename? : MemberKey → Option String} {m m' : Member}
    (hGrows : p.Grows q) (h : r.MemberNamed rename? p m m') : r.MemberNamed rename? q m m' := by
  obtain ⟨hAccess, name, descriptor, hName, hDescriptor, hName', hDescriptor'⟩ := h
  exact ⟨hAccess, name, descriptor, hGrows.text hName, hGrows.text hDescriptor,
    hGrows.text hName', hGrows.text hDescriptor'⟩

theorem renamed_spec {index i : UInt16} {old : String} {new : Option String} (hSound : p.Sound)
    (hOld : p.text index = .ok old) (h : Yields (renamed index new) p i q) :
    q.Sound ∧ p.Grows q ∧ q.text i = .ok (new.getD old) := by
  cases new with
  | none =>
    obtain ⟨rfl, rfl⟩ := Pool.yields_pure.1 h
    exact ⟨hSound, .refl, hOld⟩
  | some name => exact Pool.internText_spec hSound h

/-- The part of a member's step that fields and methods share: the names first, then what `rest`
makes of the attributes. -/
theorem memberNamed_of_steps {rename? : MemberKey → Option String} {m : Member}
    {name descriptor : String} {rest : Edit (List Attribute)} {m' : Member} (hSound : p.Sound)
    (hName : p.text m.name = .ok name) (hDescriptor : p.text m.descriptor = .ok descriptor)
    (h : Yields (do
      let newName ← renamed m.name (rename? ⟨name, descriptor⟩)
      let newDescriptor ← Pool.repoint m.descriptor (r.remapper.descriptor descriptor)
      let attributes ← rest
      pure { m with name := newName, descriptor := newDescriptor, attributes := attributes })
      p m' q) :
    ∃ p₁, p₁.Sound ∧ p.Grows p₁ ∧ r.MemberNamed rename? p₁ m m' ∧
      Yields rest p₁ m'.attributes q := by
  obtain ⟨i, p₁, hRenamed, h⟩ := Pool.yields_bind.1 h
  obtain ⟨hSound₁, hGrows₁, hName'⟩ := renamed_spec hSound hName hRenamed
  obtain ⟨j, p₂, hRepoint, h⟩ := Pool.yields_bind.1 h
  obtain ⟨hSound₂, hGrows₂, hDescriptor'⟩ := Pool.repoint_spec hSound₁ hRepoint
  obtain ⟨attributes, p₃, hAttributes, h⟩ := Pool.yields_bind.1 h
  obtain ⟨rfl, rfl⟩ := Pool.yields_pure.1 h
  have hGrows := hGrows₁.trans_same hGrows₂
  exact ⟨p₂, hSound₂, hGrows, ⟨rfl, name, descriptor, hGrows.text hName, hGrows.text hDescriptor,
    hGrows₂.text hName', hDescriptor'⟩, hAttributes⟩

theorem remapField_steps {m m' : Member} (hSound : p.Sound)
    (h : Yields (r.remapField m) p m' q) :
    ∃ p₁, p₁.Sound ∧ p.Grows p₁ ∧ r.MemberNamed (r.remapper.field? r.owner) p₁ m m' ∧
      Yields (r.remapCommon m.attributes) p₁ m'.attributes q := by
  obtain ⟨name, _, hRead, h⟩ := Pool.yields_bind.1 h
  obtain ⟨hName, rfl⟩ := Pool.yields_reading.1 hRead
  obtain ⟨descriptor, _, hRead, h⟩ := Pool.yields_bind.1 h
  obtain ⟨hDescriptor, rfl⟩ := Pool.yields_reading.1 hRead
  exact memberNamed_of_steps hSound hName hDescriptor h

theorem remapMethod_steps {m m' : Member} (hSound : p.Sound)
    (h : Yields (r.remapMethod m) p m' q) :
    ∃ key p₁, p₁.Sound ∧ p.Grows p₁ ∧ r.MemberNamed (r.remapper.method? r.owner) p₁ m m' ∧
      Yields (m.attributes.mapM (r.remapMethodAttribute key
        (m.access.has AccessFlags.staticBit)) >>= r.remapCommon) p₁ m'.attributes q := by
  obtain ⟨name, _, hRead, h⟩ := Pool.yields_bind.1 h
  obtain ⟨hName, rfl⟩ := Pool.yields_reading.1 hRead
  obtain ⟨descriptor, _, hRead, h⟩ := Pool.yields_bind.1 h
  obtain ⟨hDescriptor, rfl⟩ := Pool.yields_reading.1 hRead
  refine ⟨⟨name, descriptor⟩, memberNamed_of_steps hSound hName hDescriptor ?_⟩
  simpa only [bind_assoc] using h

theorem remapField_spec {m m' : Member} (hSound : p.Sound)
    (h : Yields (r.remapField m) p m' q) :
    q.Sound ∧ p.Grows q ∧ r.MemberNamed (r.remapper.field? r.owner) q m m' := by
  obtain ⟨p₁, hSound₁, hGrows₁, hNamed, hRest⟩ := remapField_steps hSound h
  obtain ⟨hSound₂, hGrows₂⟩ := r.addsNames_remapCommon _ _ _ _ hSound₁ hRest
  exact ⟨hSound₂, hGrows₁.trans_same hGrows₂, hNamed.mono hGrows₂⟩

theorem remapMethod_spec {m m' : Member} (hSound : p.Sound)
    (h : Yields (r.remapMethod m) p m' q) :
    q.Sound ∧ p.Grows q ∧ r.MemberNamed (r.remapper.method? r.owner) q m m' := by
  obtain ⟨key, p₁, hSound₁, hGrows₁, hNamed, hRest⟩ := remapMethod_steps hSound h
  have hAdds := (Pool.AddsNames.mapM (r.addsNames_remapMethodAttribute key
    (m.access.has AccessFlags.staticBit)) m.attributes).bind r.addsNames_remapCommon
  obtain ⟨hSound₂, hGrows₂⟩ := hAdds _ _ _ hSound₁ hRest
  exact ⟨hSound₂, hGrows₁.trans_same hGrows₂, hNamed.mono hGrows₂⟩

-- ---------------------------------------------------------------------------
-- Constants
-- ---------------------------------------------------------------------------

/-- The owner of a member stands in a slot of its own; once both slots are done, the reference is
to the renamed member. -/
theorem memberRef_of_becomes {methods : List BootstrapMethod} {index owner nat nat' : UInt16}
    {rename? : String → MemberKey → Option String} {m : Pool.MemberRef} {c c' : Constant}
    (hAll : ∀ i c, r.source.find? i = some c → r.Becomes methods q i c)
    (hc : c = .fieldRef owner nat ∨ c = .methodRef owner nat ∨ c = .interfaceMethodRef owner nat)
    (hc' : c' = .fieldRef owner nat' ∨ c' = .methodRef owner nat' ∨
      c' = .interfaceMethodRef owner nat')
    (hOld : r.source.find? index = some c) (hm : r.source.memberRef index = .ok m)
    (hNew : q.find? index = some c')
    (hNat : q.nameAndType nat' = .ok ((rename? m.owner ⟨m.name, m.descriptor⟩).getD m.name,
      r.remapper.descriptor m.descriptor)) :
    q.memberRef index = .ok (r.remapper.memberRef rename? m) := by
  obtain ⟨owner', _, hKind, -, hOwner⟩ := Pool.memberRef_eq_ok.1 hm
  have hSame : owner' = owner := by
    rw [hOld] at hKind
    rcases hc with rfl | rfl | rfl <;> simp_all
  subst hSame
  -- the slot of the owner holds the renamed class by now
  obtain ⟨name, hClass, hText⟩ := Pool.className_eq_ok.1 hOwner
  obtain ⟨old, hOldText, hNewName⟩ := hAll owner' _ hClass
  obtain rfl := Except.ok.inj (hText.symm.trans hOldText)
  refine Pool.memberRef_eq_ok.2 ⟨owner', nat', ?_, hNat, hNewName⟩
  rcases hc' with rfl | rfl | rfl
  · exact .inl hNew
  · exact .inr (.inl hNew)
  · exact .inr (.inr hNew)

theorem constantRenamed_of_becomes {methods : List BootstrapMethod} {index : UInt16}
    {c : Constant} (hAll : ∀ i c, r.source.find? i = some c → r.Becomes methods q i c)
    (hOld : r.source.find? index = some c) :
    r.remapper.ConstantRenamed methods r.source q index c := by
  have h := hAll index c hOld
  cases c with
  | classRef name =>
    obtain ⟨old, hText, hNew⟩ := h
    exact ⟨old, Pool.className_eq_ok.2 ⟨name, hOld, hText⟩, hNew⟩
  | fieldRef owner nat =>
    obtain ⟨m, nat', hm, hNew, hNat⟩ := h
    exact ⟨m, nat', hm, hNew,
      memberRef_of_becomes hAll (.inl rfl) (.inl rfl) hOld hm hNew hNat⟩
  | methodRef owner nat =>
    obtain ⟨m, nat', hm, hNew, hNat⟩ := h
    exact ⟨m, nat', hm, hNew,
      memberRef_of_becomes hAll (.inr (.inl rfl)) (.inr (.inl rfl)) hOld hm hNew hNat⟩
  | interfaceMethodRef owner nat =>
    obtain ⟨m, nat', hm, hNew, hNat⟩ := h
    exact ⟨m, nat', hm, hNew,
      memberRef_of_becomes hAll (.inr (.inr rfl)) (.inr (.inr rfl)) hOld hm hNew hNat⟩
  | _ => exact h

-- ---------------------------------------------------------------------------
-- The class
-- ---------------------------------------------------------------------------

/-- The members and attributes of a class only add names to a pool that was renamed before. -/
theorem remapRest_spec {methods : List BootstrapMethod} {c c' : ClassFile}
    (hSound : r.source.Sound) (h : Yields (r.remapRest methods c) r.source c' q) :
    ∃ p fields methods' attributes,
      Keeps (fun j => ∃ i ∈ r.source.indices, j = i.toNat) r.source p ∧ p.Grows q ∧
      (∀ i k, r.source.find? i = some k → r.Becomes methods p i k) ∧
      List.Forall₂ (r.MemberNamed (r.remapper.field? r.owner) q) c.fields fields ∧
      List.Forall₂ (r.MemberNamed (r.remapper.method? r.owner) q) c.methods methods' ∧
      c' = { c with fields := fields, methods := methods', attributes := attributes } := by
  obtain ⟨_, p, hPool, h⟩ := Pool.yields_bind.1 h
  obtain ⟨hSound₁, hKeeps, hBecomes⟩ := remapPool_spec hSound hPool
  obtain ⟨fields, p₂, hFields, h⟩ := Pool.yields_bind.1 h
  obtain ⟨hSound₂, hGrows₂, hFields⟩ := Pool.forall₂_of_mapM_same (P := fun _ => True)
    (fun _ _ _ _ hGrows hNamed => hNamed.mono hGrows)
    (fun _ _ _ _ hSound _ => remapField_spec hSound) (fun _ _ => trivial) hSound₁ hFields
  obtain ⟨methods', p₃, hMethods, h⟩ := Pool.yields_bind.1 h
  obtain ⟨hSound₃, hGrows₃, hMethods⟩ := Pool.forall₂_of_mapM_same (P := fun _ => True)
    (fun _ _ _ _ hGrows hNamed => hNamed.mono hGrows)
    (fun _ _ _ _ hSound _ => remapMethod_spec hSound) (fun _ _ => trivial) hSound₂ hMethods
  obtain ⟨_, p₄, hAttributes, h⟩ := Pool.yields_bind.1 h
  obtain ⟨hSound₄, hGrows₄⟩ :=
    Pool.AddsNames.mapM r.addsNames_remapClassAttribute _ _ _ _ hSound₃ hAttributes
  obtain ⟨attributes, p₅, hCommon, h⟩ := Pool.yields_bind.1 h
  obtain ⟨-, hGrows₅⟩ := r.addsNames_remapCommon _ _ _ _ hSound₄ hCommon
  obtain ⟨rfl, rfl⟩ := Pool.yields_pure.1 h
  have hLater := hGrows₄.trans_same hGrows₅
  exact ⟨p, fields, methods', attributes, hKeeps,
    (hGrows₂.trans_same hGrows₃).trans_same hLater, hBecomes,
    hFields.imp fun _ _ hNamed => hNamed.mono (hGrows₃.trans_same hLater),
    hMethods.imp fun _ _ hNamed => hNamed.mono hLater, rfl⟩

theorem memberRenamed_of_memberNamed {touched : Nat → Prop}
    {rename? : MemberKey → Option String} {m m' : Member} (hKeeps : Keeps touched r.source q)
    (h : r.MemberNamed rename? q m m') :
    r.remapper.MemberRenamed rename? r.source q m m' := by
  obtain ⟨hAccess, name, descriptor, hName, hDescriptor, hNew⟩ := h
  exact ⟨hAccess, name, descriptor, hKeeps.declaredText hName, hKeeps.declaredText hDescriptor,
    hNew⟩

end ClassRemapping

theorem ClassFile.edit_eq_ok {c c' : ClassFile} {f : Edit ClassFile} :
    c.edit f = .ok c' ↔ ∃ edited q, Yields f c.pool edited q ∧ c' = { edited with pool := q } := by
  unfold ClassFile.edit Pool.Yields
  split
  · rename_i edited q hRun
    rw [hRun]
    constructor
    · rintro ⟨⟩
      exact ⟨edited, q, rfl, rfl⟩
    · rintro ⟨_, _, hEq, rfl⟩
      cases hEq
      rfl
  · rename_i fault q hRun
    rw [hRun]
    constructor
    · rintro ⟨⟩
    · rintro ⟨_, _, hEq, -⟩
      cases hEq

/-- **A renaming of a class file renames exactly as the remapper says.** Every constant that refers
to a class or a member leads to the new name at its old index, every other constant stays, only
texts and names with descriptors are appended, and the declared members keep their access. -/
theorem classRenamed_of_apply {bytes : Bytes} {c c' : ClassFile} {r : Remapper}
    (hRead : ClassFile.decode bytes = .ok c) (hApply : r.apply c = .ok c') :
    ∃ owner methods, c.name = .ok owner ∧ c.bootstrapMethods = .ok methods ∧
      r.ClassRenamed owner methods c c' := by
  have hSound := ClassFile.sound_decode hRead
  obtain ⟨owner, hOwner, hApply⟩ := bind_ok_iff.1 hApply
  obtain ⟨methods, hMethods, hApply⟩ := bind_ok_iff.1 hApply
  obtain ⟨edited, q, hRun, rfl⟩ := ClassFile.edit_eq_ok.1 hApply
  obtain ⟨p, fields, methods', attributes, hPool, hGrows, hBecomes, hFields, hMembers, rfl⟩ :=
    ClassRemapping.remapRest_spec hSound hRun
  have hAll : ∀ i k, c.pool.find? i = some k →
      ClassRemapping.Becomes ⟨r, c.pool, owner⟩ methods q i k :=
    fun i k hk => (hBecomes i k hk).mono hGrows id
  have hKeeps : Keeps (fun j => ∃ i ∈ c.pool.indices, j = i.toNat) c.pool q :=
    (hPool.trans hGrows).mono fun _ h => h.elim id False.elim
  refine ⟨owner, methods, hOwner, hMethods, rfl, rfl, rfl, rfl, rfl, ?_, ?_, ?_, ?_, ?_⟩
  · exact fun index k hk =>
      ClassRemapping.constantRenamed_of_becomes (r := ⟨r, c.pool, owner⟩) hAll hk
  · -- the run visits only the slots that can be used
    intro index hIndex hNone
    refine hKeeps.find?_none hIndex hNone ?_
    rintro ⟨i, hi, hEq⟩
    obtain ⟨k, hk⟩ := Pool.mem_indices.1 hi
    rw [UInt16.toNat_inj.1 hEq, hk] at hNone
    cases hNone
  · intro j k hSize hk
    have hName := hKeeps.fresh hk hSize
    cases k with
    | utf8 raw => exact .inl ⟨raw, rfl⟩
    | nameAndType name descriptor => exact .inr ⟨name, descriptor, rfl⟩
    | _ => cases hName
  · exact hFields.imp fun _ _ hNamed => ClassRemapping.memberRenamed_of_memberNamed hKeeps hNamed
  · exact hMembers.imp fun _ _ hNamed => ClassRemapping.memberRenamed_of_memberNamed hKeeps hNamed

/-- A reference to a class gets the next slot for a new name that the pool lacks. -/
theorem ClassRemapping.remapConstant_new {r : ClassRemapping} (methods : List BootstrapMethod)
    {index text : UInt16} {name new : String} (hSound : r.source.Sound)
    (hClass : r.source.find? index = some (.classRef text)) (hName : r.source.text text = .ok name)
    (hNew : Descriptor.renameInternal r.remapper.className name = new) (hOther : new ≠ name)
    (hShort : (ModifiedUtf8.encode new).length < 65536)
    (hFresh : Constant.utf8 (ModifiedUtf8.encode new) ∉ r.source.entries.toList)
    (hRoom : r.source.size < Pool.maxSize) :
    let q := (r.source.append (.utf8 (ModifiedUtf8.encode new))).replaced index (.classRef text)
      (.classRef (UInt16.ofNat r.source.size))
    q.Sound ∧ Yields (r.remapConstant methods index) r.source () q := by
  intro q
  have hIntern := yields_internText (hSound.utf8s_eq_none hFresh) hShort hRoom
  obtain ⟨hSound₁, -, -⟩ := Pool.internText_spec hSound hIntern
  have hOld := Pool.find?_append_old (c := .utf8 (ModifiedUtf8.encode new)) hClass
  have hReplace : Yields (Pool.replaceAt index (.classRef (UInt16.ofNat r.source.size)))
      (r.source.append (.utf8 (ModifiedUtf8.encode new))) () q :=
    yields_replaceAt.2 ⟨.classRef text, hOld, by simp, rfl, rfl⟩
  refine ⟨(Pool.replaceAt_spec hSound₁ hOld rfl rfl (by simp) hReplace).1, ?_⟩
  refine yields_bind.2 ⟨.classRef text, _, yields_liftM.2 ⟨Pool.get_eq_ok.2 hClass, rfl⟩, ?_⟩
  refine yields_bind.2 ⟨name, _, yields_liftM.2 ⟨hName, rfl⟩, ?_⟩
  simp only [hNew, if_pos hOther]
  exact yields_bind.2 ⟨_, _, hIntern, hReplace⟩

/-- The bytes of a class `a` with a field `a` of type `I`; the class and the field share one text of
the pool. -/
def sharedNameBytes : Bytes :=
  [0xCA, 0xFE, 0xBA, 0xBE, 0, 0, 0, 52, 0, 4, 1, 0, 1, 97, 7, 0, 1, 1, 0, 1, 73,
    0, 0x20, 0, 2, 0, 0, 0, 0, 0, 1, 0, 2, 0, 1, 0, 3, 0, 0, 0, 0, 0, 0]

/-- What `sharedNameBytes` hold. -/
def sharedName : ClassFile :=
  ⟨0, 52, Pool.ofConstants [.utf8 [97], .classRef 1, .utf8 [73]], 0x20, 2, none, [],
    [⟨2, 1, 3, []⟩], [], []⟩

/-- Calls the class `a` `b`, and every field `f`. -/
def shortNames : Remapper :=
  ⟨fun name => if name = "a" then some "b" else none, fun _ _ => some "f", fun _ _ => none,
    fun _ _ => none, fun _ _ _ => none⟩

/-- The reference to the class `a` gets the next slot for its new name, whatever else the pool
holds. -/
theorem remapConstant_shortNames {p : Pool} (hSound : p.Sound)
    (hClass : p.find? 2 = some (.classRef 1)) (hName : p.text 1 = .ok "a")
    (hFresh : Constant.utf8 [98] ∉ p.entries.toList) (hRoom : p.size < Pool.maxSize) :
    let q := (p.append (.utf8 [98])).replaced 2 (.classRef 1) (.classRef (UInt16.ofNat p.size))
    q.Sound ∧ Yields (ClassRemapping.remapConstant ⟨shortNames, p, "a"⟩ [] 2) p () q := by
  have hNew : Descriptor.renameInternal shortNames.className "a" = "b" := rfl
  have hMoved := ClassRemapping.remapConstant_new (r := ⟨shortNames, p, "a"⟩) [] hSound hClass
    hName hNew (by decide) (by decide) hFresh hRoom
  exact hMoved

/-- The class gets a slot for each of its new names. -/
theorem sharedName_apply : ∃ c', shortNames.apply sharedName = .ok c' := by
  let p := sharedName.pool
  let p₁ := (p.append (.utf8 [98])).replaced 2 (.classRef 1) (.classRef 4)
  let p₂ := p₁.append (.utf8 [102])
  let r : ClassRemapping := ⟨shortNames, p, "a"⟩
  have hRead : ClassFile.decode sharedNameBytes = .ok sharedName := rfl
  obtain ⟨hSound₁, hSlot⟩ : p₁.Sound ∧ Yields (r.remapConstant [] 2) p () p₁ :=
    remapConstant_shortNames (ClassFile.sound_decode hRead) rfl rfl (by decide) (by decide)
  have hPool : Yields (r.remapPool []) p () p₁ := by
    have hIndices : p.indices = [1, 2, 3] := by decide
    show Yields (p.indices.forM (r.remapConstant [])) p () p₁
    rw [hIndices]
    refine yields_bind.2 ⟨(), _, yields_pure.2 ⟨rfl, rfl⟩, ?_⟩
    exact yields_bind.2 ⟨(), _, hSlot, yields_pure.2 ⟨rfl, rfl⟩⟩
  have hFieldName : Yields (Pool.internText "f") p₁ 5 p₂ :=
    yields_internText (hSound₁.utf8s_eq_none (by decide)) (by decide) (by decide)
  have hDescriptor : Yields (Pool.repoint 3 "I") p₂ 3 p₂ :=
    yields_bind.2 ⟨_, _, yields_reading.2 ⟨rfl, rfl⟩, yields_pure.2 ⟨rfl, rfl⟩⟩
  have hField : Yields (r.remapField ⟨2, 1, 3, []⟩) p₁ ⟨2, 5, 3, []⟩ p₂ := by
    refine yields_bind.2 ⟨"a", _, yields_reading.2 ⟨rfl, rfl⟩, ?_⟩
    refine yields_bind.2 ⟨"I", _, yields_reading.2 ⟨rfl, rfl⟩, ?_⟩
    refine yields_bind.2 ⟨5, _, hFieldName, yields_bind.2 ⟨3, _, hDescriptor, ?_⟩⟩
    exact yields_bind.2 ⟨[], _, yields_pure.2 ⟨rfl, rfl⟩, yields_pure.2 ⟨rfl, rfl⟩⟩
  have hRest : Yields (r.remapRest [] sharedName) p
      { sharedName with fields := [⟨2, 5, 3, []⟩] } p₂ := by
    refine yields_bind.2 ⟨(), p₁, hPool, yields_bind.2 ⟨[⟨2, 5, 3, []⟩], p₂, ?_, ?_⟩⟩
    · show Yields (List.mapM r.remapField [⟨2, 1, 3, []⟩]) p₁ _ p₂
      rw [List.mapM_cons]
      exact yields_bind.2 ⟨_, _, hField, yields_pure.2 ⟨rfl, rfl⟩⟩
    · exact yields_pure.2 ⟨rfl, rfl⟩
  exact ⟨_, bind_ok_iff.2 ⟨"a", rfl, bind_ok_iff.2 ⟨[], rfl,
    ClassFile.edit_eq_ok.2 ⟨_, p₂, hRest, rfl⟩⟩⟩⟩

theorem classRenamed_sharedName :
    ∃ c c', ClassFile.decode sharedNameBytes = .ok c ∧ shortNames.apply c = .ok c' ∧
      ∃ owner methods, c.name = .ok owner ∧ c.bootstrapMethods = .ok methods ∧
        shortNames.ClassRenamed owner methods c c' := by
  have hRead : ClassFile.decode sharedNameBytes = .ok sharedName := rfl
  obtain ⟨c', hApply⟩ := sharedName_apply
  exact ⟨sharedName, c', hRead, hApply, classRenamed_of_apply hRead hApply⟩

end Jarsmith
