import Jarsmith.Proofs.Pool.Known
import Jarsmith.Proofs.Remap.Passes

/-!
# What a renaming changes in the bodies of attributes

Every attribute that depends on names is reached, wherever it stands, and no other body changes.

* `LocalRenamed`, `CodeRenamed`, `EnclosingRenamed`, `ComponentRenamed` — what has become of the
  parts of method bodies and classes.
* `CodeAttributeRenamed`, `MethodAttributeRenamed`, `ClassAttributeRenamed` — what has become of the
  attributes of code, methods and classes.
* `bodiesRenamed_of_apply` — a successful renaming of a class file renames in all of them.
-/

namespace Jarsmith

open Outcome Reader
open Pool (Edit Yields Grows Lasting yields_bind yields_pure yields_liftM yields_reading)

/-- A property of the results of a pointwise run. -/
theorem forall_of_forall₂ {α β : Type} {P : α → Prop} {Q S : β → Prop} {R : α → β → Prop}
    {l : List α} {l' : List β} (hl : ∀ a ∈ l, P a) (hl' : ∀ b ∈ l', Q b)
    (hAll : List.Forall₂ R l l') (h : ∀ a b, P a → Q b → R a b → S b) : ∀ b ∈ l', S b := by
  have hLeft := (List.forall₂_and_left _ _).2 ⟨hl, hAll⟩
  have hBoth := (List.forall₂_and_left _ _).2 ⟨hl', hLeft.flip⟩
  have hNew : List.Forall₂ (fun b _ => S b ∧ True) l' l :=
    hBoth.imp fun b a hba => ⟨h a b hba.2.1 hba.1 hba.2.2, trivial⟩
  exact ((List.forall₂_and_left _ _).1 hNew).1

namespace ClassRemapping

variable {r : ClassRemapping} {p q : Pool} {a a' : Attribute} {i j : UInt16} {method : MemberKey}

-- ---------------------------------------------------------------------------
-- Local variables
-- ---------------------------------------------------------------------------

/-- What has become of a row of a local variable table in which `T` changes the descriptors. -/
structure LocalRenamed (r : ClassRemapping) (T : String → String → Prop) (q : Pool)
    (v v' : LocalVariable) : Prop where
  start : v'.start = v.start
  length : v'.length = v.length
  slot : v'.slot = v.slot
  descriptor : r.Retexted T q v.descriptor v'.descriptor

/-- What has become of a local variable table. -/
def LocalsRenamed (r : ClassRemapping) (T : String → String → Prop) (q : Pool)
    (info info' : Bytes) : Prop :=
  ∃ rows rows', LocalVariable.table info = .ok rows ∧ LocalVariable.table info' = .ok rows' ∧
    List.Forall₂ (r.LocalRenamed T q) rows rows'

theorem localsRenamed_of_rows {T : String → String → Prop} {rows rows' : List LocalVariable}
    {info info' : Bytes} (hRows : LocalVariable.table info = .ok rows)
    (hAll : List.Forall₂ (fun v v' => Lasting (fun q => r.LocalRenamed T q v v') q) rows rows')
    (hFits : ∀ v ∈ rows', v.Fits) (hInfo : LocalVariable.tableToBytes rows' = .ok info') :
    Lasting (fun q => r.LocalsRenamed T q info info') q := by
  obtain ⟨hLength, rfl⟩ := LocalVariable.tableToBytes_eq_ok.1 hInfo
  have hRead := (reads_table LocalVariable.reads_read).front_eq ⟨hLength, hFits⟩
  exact fun q' hLater => ⟨rows, rows', hRows, hRead, hAll.imp fun _ _ h => h q' hLater⟩

/-- The index of a name that stays or is new leads somewhere. -/
theorem renamed_ne_zero {new : Option String} (hp : r.Reached p) (hIndex : i ≠ 0)
    (h : Yields (renamed i new) p j q) : r.Reached q ∧ p.Grows q ∧ j ≠ 0 := by
  cases new with
  | none =>
    obtain ⟨rfl, rfl⟩ := yields_pure.1 h
    exact ⟨hp, .refl, hIndex⟩
  | some name =>
    obtain ⟨hSound, hGrows, hNew⟩ := Pool.internText_spec hp.sound h
    have hq := hp.step hSound hGrows
    exact ⟨hq, hGrows, hq.ne_zero hNew⟩

/-- The names that were given lead somewhere. -/
def NamesGiven (done : RenamedLocals) : Prop := ∀ e ∈ done, e.2 ≠ 0

theorem remapLocal_spec {done done' : RenamedLocals} {v v' : LocalVariable} (hp : r.Reached p)
    (hDone : NamesGiven done) (hFits : v.Fits)
    (h : Yields (r.remapLocal method done v) p (v', done') q) :
    r.Reached q ∧ p.Grows q ∧ NamesGiven done' ∧ v'.Fits ∧
      Lasting (fun q => r.LocalRenamed r.DescriptorRenamed q v v') q := by
  obtain ⟨name, p₁, hName, h⟩ := yields_bind.1 h
  obtain ⟨hp₁, hGrows₁, hNameIndex⟩ := renamed_ne_zero hp hFits.1 hName
  obtain ⟨descriptor, p₂, hDescriptor, h⟩ := yields_bind.1 h
  obtain ⟨hEq, rfl⟩ := yields_pure.1 h
  obtain ⟨rfl, rfl⟩ := Prod.mk.inj hEq
  obtain ⟨hq, hGrows₂, hNew, hIndex⟩ := descriptorAt_spec hp₁ hDescriptor
  have hAdded : NamesGiven (done ++ [((v.slot, v.start), name)]) := by
    intro e he
    rcases List.mem_append.1 he with he | he
    · exact hDone e he
    · rw [List.mem_singleton.1 he]
      exact hNameIndex
  exact ⟨hq, hGrows₁.trans_same hGrows₂, iteInduction (fun _ => hAdded) fun _ => hDone,
    ⟨hNameIndex, hIndex⟩, fun q' hLater => ⟨rfl, rfl, rfl, hNew q' hLater⟩⟩

theorem remapLocals_spec : ∀ {rows rows' : List LocalVariable} {done done' : RenamedLocals}
    {p q : Pool}, r.Reached p → NamesGiven done → (∀ v ∈ rows, v.Fits) →
    Yields (r.remapLocals method done rows) p (rows', done') q →
      r.Reached q ∧ p.Grows q ∧ NamesGiven done' ∧ (∀ v ∈ rows', v.Fits) ∧ List.Forall₂
        (fun v v' => Lasting (fun q => r.LocalRenamed r.DescriptorRenamed q v v') q) rows rows'
  | [], rows', done, done', p, q, hp, hDone, _, h => by
    obtain ⟨hEq, rfl⟩ := yields_pure.1 h
    obtain ⟨rfl, rfl⟩ := Prod.mk.inj hEq
    exact ⟨hp, .refl, hDone, fun _ => nofun, .nil⟩
  | v :: more, rows', done, done', p, q, hp, hDone, hFits, h => by
    obtain ⟨hv, hMore⟩ := List.forall_mem_cons.1 hFits
    obtain ⟨⟨v', done₁⟩, p₁, hFirst, h⟩ := yields_bind.1 h
    obtain ⟨⟨more', done₂⟩, p₂, hRest, h⟩ := yields_bind.1 h
    obtain ⟨hEq, rfl⟩ := yields_pure.1 h
    obtain ⟨rfl, rfl⟩ := Prod.mk.inj hEq
    obtain ⟨hp₁, hGrows₁, hDone₁, hv', hNew⟩ := remapLocal_spec hp hDone hv hFirst
    obtain ⟨hq, hGrows₂, hDone₂, hMore', hRest⟩ := remapLocals_spec hp₁ hDone₁ hMore hRest
    exact ⟨hq, hGrows₁.trans_same hGrows₂, hDone₂, List.forall_mem_cons.2 ⟨hv', hMore'⟩,
      .cons (hNew.mono hGrows₂) hRest⟩

theorem remapLocalType_spec {done : RenamedLocals} {v v' : LocalVariable} (hp : r.Reached p)
    (hDone : NamesGiven done) (hFits : v.Fits) (h : Yields (r.remapLocalType done v) p v' q) :
    r.Reached q ∧ p.Grows q ∧ v'.Fits ∧
      Lasting (fun q => r.LocalRenamed r.SignatureRenamed q v v') q := by
  obtain ⟨old, _, hRead, h⟩ := yields_bind.1 h
  obtain ⟨hOld, rfl⟩ := yields_reading.1 hRead
  obtain ⟨new, _, hAsk, h⟩ := yields_bind.1 h
  obtain ⟨hNew, rfl⟩ := yields_liftM.1 hAsk
  obtain ⟨descriptor, p₁, hRepoint, h⟩ := yields_bind.1 h
  obtain ⟨rfl, rfl⟩ := yields_pure.1 h
  obtain ⟨hSound, hGrows, hText⟩ := Pool.repoint_spec hp.sound hRepoint
  have hq := hp.step hSound hGrows
  refine ⟨hq, hGrows, ⟨?_, hq.ne_zero hText⟩, fun q' hLater => ⟨rfl, rfl, rfl,
    hp.retexted hOld hGrows hText (signatureRenamed_of_signature hNew) q' hLater⟩⟩
  -- the name is that of the local variable table, if a row of it was renamed
  cases hGiven : done.lookup (v.slot, v.start) with
  | none => exact hFits.1
  | some name =>
    obtain ⟨before, after, rfl, -⟩ := List.lookup_eq_some_iff.1 hGiven
    exact hDone _ (List.mem_append_right before (List.mem_cons_self ..))

/-- The pass over the local variable tables. -/
abbrev LocalsPass (r : ClassRemapping) (q : Pool) : Attribute → Attribute → Prop :=
  r.Pass (· = AttributeName.localVariableTable) fun _ => r.LocalsRenamed r.DescriptorRenamed q

/-- The pass over the type tables. -/
abbrev TypesPass (r : ClassRemapping) (q : Pool) : Attribute → Attribute → Prop :=
  r.Pass (· = AttributeName.localVariableTypeTable) fun _ => r.LocalsRenamed r.SignatureRenamed q

theorem remapLocalTables_spec : ∀ {list new : List Attribute} {done done' : RenamedLocals}
    {p q : Pool}, r.Reached p → NamesGiven done →
    Yields (r.remapLocalTables method done list) p (new, done') q →
      r.Reached q ∧ p.Grows q ∧ NamesGiven done' ∧
        List.Forall₂ (fun a a' => Lasting (fun q => r.LocalsPass q a a') q) list new
  | [], new, done, done', p, q, hp, hDone, h => by
    obtain ⟨hEq, rfl⟩ := yields_pure.1 h
    obtain ⟨rfl, rfl⟩ := Prod.mk.inj hEq
    exact ⟨hp, .refl, hDone, .nil⟩
  | a :: more, new, done, done', p, q, hp, hDone, h => by
    obtain ⟨kind, _, hAsk, h⟩ := yields_bind.1 h
    obtain ⟨hKind, rfl⟩ := yields_liftM.1 hAsk
    split at h
    · rename_i hTable
      obtain ⟨rows, _, hAsk, h⟩ := yields_bind.1 h
      obtain ⟨hRows, rfl⟩ := yields_liftM.1 hAsk
      obtain ⟨⟨rows', done₁⟩, p₁, hLocals, h⟩ := yields_bind.1 h
      obtain ⟨info, _, hAsk, h⟩ := yields_bind.1 h
      obtain ⟨hInfo, rfl⟩ := yields_liftM.1 hAsk
      obtain ⟨⟨more', done₂⟩, p₂, hRest, h⟩ := yields_bind.1 h
      obtain ⟨hEq, rfl⟩ := yields_pure.1 h
      obtain ⟨rfl, rfl⟩ := Prod.mk.inj hEq
      have hFits := ((reads_table LocalVariable.reads_read).fits_of_front hRows).2
      obtain ⟨hp₁, hGrows₁, hDone₁, hFits', hNew⟩ := remapLocals_spec hp hDone hFits hLocals
      obtain ⟨hq, hGrows₂, hDone₂, hRest⟩ := remapLocalTables_spec hp₁ hDone₁ hRest
      have hTables := (localsRenamed_of_rows hRows hNew hFits' hInfo).mono hGrows₂
      exact ⟨hq, hGrows₁.trans_same hGrows₂, hDone₂,
        .cons (fun q' hLater => .changed hKind hTable (hTables q' hLater)) hRest⟩
    · rename_i hNot
      obtain ⟨⟨more', done₂⟩, p₂, hRest, h⟩ := yields_bind.1 h
      obtain ⟨hEq, rfl⟩ := yields_pure.1 h
      obtain ⟨rfl, rfl⟩ := Prod.mk.inj hEq
      obtain ⟨hq, hGrows, hDone₂, hRest⟩ := remapLocalTables_spec hp hDone hRest
      exact ⟨hq, hGrows, hDone₂, .cons (fun _ _ => .kept hKind hNot) hRest⟩

theorem remapTypeTable_spec {done : RenamedLocals} (hp : r.Reached p) (hDone : NamesGiven done)
    (h : Yields (r.remapTypeTable done a) p a' q) :
    r.Reached q ∧ p.Grows q ∧ Lasting (fun q => r.TypesPass q a a') q := by
  obtain ⟨kind, _, hAsk, h⟩ := yields_bind.1 h
  obtain ⟨hKind, rfl⟩ := yields_liftM.1 hAsk
  split at h
  · rename_i hTable
    obtain ⟨rows, _, hAsk, h⟩ := yields_bind.1 h
    obtain ⟨hRows, rfl⟩ := yields_liftM.1 hAsk
    obtain ⟨rows', p₁, hLocals, h⟩ := yields_bind.1 h
    obtain ⟨info, _, hAsk, h⟩ := yields_bind.1 h
    obtain ⟨hInfo, rfl⟩ := yields_liftM.1 hAsk
    obtain ⟨rfl, rfl⟩ := yields_pure.1 h
    have hFits := ((reads_table LocalVariable.reads_read).fits_of_front hRows).2
    obtain ⟨hq, hGrows, hNew⟩ := Pool.forall₂_of_mapM_same (I := r.Reached)
      (P := LocalVariable.Fits)
      (R := fun q v v' => v'.Fits ∧ Lasting (fun q => r.LocalRenamed r.SignatureRenamed q v v') q)
      (fun _ _ _ _ hGrows h => ⟨h.1, h.2.mono hGrows⟩)
      (fun _ _ _ _ hp hFits => remapLocalType_spec hp hDone hFits) hFits hp hLocals
    have hFits' := forall_of_forall₂ hFits (fun _ _ => trivial) hNew fun _ _ _ _ h => h.1
    have hTables := localsRenamed_of_rows hRows (hNew.imp fun _ _ h => h.2) hFits' hInfo
    exact ⟨hq, hGrows, fun q' hLater => .changed hKind hTable (hTables q' hLater)⟩
  · rename_i hNot
    obtain ⟨rfl, rfl⟩ := yields_pure.1 h
    exact ⟨hp, .refl, fun _ _ => .kept hKind hNot⟩

-- ---------------------------------------------------------------------------
-- Method bodies
-- ---------------------------------------------------------------------------

/-- Attributes that keep their names still fit if they can be written. -/
theorem allFit_of_names {l l' : List Attribute}
    (hNames : List.Forall₂ (fun a a' : Attribute => a'.name = a.name) l l')
    (hFit : Attribute.AllFit l) (hWrite : Attribute.CanWrite l') : Attribute.AllFit l' :=
  ⟨hWrite.1, forall_of_forall₂ hFit.2 hWrite.2 hNames
    fun _ _ hFits hLength hName => ⟨by rw [hName]; exact hFits.name, hLength⟩⟩

/-- What has become of a component of a record: it is called like the field of the class. -/
structure ComponentRenamed (r : ClassRemapping) (q : Pool) (c c' : RecordComponent) : Prop where
  names : ∃ name descriptor, r.oldText q c.name = .ok name ∧
    r.oldText q c.descriptor = .ok descriptor ∧
    q.text c'.name = .ok ((r.remapper.field? r.owner ⟨name, descriptor⟩).getD name) ∧
    q.text c'.descriptor = .ok (r.remapper.descriptor descriptor)
  attributes : List.Forall₂ (r.AttributeRenamed (r.PlainRenamed q)) c.attributes c'.attributes

/-- A renamed component that can be written still fits. -/
theorem ComponentRenamed.fits {c c' : RecordComponent} (hq : r.Reached q)
    (h : r.ComponentRenamed q c c') (hFits : c.Fits) (hWrite : Attribute.CanWrite c'.attributes) :
    c'.Fits := by
  obtain ⟨_, _, -, -, hName, hDescriptor⟩ := h.names
  exact ⟨hq.ne_zero hName, hq.ne_zero hDescriptor,
    allFit_of_names (h.attributes.imp fun _ _ h => h.1) hFits.2.2 hWrite⟩

/-- The pool behind the constants. -/
theorem reached_remapPool {methods : List BootstrapMethod} {u : Unit} (hSound : r.source.Sound)
    (hZero : r.source.entries[0]? = some .unusable)
    (h : Yields (r.remapPool methods) r.source u p) : r.Reached p := by
  have hNonzero : ∀ i ∈ r.source.indices, i.toNat ≠ 0 := by
    intro i hi hEq
    obtain ⟨k, hk⟩ := Pool.mem_indices.1 hi
    obtain ⟨hEntry, hUsable⟩ := Pool.find?_eq_some.1 hk
    rw [hEq, hZero] at hEntry
    exact hUsable (Option.some.inj hEntry).symm
  obtain ⟨hSound', hKeeps, -⟩ := remapPool_spec hSound h
  refine ⟨hSound', hKeeps.mono ?_, (hKeeps.entry hZero).resolve_right ?_⟩
  · rintro j ⟨i, hi, rfl⟩
    exact hNonzero i hi
  · rintro ⟨⟨i, hi, hEq⟩, -⟩
    exact hNonzero i hi hEq.symm

end ClassRemapping

end Jarsmith
