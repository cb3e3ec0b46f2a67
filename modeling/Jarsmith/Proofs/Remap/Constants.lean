import Jarsmith.Proofs.Pool.Edit
import Jarsmith.Remap.Class

/-!
# Renaming in the constants of a class

Every constant that refers to a class or a member is led to the new name, and every other constant
stays at its index. A step changes one slot and appends names, so a slot that is done stays done.

* `LambdaMethod` — the interface method that the object of a call site implements.
* `Becomes` — what the step for a constant leaves in its slot.
* `remapPool_spec` — a successful run over the pool renames every constant.
-/

namespace Jarsmith

open Outcome
open Pool (Edit Yields Keeps)

/-- The call sites linked by a bootstrap method make lambda objects: it leads to the class of
lambda factories, and its first argument is the type of the method that the objects implement. A
call site with the given descriptor makes objects of an interface class. -/
def Pool.LambdaMethod (pool : Pool) (methods : List BootstrapMethod) (bootstrap : UInt16)
    (descriptor interface implemented : String) : Prop :=
  ∃ method kind reference factory first type,
    methods[bootstrap.toNat]? = some method ∧
    pool.find? method.handle = some (.methodHandle kind reference) ∧
    pool.memberRef reference = .ok factory ∧ factory.owner = ClassRemapping.lambdaFactory ∧
    method.arguments.head? = some first ∧ pool.find? first = some (.methodType type) ∧
    pool.text type = .ok implemented ∧ Descriptor.returnClass? descriptor = some interface

/-- A call site makes objects of one interface and for one method at most. -/
theorem Pool.LambdaMethod.unique {pool : Pool} {methods : List BootstrapMethod}
    {bootstrap : UInt16} {descriptor i₁ i₂ t₁ t₂ : String}
    (h₁ : pool.LambdaMethod methods bootstrap descriptor i₁ t₁)
    (h₂ : pool.LambdaMethod methods bootstrap descriptor i₂ t₂) : i₁ = i₂ ∧ t₁ = t₂ := by
  obtain ⟨m, _, _, _, first, type, hm, -, -, -, hFirst, hType, hText, hReturn⟩ := h₁
  obtain ⟨m', _, _, _, first', type', hm', -, -, -, hFirst', hType', hText', hReturn'⟩ := h₂
  obtain rfl : m = m' := Option.some.inj (hm.symm.trans hm')
  obtain rfl : first = first' := Option.some.inj (hFirst.symm.trans hFirst')
  obtain rfl : type = type' := Constant.methodType.inj (Option.some.inj (hType.symm.trans hType'))
  exact ⟨Option.some.inj (hReturn.symm.trans hReturn'), Except.ok.inj (hText.symm.trans hText')⟩

namespace Remapper

/-- A call site that makes lambda objects is called like the method they implement; any other call
site keeps its name. -/
structure CallSiteNamed (r : Remapper) (pool : Pool) (methods : List BootstrapMethod)
    (bootstrap : UInt16) (name descriptor new : String) : Prop where
  lambda : ∀ interface implemented,
    pool.LambdaMethod methods bootstrap descriptor interface implemented →
      new = (r.method? interface ⟨name, implemented⟩).getD name
  other : (∀ interface implemented,
    ¬ pool.LambdaMethod methods bootstrap descriptor interface implemented) → new = name

namespace CallSiteNamed

variable {r : Remapper} {pool : Pool} {methods : List BootstrapMethod} {bootstrap : UInt16}
  {name descriptor interface implemented : String}

theorem of_lambda (h : pool.LambdaMethod methods bootstrap descriptor interface implemented) :
    r.CallSiteNamed pool methods bootstrap name descriptor
      ((r.method? interface ⟨name, implemented⟩).getD name) where
  lambda _ _ h' := by
    obtain ⟨rfl, rfl⟩ := h.unique h'
    rfl
  other hNone := absurd h (hNone _ _)

theorem of_other
    (h : ∀ interface implemented,
      ¬ pool.LambdaMethod methods bootstrap descriptor interface implemented) :
    r.CallSiteNamed pool methods bootstrap name descriptor name where
  lambda _ _ h' := absurd h' (h _ _)
  other _ := rfl

end CallSiteNamed

end Remapper

namespace ClassRemapping

variable {r : ClassRemapping} {methods : List BootstrapMethod} {p q : Pool} {index : UInt16}

theorem callSiteName_spec {bootstrap : UInt16} {name descriptor : String} {new : Option String}
    (h : r.callSiteName methods bootstrap ⟨name, descriptor⟩ = .ok new) :
    r.remapper.CallSiteNamed r.source methods bootstrap name descriptor (new.getD name) := by
  unfold callSiteName at h
  split at h
  · rename_i method hMethod
    obtain ⟨c, hHandle, h⟩ := bind_ok_iff.1 h
    split at h
    · rename_i kind reference
      rw [Pool.get_eq_ok] at hHandle
      obtain ⟨factory, hFactory, h⟩ := bind_ok_iff.1 h
      -- what is left of the description once the factory is known
      have hRest : ∀ {i t}, r.source.LambdaMethod methods bootstrap descriptor i t →
          factory.owner = lambdaFactory ∧ ∃ first type, method.arguments.head? = some first ∧
            r.source.find? first = some (.methodType type) ∧ r.source.text type = .ok t ∧
              Descriptor.returnClass? descriptor = some i := by
        rintro i t ⟨m, k, ref, f, first, type, hm, hk, hf, hOwner, hRest⟩
        cases Option.some.inj (hMethod.symm.trans hm)
        cases Option.some.inj (hHandle.symm.trans hk)
        cases Except.ok.inj (hFactory.symm.trans hf)
        exact ⟨hOwner, first, type, hRest⟩
      split at h
      · rename_i hOwner
        cases h
        exact .of_other fun _ _ hl => hOwner (hRest hl).1
      rename_i hOwner
      rw [Decidable.not_not] at hOwner
      split at h
      · rename_i first hFirst
        obtain ⟨argument, hArgument, h⟩ := bind_ok_iff.1 h
        rw [Pool.get_eq_ok] at hArgument
        split at h
        · rename_i type
          obtain ⟨implemented, hImplemented, h⟩ := bind_ok_iff.1 h
          split at h
          · rename_i interface hReturn
            cases h
            exact .of_lambda ⟨method, kind, reference, factory, first, type, hMethod, hHandle,
              hFactory, hOwner, hFirst, hArgument, hImplemented, hReturn⟩
          · rename_i hReturn
            cases h
            refine .of_other fun _ _ hl => ?_
            obtain ⟨-, _, _, -, -, -, hSome⟩ := hRest hl
            rw [hReturn] at hSome
            cases hSome
        · rename_i hType
          cases h
          refine .of_other fun _ _ hl => ?_
          obtain ⟨-, first', type, hFirst', hSome, -⟩ := hRest hl
          cases Option.some.inj (hFirst.symm.trans hFirst')
          exact hType type (Option.some.inj (hArgument.symm.trans hSome))
      · rename_i hFirst
        cases h
        refine .of_other fun _ _ hl => ?_
        obtain ⟨-, first, _, hSome, -⟩ := hRest hl
        exact hFirst first hSome
    · simp at h
  · simp at h

-- ---------------------------------------------------------------------------
-- One constant
-- ---------------------------------------------------------------------------

/-- What the step for the constant `c` at `index` leaves there, but for the owner of a member, which
stands in a slot of its own. -/
def Becomes (r : ClassRemapping) (methods : List BootstrapMethod) (q : Pool) (index : UInt16) :
    Constant → Prop
  | .classRef name => ∃ old, r.source.text name = .ok old ∧
      q.className index = .ok (Descriptor.renameInternal r.remapper.className old)
  | .fieldRef owner _ => ∃ m nat, r.source.memberRef index = .ok m ∧
      q.find? index = some (.fieldRef owner nat) ∧
      q.nameAndType nat = .ok ((r.remapper.field? m.owner ⟨m.name, m.descriptor⟩).getD m.name,
        r.remapper.descriptor m.descriptor)
  | .methodRef owner _ => ∃ m nat, r.source.memberRef index = .ok m ∧
      q.find? index = some (.methodRef owner nat) ∧
      q.nameAndType nat = .ok ((r.remapper.method? m.owner ⟨m.name, m.descriptor⟩).getD m.name,
        r.remapper.descriptor m.descriptor)
  | .interfaceMethodRef owner _ => ∃ m nat, r.source.memberRef index = .ok m ∧
      q.find? index = some (.interfaceMethodRef owner nat) ∧
      q.nameAndType nat = .ok ((r.remapper.method? m.owner ⟨m.name, m.descriptor⟩).getD m.name,
        r.remapper.descriptor m.descriptor)
  | .methodType type => ∃ old new, r.source.text type = .ok old ∧
      q.find? index = some (.methodType new) ∧ q.text new = .ok (r.remapper.descriptor old)
  | .dynamic bootstrap nat => ∃ name descriptor new,
      r.source.nameAndType nat = .ok (name, descriptor) ∧
      q.find? index = some (.dynamic bootstrap new) ∧
      q.nameAndType new = .ok (name, r.remapper.descriptor descriptor)
  | .invokeDynamic bootstrap nat => ∃ name descriptor new site,
      r.source.nameAndType nat = .ok (name, descriptor) ∧
      q.find? index = some (.invokeDynamic bootstrap new) ∧
      q.nameAndType new = .ok (site, r.remapper.descriptor descriptor) ∧
      r.remapper.CallSiteNamed r.source methods bootstrap name descriptor site
  | c => q.find? index = some c

/-- What a step leaves, no step for another slot takes away. -/
theorem Becomes.mono {touched : Nat → Prop} {c : Constant} (h : r.Becomes methods p index c)
    (hKeeps : Keeps touched p q) (hIndex : ¬ touched index.toNat) :
    r.Becomes methods q index c := by
  cases c with
  | classRef name =>
    obtain ⟨old, hOld, hNew⟩ := h
    obtain ⟨n, hFind, hText⟩ := Pool.className_eq_ok.1 hNew
    exact ⟨old, hOld, Pool.className_eq_ok.2
      ⟨n, hKeeps.find?_untouched hFind hIndex, hKeeps.text hText⟩⟩
  | fieldRef owner nat =>
    obtain ⟨m, n, hm, hFind, hNat⟩ := h
    exact ⟨m, n, hm, hKeeps.find?_untouched hFind hIndex, hKeeps.nameAndType hNat⟩
  | methodRef owner nat =>
    obtain ⟨m, n, hm, hFind, hNat⟩ := h
    exact ⟨m, n, hm, hKeeps.find?_untouched hFind hIndex, hKeeps.nameAndType hNat⟩
  | interfaceMethodRef owner nat =>
    obtain ⟨m, n, hm, hFind, hNat⟩ := h
    exact ⟨m, n, hm, hKeeps.find?_untouched hFind hIndex, hKeeps.nameAndType hNat⟩
  | methodType type =>
    obtain ⟨old, new, hOld, hFind, hText⟩ := h
    exact ⟨old, new, hOld, hKeeps.find?_untouched hFind hIndex, hKeeps.text hText⟩
  | dynamic bootstrap nat =>
    obtain ⟨name, descriptor, new, hOld, hFind, hNat⟩ := h
    exact ⟨name, descriptor, new, hOld, hKeeps.find?_untouched hFind hIndex,
      hKeeps.nameAndType hNat⟩
  | invokeDynamic bootstrap nat =>
    obtain ⟨name, descriptor, new, site, hOld, hFind, hNat, hSite⟩ := h
    exact ⟨name, descriptor, new, site, hOld, hKeeps.find?_untouched hFind hIndex,
      hKeeps.nameAndType hNat, hSite⟩
  | _ => exact hKeeps.find?_untouched h hIndex

/-- A step that interned names and then replaced a constant that is no name. -/
theorem replaceAt_of_grows {c d : Constant} {p₁ : Pool} {u : Unit} (hSound : p₁.Sound)
    (hGrows : p.Grows p₁) (hp : p.find? index = some c) (hc : c.isName = false)
    (hd : d.isName = false) (hUsable : d ≠ .unusable)
    (h : Yields (Pool.replaceAt index d) p₁ u q) :
    q.Sound ∧ Keeps (· = index.toNat) p q ∧ q.find? index = some d ∧
      Keeps (· = index.toNat) p₁ q := by
  have hp₁ := hGrows.find?_untouched hp id
  obtain ⟨hSound', hKeeps, hFind⟩ := Pool.replaceAt_spec hSound hp₁ hc hd hUsable h
  exact ⟨hSound', (hGrows.trans hKeeps).mono fun _ => by simp, hFind, hKeeps⟩

theorem memberNameAndType_spec {rename? : String → MemberKey → Option String} {nat : UInt16}
    (hSound : p.Sound) (h : Yields (r.memberNameAndType rename? index) p nat q) :
    q.Sound ∧ p.Grows q ∧ ∃ m, r.source.memberRef index = .ok m ∧
      q.nameAndType nat = .ok ((rename? m.owner ⟨m.name, m.descriptor⟩).getD m.name,
        r.remapper.descriptor m.descriptor) := by
  obtain ⟨m, _, hAsk, h⟩ := Pool.yields_bind.1 h
  obtain ⟨hm, rfl⟩ := Pool.yields_liftM.1 hAsk
  obtain ⟨hSound', hGrows, hNat⟩ := Pool.internNameAndType_spec hSound h
  exact ⟨hSound', hGrows, m, hm, hNat⟩

/-- The step for one constant touches its slot only, and renames there. -/
theorem remapConstant_spec {touched : Nat → Prop} {c : Constant} {u : Unit} (hSound : p.Sound)
    (hSource : Keeps touched r.source p) (hOld : r.source.find? index = some c)
    (hp : p.find? index = some c) (h : Yields (r.remapConstant methods index) p u q) :
    q.Sound ∧ Keeps (· = index.toNat) p q ∧ r.Becomes methods q index c := by
  obtain ⟨c', _, hAsk, h⟩ := Pool.yields_bind.1 h
  obtain ⟨hGet, rfl⟩ := Pool.yields_liftM.1 hAsk
  rw [Pool.get_eq_ok, hOld] at hGet
  cases hGet
  cases c with
  | classRef name =>
    obtain ⟨old, _, hAsk, h⟩ := Pool.yields_bind.1 h
    obtain ⟨hText, rfl⟩ := Pool.yields_liftM.1 hAsk
    extract_lets new at h
    split at h
    · obtain ⟨i, p₁, hIntern, h⟩ := Pool.yields_bind.1 h
      obtain ⟨hSound₁, hGrows, hNew⟩ := Pool.internText_spec hSound hIntern
      obtain ⟨hSound', hKeeps, hFind, hKeeps₁⟩ :=
        replaceAt_of_grows hSound₁ hGrows hp rfl rfl (by simp) h
      exact ⟨hSound', hKeeps, old, hText, Pool.className_eq_ok.2 ⟨i, hFind, hKeeps₁.text hNew⟩⟩
    · rename_i hSame
      rw [Decidable.not_not] at hSame
      obtain ⟨-, rfl⟩ := Pool.yields_pure.1 h
      refine ⟨hSound, .refl, old, hText, Pool.className_eq_ok.2 ⟨name, hp, ?_⟩⟩
      show p.text name = .ok new
      rw [hSame]
      exact hSource.text hText
  | fieldRef owner nat =>
    obtain ⟨i, p₁, hIntern, h⟩ := Pool.yields_bind.1 h
    obtain ⟨hSound₁, hGrows, m, hm, hNat⟩ := memberNameAndType_spec hSound hIntern
    obtain ⟨hSound', hKeeps, hFind, hKeeps₁⟩ :=
      replaceAt_of_grows hSound₁ hGrows hp rfl rfl (by simp) h
    exact ⟨hSound', hKeeps, m, i, hm, hFind, hKeeps₁.nameAndType hNat⟩
  | methodRef owner nat =>
    obtain ⟨i, p₁, hIntern, h⟩ := Pool.yields_bind.1 h
    obtain ⟨hSound₁, hGrows, m, hm, hNat⟩ := memberNameAndType_spec hSound hIntern
    obtain ⟨hSound', hKeeps, hFind, hKeeps₁⟩ :=
      replaceAt_of_grows hSound₁ hGrows hp rfl rfl (by simp) h
    exact ⟨hSound', hKeeps, m, i, hm, hFind, hKeeps₁.nameAndType hNat⟩
  | interfaceMethodRef owner nat =>
    obtain ⟨i, p₁, hIntern, h⟩ := Pool.yields_bind.1 h
    obtain ⟨hSound₁, hGrows, m, hm, hNat⟩ := memberNameAndType_spec hSound hIntern
    obtain ⟨hSound', hKeeps, hFind, hKeeps₁⟩ :=
      replaceAt_of_grows hSound₁ hGrows hp rfl rfl (by simp) h
    exact ⟨hSound', hKeeps, m, i, hm, hFind, hKeeps₁.nameAndType hNat⟩
  | methodType type =>
    obtain ⟨old, _, hAsk, h⟩ := Pool.yields_bind.1 h
    obtain ⟨hText, rfl⟩ := Pool.yields_liftM.1 hAsk
    obtain ⟨i, p₁, hIntern, h⟩ := Pool.yields_bind.1 h
    obtain ⟨hSound₁, hGrows, hNew⟩ := Pool.repoint_spec hSound hIntern
    obtain ⟨hSound', hKeeps, hFind, hKeeps₁⟩ :=
      replaceAt_of_grows hSound₁ hGrows hp rfl rfl (by simp) h
    exact ⟨hSound', hKeeps, old, i, hText, hFind, hKeeps₁.text hNew⟩
  | methodHandle kind reference =>
    obtain ⟨target, _, hAsk, h⟩ := Pool.yields_bind.1 h
    obtain ⟨-, rfl⟩ := Pool.yields_liftM.1 hAsk
    split at h
    · exact absurd h Pool.not_yields_throw
    · obtain ⟨-, rfl⟩ := Pool.yields_pure.1 h
      exact ⟨hSound, .refl, hp⟩
  | invokeDynamic bootstrap nat =>
    obtain ⟨⟨name, descriptor⟩, _, hAsk, h⟩ := Pool.yields_bind.1 h
    obtain ⟨hPair, rfl⟩ := Pool.yields_liftM.1 hAsk
    obtain ⟨site, _, hAsk, h⟩ := Pool.yields_bind.1 h
    obtain ⟨hSite, rfl⟩ := Pool.yields_liftM.1 hAsk
    obtain ⟨i, p₁, hIntern, h⟩ := Pool.yields_bind.1 h
    obtain ⟨hSound₁, hGrows, hNat⟩ := Pool.internNameAndType_spec hSound hIntern
    obtain ⟨hSound', hKeeps, hFind, hKeeps₁⟩ :=
      replaceAt_of_grows hSound₁ hGrows hp rfl rfl (by simp) h
    exact ⟨hSound', hKeeps, name, descriptor, i, site.getD name, hPair, hFind,
      hKeeps₁.nameAndType hNat, callSiteName_spec hSite⟩
  | dynamic bootstrap nat =>
    obtain ⟨⟨name, descriptor⟩, _, hAsk, h⟩ := Pool.yields_bind.1 h
    obtain ⟨hPair, rfl⟩ := Pool.yields_liftM.1 hAsk
    obtain ⟨i, p₁, hIntern, h⟩ := Pool.yields_bind.1 h
    obtain ⟨hSound₁, hGrows, hNat⟩ := Pool.internNameAndType_spec hSound hIntern
    obtain ⟨hSound', hKeeps, hFind, hKeeps₁⟩ :=
      replaceAt_of_grows hSound₁ hGrows hp rfl rfl (by simp) h
    exact ⟨hSound', hKeeps, name, descriptor, i, hPair, hFind, hKeeps₁.nameAndType hNat⟩
  | _ =>
    obtain ⟨-, rfl⟩ := Pool.yields_pure.1 h
    exact ⟨hSound, .refl, hp⟩

-- ---------------------------------------------------------------------------
-- The whole pool
-- ---------------------------------------------------------------------------

/-- Steps for slots that differ rename each of them and touch no other slot. -/
theorem remapConstants_spec {todo : List UInt16} :
    ∀ {touched : Nat → Prop} {p q : Pool} {u : Unit}, todo.Nodup → p.Sound →
      Keeps touched r.source p →
      (∀ i ∈ todo, ¬ touched i.toNat ∧ ∃ c, r.source.find? i = some c) →
      Yields (todo.forM (r.remapConstant methods)) p u q →
      q.Sound ∧ Keeps (fun j => ∃ i ∈ todo, j = i.toNat) p q ∧
        ∀ i ∈ todo, ∀ c, r.source.find? i = some c → r.Becomes methods q i c := by
  induction todo with
  | nil =>
    intro touched p q u _ hSound _ _ h
    obtain ⟨-, rfl⟩ := Pool.yields_pure.1 h
    exact ⟨hSound, .refl, by simp⟩
  | cons i more ih =>
    intro touched p q u hNodup hSound hSource hTodo h
    rw [List.nodup_cons] at hNodup
    obtain ⟨_, p₁, hFirst, h⟩ := Pool.yields_bind.1 h
    obtain ⟨hFresh, c, hc⟩ := hTodo i (List.mem_cons_self ..)
    obtain ⟨hSound₁, hKeeps₁, hBecomes⟩ :=
      remapConstant_spec hSound hSource hc (hSource.find?_untouched hc hFresh) hFirst
    -- the slot just done is none of those that remain
    have hRemain : ∀ j ∈ more, j.toNat ≠ i.toNat := by
      intro j hj hEq
      rw [UInt16.toNat_inj.1 hEq] at hj
      exact hNodup.1 hj
    obtain ⟨hSound₂, hKeeps₂, hMore⟩ := ih hNodup.2 hSound₁ (hSource.trans hKeeps₁)
      (fun j hj => by
        obtain ⟨hFresh, hSome⟩ := hTodo j (List.mem_cons_of_mem _ hj)
        exact ⟨fun ht => ht.elim hFresh (hRemain j hj), hSome⟩) h
    refine ⟨hSound₂, (hKeeps₁.trans hKeeps₂).mono ?_, ?_⟩
    · rintro j (rfl | ⟨k, hk, rfl⟩)
      · exact ⟨i, List.mem_cons_self .., rfl⟩
      · exact ⟨k, List.mem_cons_of_mem _ hk, rfl⟩
    · intro j hj d hd
      rcases List.mem_cons.1 hj with rfl | hj
      · obtain rfl := Option.some.inj (hc.symm.trans hd)
        refine hBecomes.mono hKeeps₂ ?_
        rintro ⟨k, hk, hEq⟩
        exact hRemain k hk hEq.symm
      · exact hMore j hj d hd

/-- A successful run over the pool touches the slots that can be used, and renames in them. -/
theorem remapPool_spec {u : Unit} (hSound : r.source.Sound)
    (h : Yields (r.remapPool methods) r.source u q) :
    q.Sound ∧ Keeps (fun j => ∃ i ∈ r.source.indices, j = i.toNat) r.source q ∧
      ∀ i c, r.source.find? i = some c → r.Becomes methods q i c := by
  have hKeeps : Keeps (fun _ => False) r.source r.source := .refl
  obtain ⟨hSound', hKeeps', hBecomes⟩ := remapConstants_spec
    (Pool.nodup_indices hSound.size_le) hSound hKeeps
    (fun i hi => ⟨id, Pool.mem_indices.1 hi⟩) h
  exact ⟨hSound', hKeeps', fun i c hc => hBecomes i (Pool.mem_indices.2 ⟨c, hc⟩) c hc⟩

end ClassRemapping

end Jarsmith
