import Jarsmith.Jar.Transformer
import Jarsmith.Proofs.ClassFile.Marker
import Jarsmith.Proofs.Pool.Texts

/-!
# Fixes of names in a class

What the two fixes of a class read and what they leave behind. Neither changes a constant that is
there; a fix that finds nothing to do leaves the pool as it is; and the tables of a method are
looked up in a pool that need not be the one that is edited.

* `Pool.Keeps.attribute?`, `Pool.exists_attribute?` — a search in a longer pool.
* `LocalNames.NameTables.find_of_searches` — which searches decide on the tables of a method.
* `LocalNames.pool_of_fixMethod_none` — a method with nothing to fix.
* `ClassFile.fixSourceFile_spec` — the two outcomes for the name of the source file.
-/

namespace Jarsmith

open Outcome
open Pool (Edit Yields Interns AddsTexts yields_bind yields_map yields_pure yields_liftM
  yields_reading)

-- ---------------------------------------------------------------------------
-- Searches in a longer pool
-- ---------------------------------------------------------------------------

namespace Pool

variable {p q : Pool} {l : List Attribute} {name : String} {o : Option (Nat × Attribute)}

theorem Keeps.isOther {touched : Nat → Prop} {a : Attribute} (h : Keeps touched p q)
    (hOther : p.IsOther name a) : q.IsOther name a := by
  obtain ⟨raw, hFind, hText⟩ := hOther
  exact ⟨raw, h.find?_name hFind rfl, hText⟩

/-- What a search finds in a pool it finds in a longer one. -/
theorem Keeps.attribute? {touched : Nat → Prop} (h : Keeps touched p q)
    (hFound : p.attribute? l name = .ok o) : q.attribute? l name = .ok o := by
  cases o with
  | none =>
    rw [attribute?_eq_none] at hFound ⊢
    exact fun a ha => h.isOther (hFound a ha)
  | some found =>
    rw [attribute?_eq_some] at hFound ⊢
    obtain ⟨before, after, hSplit, hPlace, hBefore, hText⟩ := hFound
    exact ⟨before, after, hSplit, hPlace, fun b hb => h.isOther (hBefore b hb), h.text hText⟩

/-- A search among names that are texts comes to an end. -/
theorem exists_searchAttribute (name : String) {l : List Attribute}
    (hNames : ∀ a ∈ l, ∃ s, p.text a.name = .ok s) (start : Nat) :
    ∃ o, searchAttribute p name start l = .ok o := by
  induction l generalizing start with
  | nil => exact ⟨none, rfl⟩
  | cons a more ih =>
    obtain ⟨⟨s, hText⟩, hMore⟩ := List.forall_mem_cons.1 hNames
    obtain ⟨raw, hFind, hRaw⟩ := text_eq_ok.1 hText
    by_cases hName : s = name
    · exact ⟨_, searchAttribute_cons.2 (.inl ⟨hName ▸ hText, rfl⟩)⟩
    · obtain ⟨o, hRest⟩ := ih hMore (start + 1)
      refine ⟨o, searchAttribute_cons.2 (.inr ⟨⟨raw, hFind, fun h => hName ?_⟩, hRest⟩)⟩
      exact Except.ok.inj (hRaw.symm.trans h)

/-- What follows a step runs in the pool that the step left, whatever its outcome. -/
theorem run_bind_of_yields {α β : Type} {x : Edit α} {f : α → Edit β} {a : α}
    (h : Yields x p a q) : (x >>= f).run.run p = (f a).run.run q := by
  unfold Yields at h
  simp only [ExceptT.run_bind, StateT.run_bind]
  rw [h]
  rfl

/-- A loop whose steps leave the pool as it is when they give certain answers. -/
theorem pool_of_mapM {α β : Type} {f : α → Edit β} {P : β → Prop}
    (hf : ∀ a p b q, P b → Yields (f a) p b q → q = p) {list : List α} {new : List β}
    (hNew : ∀ b ∈ new, P b) (h : Yields (list.mapM f) p new q) : q = p := by
  induction list generalizing p new with
  | nil => exact (yields_pure.1 h).2.symm
  | cons a more ih =>
    rw [List.mapM_cons] at h
    obtain ⟨b, p₁, hFirst, h⟩ := yields_bind.1 h
    obtain ⟨rest, p₂, hRest, h⟩ := yields_bind.1 h
    obtain ⟨rfl, rfl⟩ := yields_pure.1 h
    obtain ⟨hb, hNew⟩ := List.forall_mem_cons.1 hNew
    rw [ih hNew hRest, hf a p b p₁ hb hFirst]

/-- A loop whose steps leave the pool as it is. -/
theorem exists_mapM_same {α β : Type} {f : α → Edit β} {P : β → Prop} {list : List α}
    (h : ∀ a ∈ list, ∃ b, P b ∧ Yields (f a) p b p) :
    ∃ new, (∀ b ∈ new, P b) ∧ Yields (list.mapM f) p new p := by
  induction list with
  | nil => exact ⟨[], nofun, yields_pure.2 ⟨rfl, rfl⟩⟩
  | cons a more ih =>
    obtain ⟨⟨b, hb, hRun⟩, hMore⟩ := List.forall_mem_cons.1 h
    obtain ⟨new, hNew, hRest⟩ := ih hMore
    refine ⟨b :: new, List.forall_mem_cons.2 ⟨hb, hNew⟩, ?_⟩
    rw [List.mapM_cons]
    exact yields_bind.2 ⟨b, p, hRun,
      yields_bind.2 ⟨new, p, hRest, yields_pure.2 ⟨rfl, rfl⟩⟩⟩

/-- A loop whose steps can be replaced by others. -/
theorem yields_mapM_mono {α β : Type} {f g : α → Edit β} {list : List α}
    (hStep : ∀ a ∈ list, ∀ p b q, Yields (f a) p b q → Yields (g a) p b q) {new : List β}
    (h : Yields (list.mapM f) p new q) : Yields (list.mapM g) p new q := by
  induction list generalizing p q new with
  | nil => exact h
  | cons a more ih =>
    obtain ⟨hFirst, hMore⟩ := List.forall_mem_cons.1 hStep
    rw [List.mapM_cons] at h ⊢
    obtain ⟨b, p₁, hRun, h⟩ := yields_bind.1 h
    obtain ⟨rest, p₂, hRest, h⟩ := yields_bind.1 h
    exact yields_bind.2 ⟨b, p₁, hFirst p b p₁ hRun, yields_bind.2 ⟨rest, p₂, ih hMore hRest, h⟩⟩

theorem exists_attribute? (name : String) (hNames : ∀ a ∈ l, ∃ s, p.text a.name = .ok s) :
    ∃ o, p.attribute? l name = .ok o := exists_searchAttribute name hNames 0

end Pool

-- ---------------------------------------------------------------------------
-- Names of local variables
-- ---------------------------------------------------------------------------

namespace LocalNames

variable {p q : Pool} {m : Member}

section Steps

variable {α β : Type} {s t : NameScope}

/-- Inverts one step of a fix. -/
theorem yields_run_bind {x : Fix α} {f : α → Fix β} {b : β} :
    Yields ((x >>= f).run s) p (b, t) q ↔
      ∃ a s' r, Yields (x.run s) p (a, s') r ∧ Yields ((f a).run s') r (b, t) q := by
  rw [StateT.run_bind, yields_bind]
  simp only [Prod.exists]

theorem yields_run_pure {a b : α} :
    Yields ((pure a : Fix α).run s) p (b, t) q ↔ (a = b ∧ s = t) ∧ p = q := by
  rw [StateT.run_pure, yields_pure, Prod.mk.injEq]

theorem interns_run_bind {x : Fix α} {f : α → Fix β} (hx : ∀ s, Interns (x.run s))
    (hf : ∀ a s, Interns ((f a).run s)) (s : NameScope) : Interns ((x >>= f).run s) := by
  rw [StateT.run_bind]
  exact (hx s).bind fun result => hf result.1 result.2

theorem interns_run_pure (a : α) (s : NameScope) : Interns ((pure a : Fix α).run s) := by
  rw [StateT.run_pure]
  exact .pure

/-- To look at a name leaves everything as it is. -/
theorem run_isFine (index : UInt16) (s : NameScope) : (isFine index).run s =
    Pool.reading (Pool.text · index) >>= fun name => pure (isIdentifier name, s) := by
  unfold isFine
  simp

theorem interns_isFine (index : UInt16) (s : NameScope) : Interns ((isFine index).run s) := by
  rw [run_isFine]
  exact Interns.reading.bind fun _ => .pure

theorem pool_of_isFine {index : UInt16} {fine : Bool}
    (h : Yields ((isFine index).run s) p (fine, t) q) : q = p := by
  rw [run_isFine] at h
  obtain ⟨name, _, hRead, h⟩ := yields_bind.1 h
  obtain ⟨-, rfl⟩ := yields_reading.1 hRead
  exact (yields_pure.1 h).2.symm

theorem interns_fresh (name : StateM NameScope String) (s : NameScope) :
    Interns ((fresh name).run s) := by
  show Interns (Pool.internText (name.run s).1 >>= fun index => pure (index, (name.run s).2))
  exact Interns.internText.bind fun _ => .pure

end Steps

theorem interns_fixRows : ∀ (rows : List LocalVariable) (s : NameScope),
    Interns ((fixRows rows).run s)
  | [], s => interns_run_pure _ s
  | v :: more, s => by
    refine interns_run_bind (interns_isFine v.name) (fun fine s => ?_) s
    have hMore := interns_fixRows more
    split
    · exact interns_run_bind hMore (fun _ => interns_run_pure _) s
    · exact interns_run_bind (interns_fresh _)
        (fun _ => interns_run_bind hMore fun _ => interns_run_pure _) s

theorem interns_fixParameter (place : Nat) (parameter : MethodParameter) (s : NameScope) :
    Interns ((fixParameter place parameter).run s) := by
  unfold fixParameter
  split
  · refine interns_run_bind (interns_isFine _) (fun fine s => ?_) s
    split
    · exact interns_run_pure _ s
    · exact interns_run_bind (interns_fresh _) (fun _ => interns_run_pure _) s
  · exact interns_run_pure _ s

theorem interns_fixParameters : ∀ (place : Nat) (parameters : List MethodParameter)
    (s : NameScope), Interns ((fixParameters place parameters).run s)
  | _, [], s => interns_run_pure _ s
  | place, parameter :: more, s =>
    interns_run_bind (interns_fixParameter place parameter)
      (fun _ => interns_run_bind (interns_fixParameters (place + 1) more)
        fun _ => interns_run_pure _) s

theorem interns_fixMethod (pool : Pool) (m : Member) : Interns (fixMethod pool m) := by
  refine Interns.reading.bind fun descriptor => Interns.liftM.bind fun tables => ?_
  refine Interns.liftM.bind fun rows => Interns.liftM.bind fun parameters => ?_
  refine (Interns.mapM (fun _ => .reading) _).bind fun existing => ?_
  refine (interns_fixRows _ _).bind fun _ => (interns_fixParameters _ _ _).bind fun _ => ?_
  dsimp only
  split
  · exact .pure
  · exact Interns.liftM.bind fun _ => .pure

-- ---------------------------------------------------------------------------
-- One method
-- ---------------------------------------------------------------------------

/-- Inverts the fix of a method. -/
theorem yields_fixMethod {pool : Pool} {o : Option Member} : Yields (fixMethod pool m) p o q ↔
    ∃ descriptor tables, p.text m.descriptor = .ok descriptor ∧
      NameTables.find pool m = .ok tables ∧ Yields (tables.fix descriptor m) p o q := by
  unfold fixMethod
  simp only [yields_bind, yields_reading, yields_liftM]
  constructor
  · rintro ⟨descriptor, _, ⟨hDescriptor, rfl⟩, tables, _, ⟨hTables, rfl⟩, h⟩
    exact ⟨descriptor, tables, hDescriptor, hTables, h⟩
  · rintro ⟨descriptor, tables, hDescriptor, hTables, h⟩
    exact ⟨descriptor, p, ⟨hDescriptor, rfl⟩, tables, p, ⟨hTables, rfl⟩, h⟩

/-- Inverts what is done with the tables of a method: its rows and then its parameters get new
names, which are written into the method if there are any. -/
theorem yields_fix {tables : NameTables} {descriptor : String} {o : Option Member} :
    Yields (tables.fix descriptor m) p o q ↔
      ∃ rows list existing rows' renamed s p₁ list' changed t, rowsOf tables.plain = .ok rows ∧
        parametersOf tables.parameters = .ok list ∧
        Yields ((rows.map (·.name) ++ list.filterMap (·.name)).mapM fun name =>
          Pool.reading (Pool.text · name)) p existing p ∧
        Yields ((fixRows rows).run
          (NameScope.new descriptor (m.access.has AccessFlags.staticBit) existing)) p
            ((rows', renamed), s) p₁ ∧
        Yields ((fixParameters 0 list).run s) p₁ ((list', changed), t) q ∧
        (renamed = [] ∧ changed = false ∧ o = none ∨ ¬ (renamed = [] ∧ changed = false) ∧ ∃ m',
          tables.replace m rows' renamed (if changed then some list' else none) = .ok m' ∧
            o = some m') := by
  have hNothing : ∀ {renamed : Renamed} {changed : Bool},
      (renamed.isEmpty && !changed) = true ↔ renamed = [] ∧ changed = false := by
    intro renamed changed
    rw [Bool.and_eq_true_iff, List.isEmpty_iff, Bool.not_eq_true']
  constructor
  · intro h
    obtain ⟨rows, _, hAsk, h⟩ := yields_bind.1 h
    obtain ⟨hRows, rfl⟩ := yields_liftM.1 hAsk
    obtain ⟨list, _, hAsk, h⟩ := yields_bind.1 h
    obtain ⟨hList, rfl⟩ := yields_liftM.1 hAsk
    obtain ⟨existing, p₁, hExisting, h⟩ := yields_bind.1 h
    have hSame : p₁ = p := Pool.pool_of_mapM (P := fun _ => True)
      (fun _ _ _ _ _ hRead => (yields_reading.1 hRead).2.symm) (fun _ _ => trivial) hExisting
    rw [hSame] at hExisting h
    obtain ⟨⟨⟨rows', renamed⟩, s⟩, p₂, hFixRows, h⟩ := yields_bind.1 h
    obtain ⟨⟨⟨list', changed⟩, t⟩, p₃, hFixList, h⟩ := yields_bind.1 h
    dsimp only at h
    split at h
    · rename_i hBoth
      obtain ⟨rfl, rfl⟩ := yields_pure.1 h
      exact ⟨rows, list, existing, rows', renamed, s, p₂, list', changed, t, hRows, hList,
        hExisting, hFixRows, hFixList,
        .inl ⟨(hNothing.1 hBoth).1, (hNothing.1 hBoth).2, rfl⟩⟩
    · rename_i hSome
      obtain ⟨fixed, _, hAsk, h⟩ := yields_bind.1 h
      obtain ⟨hReplace, rfl⟩ := yields_liftM.1 hAsk
      obtain ⟨rfl, rfl⟩ := yields_pure.1 h
      exact ⟨rows, list, existing, rows', renamed, s, p₂, list', changed, t, hRows, hList,
        hExisting, hFixRows, hFixList,
        .inr ⟨fun hBoth => hSome (hNothing.2 hBoth), fixed, hReplace, rfl⟩⟩
  · rintro ⟨rows, list, existing, rows', renamed, s, p₁, list', changed, t, hRows, hList,
      hExisting, hFixRows, hFixList, hCases⟩
    refine yields_bind.2 ⟨rows, p, yields_liftM.2 ⟨hRows, rfl⟩, ?_⟩
    refine yields_bind.2 ⟨list, p, yields_liftM.2 ⟨hList, rfl⟩, ?_⟩
    refine yields_bind.2 ⟨existing, p, hExisting, ?_⟩
    refine yields_bind.2 ⟨((rows', renamed), s), p₁, hFixRows, ?_⟩
    refine yields_bind.2 ⟨((list', changed), t), q, hFixList, ?_⟩
    dsimp only
    obtain ⟨rfl, rfl, rfl⟩ | ⟨hSome, m', hReplace, rfl⟩ := hCases
    · exact yields_pure.2 ⟨rfl, rfl⟩
    · rw [if_neg (mt hNothing.1 hSome)]
      exact yields_bind.2 ⟨m', q, yields_liftM.2 ⟨hReplace, rfl⟩, yields_pure.2 ⟨rfl, rfl⟩⟩

-- ---------------------------------------------------------------------------
-- Nothing to fix
-- ---------------------------------------------------------------------------

/-- Rows without new names need no constants. -/
theorem pool_of_fixRows_nil : ∀ {rows rows' : List LocalVariable} {s t : NameScope} {p q : Pool},
    Yields ((fixRows rows).run s) p ((rows', []), t) q → q = p
  | [], _, _, _, _, _, h => (yields_run_pure.1 h).2.symm
  | v :: more, rows', s, t, p, q, h => by
    obtain ⟨fine, s', p₁, hFine, h⟩ := yields_run_bind.1 h
    split at h
    · obtain ⟨⟨rows₁, renamed⟩, s₁, p₂, hMore, h⟩ := yields_run_bind.1 h
      obtain ⟨⟨hEq, -⟩, rfl⟩ := yields_run_pure.1 h
      obtain ⟨-, rfl⟩ := Prod.mk.inj hEq
      rw [pool_of_fixRows_nil hMore, pool_of_isFine hFine]
    · obtain ⟨name, s₁, p₂, -, h⟩ := yields_run_bind.1 h
      obtain ⟨⟨rows₁, renamed⟩, s₂, p₃, -, h⟩ := yields_run_bind.1 h
      obtain ⟨⟨hEq, -⟩, -⟩ := yields_run_pure.1 h
      exact nomatch (Prod.mk.inj hEq).2

theorem pool_of_fixParameter_false {place : Nat} {parameter parameter' : MethodParameter}
    {s t : NameScope}
    (h : Yields ((fixParameter place parameter).run s) p ((parameter', false), t) q) :
    q = p := by
  unfold fixParameter at h
  split at h
  · obtain ⟨fine, s', p₁, hFine, h⟩ := yields_run_bind.1 h
    split at h
    · rw [← (yields_run_pure.1 h).2, pool_of_isFine hFine]
    · obtain ⟨name, s₁, p₂, -, h⟩ := yields_run_bind.1 h
      obtain ⟨⟨hEq, -⟩, -⟩ := yields_run_pure.1 h
      exact nomatch (Prod.mk.inj hEq).2
  · exact (yields_run_pure.1 h).2.symm

/-- Parameters none of which was replaced need no constants. -/
theorem pool_of_fixParameters_false : ∀ {place : Nat}
    {parameters parameters' : List MethodParameter} {s t : NameScope} {p q : Pool},
    Yields ((fixParameters place parameters).run s) p ((parameters', false), t) q → q = p
  | _, [], _, _, _, _, _, h => (yields_run_pure.1 h).2.symm
  | place, parameter :: more, parameters', s, t, p, q, h => by
    obtain ⟨⟨parameter', first⟩, s₁, p₁, hFirst, h⟩ := yields_run_bind.1 h
    obtain ⟨⟨more', others⟩, s₂, p₂, hMore, h⟩ := yields_run_bind.1 h
    obtain ⟨⟨hEq, -⟩, rfl⟩ := yields_run_pure.1 h
    obtain ⟨rfl, rfl⟩ := Bool.or_eq_false_iff.1 (Prod.mk.inj hEq).2
    rw [pool_of_fixParameters_false hMore, pool_of_fixParameter_false hFirst]

/-- A method with nothing to fix leaves the pool as it is. -/
theorem pool_of_fixMethod_none {pool : Pool} (h : Yields (fixMethod pool m) p none q) : q = p := by
  obtain ⟨descriptor, tables, -, -, hFix⟩ := yields_fixMethod.1 h
  obtain ⟨rows, list, existing, rows', renamed, s, p₁, list', changed, t, -, -, -, hRows, hList,
    ⟨rfl, rfl, -⟩ | ⟨-, m', -, hSome⟩⟩ := yields_fix.1 hFix
  · rw [pool_of_fixParameters_false hList, pool_of_fixRows_nil hRows]
  · cases hSome

-- ---------------------------------------------------------------------------
-- Where the tables are looked up
-- ---------------------------------------------------------------------------

/-- The tables of a method are decided by the searches among its attributes and among those of its
body. -/
theorem find_of_searches {pool other : Pool} {tables : NameTables}
    (hOwn : ∀ name o, pool.attribute? m.attributes name = .ok o →
      other.attribute? m.attributes name = .ok o)
    (hNested : ∀ place a code, pool.attribute? m.attributes AttributeName.code =
      .ok (some (place, a)) → Code.split a.info = .ok code → ∀ name o,
        pool.attribute? code.attributes name = .ok o →
        other.attribute? code.attributes name = .ok o)
    (h : NameTables.find pool m = .ok tables) : NameTables.find other m = .ok tables := by
  simp only [NameTables.find, bind_ok_iff, pure_ok_iff] at h ⊢
  obtain ⟨found, hCode, parameters, hParameters, code, hSplit, plain, hPlain, types, hTypes,
    rfl⟩ := h
  refine ⟨found, hOwn _ _ hCode, parameters, hOwn _ _ hParameters, code, hSplit, ?_⟩
  have hSearch : ∀ name o, pool.attribute? ((code.map (·.2.attributes)).getD []) name = .ok o →
      other.attribute? ((code.map (·.2.attributes)).getD []) name = .ok o := by
    cases found with
    | none =>
      obtain rfl := Except.ok.inj hSplit
      exact fun _ _ h => h
    | some entry =>
      obtain ⟨place, a⟩ := entry
      simp only [Option.mapM_some, map_ok_iff, bind_ok_iff, pure_ok_iff] at hSplit
      obtain ⟨_, ⟨body, hBody, rfl⟩, rfl⟩ := hSplit
      exact hNested place a body hCode hBody
  exact ⟨plain, hSearch _ _ hPlain, types, hSearch _ _ hTypes, rfl⟩

/-- A method is fixed in the same way whichever of two pools the tables are looked up in, if they
are found in both. -/
theorem yields_fixMethod_of_find {pool other : Pool} {o : Option Member}
    (hFind : ∀ tables, NameTables.find pool m = .ok tables → NameTables.find other m = .ok tables)
    (h : Yields (fixMethod pool m) p o q) : Yields (fixMethod other m) p o q := by
  obtain ⟨descriptor, p₁, hRead, h⟩ := yields_bind.1 h
  obtain ⟨tables, p₂, hAsk, h⟩ := yields_bind.1 h
  obtain ⟨hTables, rfl⟩ := yields_liftM.1 hAsk
  exact yields_bind.2 ⟨descriptor, p₁, hRead,
    yields_bind.2 ⟨tables, p₁, yields_liftM.2 ⟨hFind tables hTables, rfl⟩, h⟩⟩

end LocalNames

-- ---------------------------------------------------------------------------
-- Classes
-- ---------------------------------------------------------------------------

namespace ClassFile

variable {c : ClassFile} {p q : Pool} {o : Option ClassFile}

/-- Inverts the fix of a class. -/
theorem fix_eq_ok {f : Edit (Option ClassFile)} : c.fix f = .ok o ↔
    ∃ fixed q, Yields f c.pool fixed q ∧ o = fixed.map fun d => { d with pool := q } := by
  unfold ClassFile.fix Yields
  rcases hRun : f.run.run c.pool with ⟨_ | fixed, q⟩
  · exact iff_of_false nofun fun ⟨_, _, hEq, _⟩ => nomatch hEq
  · constructor
    · rintro ⟨⟩
      exact ⟨fixed, q, rfl, rfl⟩
    · rintro ⟨_, _, hEq, rfl⟩
      cases hEq
      rfl

/-- What the fix of local variables does to a class depends on its methods and on the pool in which
their tables are looked up. -/
theorem yields_fixLocalNames : Yields c.fixLocalNames p o q ↔
    ∃ fixed, Yields (c.methods.mapM (LocalNames.fixMethod c.pool)) p fixed q ∧
      o = if fixed.all Option.isNone then none
        else some { c with methods := List.zipWith Option.getD fixed c.methods } := by
  have hMap : c.fixLocalNames = (fun fixed : List (Option Member) =>
      if fixed.all Option.isNone then none
      else some { c with methods := List.zipWith Option.getD fixed c.methods }) <$>
        c.methods.mapM (LocalNames.fixMethod c.pool) := by
    rw [map_eq_pure_bind, fixLocalNames]
    refine congrArg _ (funext fun fixed => ?_)
    split <;> rfl
  rw [hMap, yields_map]
  exact exists_congr fun fixed => and_congr_right fun _ => eq_comm

/-- Only methods are fixed. -/
theorem eq_of_fixLocalNames {d : ClassFile} (h : Yields c.fixLocalNames p (some d) q) :
    ∃ methods, d = { c with methods := methods } := by
  obtain ⟨fixed, -, hSome⟩ := yields_fixLocalNames.1 h
  split at hSome
  · cases hSome
  · exact ⟨_, Option.some.inj hSome⟩

theorem interns_fixLocalNames (c : ClassFile) : Interns c.fixLocalNames := by
  refine (Interns.mapM (LocalNames.interns_fixMethod c.pool) _).bind fun fixed => ?_
  split
  all_goals exact .pure

/-- A class without anything to fix in its methods leaves the pool as it is. -/
theorem pool_of_fixLocalNames_none (h : Yields c.fixLocalNames p none q) : q = p := by
  obtain ⟨fixed, hMethods, hNone⟩ := yields_fixLocalNames.1 h
  have hAll : fixed.all Option.isNone = true := by
    by_contra hSome
    rw [if_neg hSome] at hNone
    cases hNone
  refine Pool.pool_of_mapM (P := (· = none)) (fun m p o q hm hRun => ?_)
    (fun o ho => Option.isNone_iff_eq_none.1 (List.all_eq_true.1 hAll o ho)) hMethods
  subst hm
  exact LocalNames.pool_of_fixMethod_none hRun

/-- The tables of the methods may be looked up in another pool in which they are found as well. -/
theorem yields_fixLocalNames_view {view : Pool}
    (hViews : ∀ m ∈ c.methods, ∀ tables, LocalNames.NameTables.find c.pool m = .ok tables →
      LocalNames.NameTables.find view m = .ok tables)
    (h : Yields c.fixLocalNames p o q) :
    Yields ({ c with pool := view } : ClassFile).fixLocalNames p
      (o.map fun d => { d with pool := view }) q := by
  obtain ⟨fixed, hMethods, rfl⟩ := yields_fixLocalNames.1 h
  refine yields_fixLocalNames.2
    ⟨fixed, Pool.yields_mapM_mono (fun m hm _ _ _ hRun => ?_) hMethods, ?_⟩
  · exact LocalNames.yields_fixMethod_of_find (hViews m hm) hRun
  · split <;> rfl

/-- Every attribute of a method, and every attribute of its body, has a name that is a text. -/
def AttributesNamed (c : ClassFile) : Prop :=
  ∀ m ∈ c.methods, (∀ a ∈ m.attributes, ∃ s, c.pool.text a.name = .ok s) ∧
    ∀ a ∈ m.attributes, c.pool.text a.name = .ok AttributeName.code →
      ∀ code, Code.split a.info = .ok code → ∀ b ∈ code.attributes, ∃ s, c.pool.text b.name = .ok s

/-- What is found in a pool is found in a longer one. -/
theorem find_longer {m : Member} {tables : LocalNames.NameTables} (hGrows : p.Grows q)
    (h : LocalNames.NameTables.find p m = .ok tables) :
    LocalNames.NameTables.find q m = .ok tables :=
  LocalNames.find_of_searches (fun _ _ hFound => hGrows.attribute? hFound)
    (fun _ _ _ _ _ _ _ hFound => hGrows.attribute? hFound) h

/-- What is found in a longer pool was found before, if every name that is asked for was a text. -/
theorem AttributesNamed.find_shorter {texts : List String} {m : Member}
    {tables : LocalNames.NameTables} (hNamed : c.AttributesNamed) (hm : m ∈ c.methods)
    (hAdds : AddsTexts texts c.pool p) (h : LocalNames.NameTables.find p m = .ok tables) :
    LocalNames.NameTables.find c.pool m = .ok tables := by
  obtain ⟨hOwn, hNested⟩ := hNamed m hm
  have hBack : ∀ {l : List Attribute}, (∀ a ∈ l, ∃ s, c.pool.text a.name = .ok s) →
      ∀ name o, p.attribute? l name = .ok o → c.pool.attribute? l name = .ok o := by
    intro l hNames name o hFound
    obtain ⟨o', hBefore⟩ := Pool.exists_attribute? name hNames
    obtain rfl := Except.ok.inj (hFound.symm.trans (hAdds.grows.attribute? hBefore))
    exact hBefore
  refine LocalNames.find_of_searches (hBack hOwn) (fun place a code hCode hSplit => ?_) h
  obtain ⟨before, after, hList, -, -, hText⟩ := Pool.attribute?_eq_some.1 hCode
  have ha : a ∈ m.attributes := hList ▸ List.mem_append_right before List.mem_cons_self
  obtain ⟨s, hBefore⟩ := hOwn a ha
  obtain rfl := Except.ok.inj ((hAdds.text hBefore).symm.trans hText)
  exact hBack (hNested a ha hBefore code hSplit)

theorem interns_fixSourceFile (c : ClassFile) : Interns c.fixSourceFile := by
  refine Interns.liftM.bind fun n => Interns.liftM.bind fun found => ?_
  split
  · refine Interns.liftM.bind fun current => ?_
    split
    · exact .pure
    · exact Interns.internText.bind fun _ => .pure
  · exact Interns.internText.bind fun _ => Interns.internText.bind fun _ => .pure

/-- **The fix of the source file** finds nothing to do, or changes one attribute or adds one behind
the others, and adds no more than two texts. -/
theorem fixSourceFile_spec {bytes : Bytes} (hParse : parse bytes = .ok c)
    (h : Yields c.fixSourceFile c.pool o p) :
    (o = none ∧ p = c.pool) ∨ ∃ list texts, o = some { c with attributes := list } ∧
      (∀ a ∈ list, a.name ≠ 0) ∧ p.Intact ∧ AddsTexts texts c.pool p := by
  have hPool := intact_parse hParse
  have hNames : ∀ a ∈ c.attributes, a.name ≠ 0 := fun a ha =>
    ((fits_parse hParse).attributes.2 a ha).name
  obtain ⟨n, _, hAsk, h⟩ := yields_bind.1 h
  obtain ⟨-, rfl⟩ := yields_liftM.1 hAsk
  obtain ⟨found, _, hAsk, h⟩ := yields_bind.1 h
  obtain ⟨hFound, rfl⟩ := yields_liftM.1 hAsk
  cases found with
  | some entry =>
    obtain ⟨place, a⟩ := entry
    obtain ⟨current, _, hAsk, h⟩ := yields_bind.1 h
    obtain ⟨-, rfl⟩ := yields_liftM.1 hAsk
    split at h
    · obtain ⟨rfl, rfl⟩ := yields_pure.1 h
      exact .inl ⟨rfl, rfl⟩
    · obtain ⟨value, p₁, hValue, h⟩ := yields_bind.1 h
      obtain ⟨rfl, rfl⟩ := yields_pure.1 h
      obtain ⟨hIntact, hAdds, -, -⟩ := hPool.internText hValue
      obtain ⟨before, after, hSplit, rfl, -, -⟩ := Pool.attribute?_eq_some.1 hFound
      refine .inr ⟨_, _, rfl, ?_, hIntact, hAdds⟩
      rw [hSplit] at hNames ⊢
      rw [setBody_append]
      simp only [List.forall_mem_append, List.forall_mem_cons] at hNames ⊢
      exact hNames
  | none =>
    obtain ⟨value, p₁, hValue, h⟩ := yields_bind.1 h
    obtain ⟨name, p₂, hName, h⟩ := yields_bind.1 h
    obtain ⟨rfl, rfl⟩ := yields_pure.1 h
    obtain ⟨hIntact₁, hAdds₁, -, -⟩ := hPool.internText hValue
    obtain ⟨hIntact₂, hAdds₂, -, hText⟩ := hIntact₁.internText hName
    have hAdds := hAdds₁.trans hAdds₂
    refine .inr ⟨_, _, rfl, ?_, hIntact₂, hAdds⟩
    rw [List.forall_mem_append, List.forall_mem_singleton]
    have hZero := hAdds.kept (slotZero_decode (decode_of_parse hParse))
    exact ⟨hNames, Pool.ne_zero_of_text hZero hText⟩

/-- A class whose pool lacks the texts for its source file gets both, and an attribute that leads to
the first one. -/
theorem yields_fixSourceFile_new {n : String} (hSound : c.pool.Sound) (hName : c.name = .ok n)
    (hFound : c.pool.attribute? c.attributes AttributeName.sourceFile = .ok none)
    (hShort : (ModifiedUtf8.encode (sourceFileName n)).length < 65536)
    (hRoom : c.pool.size + 1 < Pool.maxSize) :
    let text := Constant.utf8 (ModifiedUtf8.encode (sourceFileName n))
    let name := Constant.utf8 (ModifiedUtf8.encode AttributeName.sourceFile)
    text ∉ c.pool.entries.toList → name ∉ (c.pool.append text).entries.toList →
      Yields c.fixSourceFile c.pool (some { c with
        attributes := c.attributes ++
          [⟨UInt16.ofNat (c.pool.size + 1), putU16 (UInt16.ofNat c.pool.size)⟩] })
        ((c.pool.append text).append name) := by
  intro text name hText hNameNew
  have hValue := Pool.yields_internText (hSound.utf8s_eq_none hText) hShort
    (Nat.lt_of_succ_lt hRoom)
  obtain ⟨hSound', -, -⟩ := Pool.internText_spec hSound hValue
  have hSize : (c.pool.append text).size = c.pool.size + 1 := Pool.size_append ..
  have hAttribute := Pool.yields_internText (hSound'.utf8s_eq_none hNameNew) (by decide)
    (hSize.trans_lt hRoom)
  rw [hSize] at hAttribute
  refine yields_bind.2 ⟨n, c.pool, yields_liftM.2 ⟨hName, rfl⟩, ?_⟩
  refine yields_bind.2 ⟨none, c.pool, yields_liftM.2 ⟨hFound, rfl⟩, ?_⟩
  exact yields_bind.2 ⟨_, _, hValue, yields_bind.2 ⟨_, _, hAttribute, yields_pure.2 ⟨rfl, rfl⟩⟩⟩

end ClassFile

end Jarsmith
