import Jarsmith.Proofs.Jar.Entries
import Jarsmith.Proofs.Jar.Fixes
import Jarsmith.Proofs.Remap.Silent
import Jarsmith.Proofs.Remap.Written

/-!
# Renaming in stages

A class can be renamed, and then be given a source file and local variables that go with its new
name, in stages of which each reads the bytes of the one before. The stage that does all of this
reads the renamed class once and looks the tables of its methods up before a source file is named.

* `ClassFile.attributesNamed_of_apply` — the tables of a renamed class can be looked up, if nothing
  stands behind the nested attributes of a body.
* `Transformer.staged_of_fixNames`, `Transformer.fixNames_of_staged` — both fixes in one go and in
  stages.
* `Transformer.apply_remap_staged` — the stage and the stages.
-/

namespace Jarsmith.ClassFile

open Outcome

variable {c c' d : ClassFile} {r : Remapper} {bytes written : Bytes}

/-- Nothing stands behind the nested attributes of the body of any method. -/
def CodeFilled (c : ClassFile) : Prop :=
  ∀ m ∈ c.methods, ∀ a ∈ m.attributes, c.pool.storedText a.name = .ok AttributeName.code →
    CodeBody.read.fills a.info = true

/-- The attributes of the methods of a renamed class that is read again have names that are texts,
and so do those of the bodies of methods if nothing stood behind them. -/
theorem attributesNamed_of_apply (hParse : parse bytes = .ok c) (hFilled : c.CodeFilled)
    (hApply : r.apply c = .ok c') (hWritten : c'.toBytes = .ok written)
    (hAgain : parse written = .ok d) : d.AttributesNamed := by
  obtain ⟨owner, hReached, hKept⟩ := kept_of_apply hParse hApply
  obtain ⟨hEntries, hEq⟩ := eq_of_parse_apply hParse hApply hWritten hAgain
  have hText : ∀ {i kind}, c.pool.storedText i = .ok kind → d.pool.text i = .ok kind := by
    intro i kind hKind
    rw [Pool.text_of_entries hEntries]
    exact hReached.keeps.text (Pool.storedText_eq_ok.1 hKind)
  have hNamed : ∀ {a a' : Attribute}, ClassRemapping.Named ⟨r, c.pool, owner⟩ a a' →
      ∃ s, d.pool.text a'.name = .ok s := by
    rintro a a' ⟨hName, kind, hKind⟩
    rw [hName]
    exact ⟨kind, hText hKind⟩
  have hAttribute : ∀ a a' : Attribute, (c.pool.storedText a.name = .ok AttributeName.code →
      CodeBody.read.fills a.info = true) → True →
        ClassRemapping.MethodAttributeKept ⟨r, c.pool, owner⟩ a a' →
          (∃ s, d.pool.text a'.name = .ok s) ∧ (d.pool.text a'.name = .ok AttributeName.code →
            ∀ code, Code.split a'.info = .ok code →
              ∀ b ∈ code.attributes, ∃ s, d.pool.text b.name = .ok s) := by
    rintro a a' hFills - ⟨hName, kind, hKind, hBody⟩
    rw [hName]
    refine ⟨⟨kind, hText hKind⟩, fun hCode code hSplit => ?_⟩
    obtain rfl := Except.ok.inj ((hText hKind).symm.trans hCode)
    obtain ⟨_, -, hNested⟩ := (hBody rfl).forall₂_nested (hFills hKind) hSplit
    exact forall_of_forall₂ (fun _ _ => trivial) (fun _ _ => trivial) hNested
      fun _ _ _ _ => hNamed
  have hMethods : ∀ m ∈ c'.methods, ∀ a ∈ m.attributes, (∃ s, d.pool.text a.name = .ok s) ∧
      (d.pool.text a.name = .ok AttributeName.code → ∀ code, Code.split a.info = .ok code →
        ∀ b ∈ code.attributes, ∃ s, d.pool.text b.name = .ok s) :=
    forall_of_forall₂ hFilled (fun _ _ => trivial) hKept.methods fun _ _ hFills _ h =>
      forall_of_forall₂ hFills (fun _ _ => trivial) h.attributes hAttribute
  intro m hm
  rw [hEq] at hm
  exact ⟨fun a ha => (hMethods m hm a ha).1, fun a ha => (hMethods m hm a ha).2⟩

end Jarsmith.ClassFile

namespace Jarsmith.Transformer

open Outcome ClassFile
open Pool (Yields AddsTexts yields_bind yields_pure)

variable {r : Remapper} {e e' : JarEntry} {c : ClassFile}

/-- A class under its new name, in stages: the renamed class is written, and the fixes read what was
written before them. The entry moves to the path of the new name. -/
def remapStaged (r : Remapper) (e : JarEntry) : ClassResult (Option JarEntry) := do
  let c ← parse e.data
  let old ← c.name
  let remapped ← (← r.apply c).toBytes
  let fixed ← run [fixSourceFile, fixLocalNames] (e.withData remapped)
  let renamed ← (← parse remapped).name
  pure (fixed.map fun e' =>
    if renamed = old then e' else .ofArchive ⟨e.pathForClass renamed, e.time, e'.data⟩)

-- ---------------------------------------------------------------------------
-- One fix
-- ---------------------------------------------------------------------------

theorem fixClass_eq_ok {f : ClassFile → Pool.Edit (Option ClassFile)}
    (hParse : parse e.data = .ok c) :
    fixClass f e = .ok e' ↔ ∃ fixed data, c.fix (f c) = .ok fixed ∧
      (fixed.map ClassFile.toBytes).getD (.ok e.data) = .ok data ∧ e' = e.withData data := by
  rw [fixClass, hParse]
  show (c.fix (f c) >>= _) = _ ↔ _
  rw [bind_ok_iff]
  refine exists_congr fun fixed => ?_
  cases fixed with
  | none =>
    simp only [pure_ok_iff, Option.map_none, Option.getD_none, Except.ok.injEq]
    constructor
    · rintro ⟨hFix, rfl⟩
      exact ⟨e.data, hFix, rfl, rfl⟩
    · rintro ⟨_, hFix, rfl, rfl⟩
      exact ⟨hFix, rfl⟩
  | some fixed =>
    simp only [bind_ok_iff, pure_ok_iff, Option.map_some, Option.getD_some]
    constructor
    · rintro ⟨hFix, data, hData, rfl⟩
      exact ⟨data, hFix, hData, rfl⟩
    · rintro ⟨data, hFix, hData, rfl⟩
      exact ⟨hFix, data, hData, rfl⟩

/-- Both fixes in one go. -/
theorem fixNames_eq_ok {o : Option ClassFile} : c.fix (fixNames c) = .ok o ↔
    ∃ first p second q, Yields c.fixSourceFile c.pool first p ∧
      Yields (first.getD c).fixLocalNames p second q ∧
        o = (second.or first).map fun d => { d with pool := q } := by
  rw [fix_eq_ok]
  constructor
  · rintro ⟨fixed, q, h, rfl⟩
    obtain ⟨first, p, hFirst, h⟩ := yields_bind.1 h
    obtain ⟨second, _, hSecond, h⟩ := yields_bind.1 h
    obtain ⟨rfl, rfl⟩ := yields_pure.1 h
    exact ⟨first, p, second, _, hFirst, hSecond, rfl⟩
  · rintro ⟨first, p, second, q, hFirst, hSecond, rfl⟩
    exact ⟨_, q, yields_bind.2 ⟨first, p, hFirst, yields_bind.2 ⟨second, q, hSecond,
      yields_pure.2 ⟨rfl, rfl⟩⟩⟩, rfl⟩

-- ---------------------------------------------------------------------------
-- Both fixes
-- ---------------------------------------------------------------------------

/-- What both fixes make of a class in one go they make of it in two stages. -/
theorem staged_of_fixNames {o : Option ClassFile} {data : Bytes} (hParse : parse e.data = .ok c)
    (hFix : c.fix (fixNames c) = .ok o)
    (hData : (o.map ClassFile.toBytes).getD (.ok e.data) = .ok data) :
    ∃ mid, fixClass ClassFile.fixSourceFile e = .ok mid ∧
      fixClass ClassFile.fixLocalNames mid = .ok (e.withData data) := by
  obtain ⟨first, p, second, q, hFirst, hSecond, rfl⟩ := fixNames_eq_ok.1 hFix
  obtain ⟨rfl, rfl⟩ | ⟨list, texts, rfl, hKept, hIntact, hAdds⟩ := fixSourceFile_spec hParse hFirst
  · -- the second stage reads what the first one read
    rw [Option.or_none] at hData
    refine ⟨e, (fixClass_eq_ok hParse).2 ⟨none, e.data, ?_, rfl, rfl⟩,
      (fixClass_eq_ok hParse).2 ⟨_, data, ?_, hData, rfl⟩⟩
    · exact fix_eq_ok.2 ⟨none, c.pool, hFirst, rfl⟩
    · exact fix_eq_ok.2 ⟨second, q, hSecond, rfl⟩
  · replace hSecond : Yields ({ c with attributes := list } : ClassFile).fixLocalNames p second q :=
      hSecond
    have hSize := ((interns_fixLocalNames _).addsNames _ _ _ hIntact.sound hSecond).2.size_le
    have hLater := yields_fixLocalNames_view (c := { c with attributes := list })
      (fun _ _ _ h => find_longer hAdds.grows h) hSecond
    have hWrites : ∀ {d : ClassFile}, d.toBytes = .ok data → d.pool = q → d.attributes = list →
        ∃ written, ({ c with pool := p, attributes := list } : ClassFile).toBytes = .ok written ∧
          parse written = .ok { c with pool := p, attributes := list } := by
      rintro d hd rfl rfl
      obtain ⟨hPool, hWrite⟩ := canWrite_of_toBytes hd
      exact exists_toBytes_attributes hParse hIntact hAdds hKept (Nat.lt_of_le_of_lt hSize hPool)
        hWrite
    have hStage : ∀ {written}, ({ c with pool := p, attributes := list } : ClassFile).toBytes =
        .ok written → fixClass ClassFile.fixSourceFile e = .ok (e.withData written) := by
      intro written hWritten
      exact (fixClass_eq_ok hParse).2 ⟨_, _, fix_eq_ok.2 ⟨_, p, hFirst, rfl⟩, hWritten, rfl⟩
    cases second with
    | none =>
      obtain rfl := pool_of_fixLocalNames_none hSecond
      obtain ⟨written, hWritten, hRead⟩ := hWrites hData rfl rfl
      obtain rfl := Except.ok.inj (hWritten.symm.trans hData)
      exact ⟨_, hStage hWritten, (fixClass_eq_ok hRead).2
        ⟨none, _, fix_eq_ok.2 ⟨none, _, hLater, rfl⟩, rfl, rfl⟩⟩
    | some d =>
      obtain ⟨methods, rfl⟩ := eq_of_fixLocalNames hSecond
      obtain ⟨written, hWritten, hRead⟩ := hWrites hData rfl rfl
      exact ⟨_, hStage hWritten, (fixClass_eq_ok hRead).2
        ⟨_, data, fix_eq_ok.2 ⟨_, q, hLater, rfl⟩, hData, rfl⟩⟩

/-- What two stages make of a class both fixes make of it in one go, if the tables of its methods
can be looked up before a source file is named. -/
theorem fixNames_of_staged {mid : JarEntry} (hParse : parse e.data = .ok c)
    (hNamed : c.AttributesNamed) (hStage : fixClass ClassFile.fixSourceFile e = .ok mid)
    (hStage' : fixClass ClassFile.fixLocalNames mid = .ok e') :
    ∃ o data, c.fix (fixNames c) = .ok o ∧
      (o.map ClassFile.toBytes).getD (.ok e.data) = .ok data ∧ e' = e.withData data := by
  obtain ⟨_, data₁, hFix, hData₁, rfl⟩ := (fixClass_eq_ok hParse).1 hStage
  obtain ⟨first, p, hFirst, rfl⟩ := fix_eq_ok.1 hFix
  obtain ⟨rfl, rfl⟩ | ⟨list, texts, rfl, hKept, hIntact, hAdds⟩ := fixSourceFile_spec hParse hFirst
  · obtain rfl := Except.ok.inj hData₁
    obtain ⟨_, data, hFix, hData, rfl⟩ := (fixClass_eq_ok hParse).1 hStage'
    obtain ⟨second, q, hSecond, rfl⟩ := fix_eq_ok.1 hFix
    refine ⟨_, data, fixNames_eq_ok.2 ⟨none, c.pool, second, q, hFirst, hSecond, rfl⟩, ?_, rfl⟩
    rw [Option.or_none]
    exact hData
  · obtain ⟨hPool, hWrite⟩ := canWrite_of_toBytes hData₁
    obtain ⟨written, hWritten, hRead⟩ :=
      exists_toBytes_attributes hParse hIntact hAdds hKept hPool hWrite
    obtain rfl := Except.ok.inj (hWritten.symm.trans hData₁)
    obtain ⟨_, data, hFix, hData, rfl⟩ := (fixClass_eq_ok hRead).1 hStage'
    obtain ⟨second, q, hSecond, rfl⟩ := fix_eq_ok.1 hFix
    have hBefore : Yields ({ c with attributes := list } : ClassFile).fixLocalNames p
        (second.map fun d => { d with pool := c.pool }) q :=
      yields_fixLocalNames_view (c := { c with pool := p, attributes := list })
        (fun _ hm _ h => hNamed.find_shorter hm hAdds h) hSecond
    refine ⟨_, data, fixNames_eq_ok.2 ⟨_, p, _, q, hFirst, hBefore, rfl⟩, ?_, rfl⟩
    cases second with
    | none =>
      obtain rfl := pool_of_fixLocalNames_none hSecond
      obtain rfl := Except.ok.inj hData
      exact hWritten
    | some d => exact hData

/-- No fix changes the name of a class. -/
theorem name_of_fixNames {o : Option ClassFile} {n : String} (hParse : parse e.data = .ok c)
    (hName : c.name = .ok n) (hFix : c.fix (fixNames c) = .ok o) : (o.getD c).name = .ok n := by
  obtain ⟨first, p, second, q, hFirst, hSecond, rfl⟩ := fixNames_eq_ok.1 hFix
  obtain ⟨hSound, hGrows⟩ :=
    (interns_fixSourceFile c).addsNames _ _ _ (sound_decode (decode_of_parse hParse)) hFirst
  have hLater := hGrows.trans_same ((interns_fixLocalNames _).addsNames _ _ _ hSound hSecond).2
  have hThis : (first.getD c).thisClass = c.thisClass := by
    obtain ⟨rfl, -⟩ | ⟨list, texts, rfl, -⟩ := fixSourceFile_spec hParse hFirst
    · rfl
    · rfl
  cases second with
  | some d =>
    obtain ⟨methods, rfl⟩ := eq_of_fixLocalNames hSecond
    show q.className (first.getD c).thisClass = .ok n
    rw [hThis]
    exact hLater.className hName
  | none =>
    cases first with
    | some d =>
      show q.className d.thisClass = .ok n
      rw [show d.thisClass = c.thisClass from hThis]
      exact hLater.className hName
    | none => exact hName

-- ---------------------------------------------------------------------------
-- Renaming
-- ---------------------------------------------------------------------------

/-- The entry of a class that is called `new` and was called `old`, with the bytes `data`. -/
def moved (e : JarEntry) (old new : String) (data : Bytes) : JarEntry :=
  if new = old then e.withData data else .ofArchive ⟨e.pathForClass new, e.time, data⟩

/-- The class in an entry, called `old`, is written as `remapped` under its new names, which is read
as the class `d` called `new`. -/
structure Remapped (r : Remapper) (e : JarEntry) (c : ClassFile) (old : String) (remapped : Bytes)
    (d : ClassFile) (new : String) : Prop where
  parse : ClassFile.parse e.data = .ok c
  old : c.name = .ok old
  apply : ∃ c', r.apply c = .ok c' ∧ c'.toBytes = .ok remapped
  again : ClassFile.parse remapped = .ok d
  new : d.name = .ok new

theorem remapClass_iff : remapClass r e = .ok e' ↔ ∃ c old remapped d new o data,
    Remapped r e c old remapped d new ∧ d.fix (fixNames d) = .ok o ∧
      (o.map ClassFile.toBytes).getD (.ok remapped) = .ok data ∧ e' = moved e old new data := by
  have hPlaced : ∀ {old new : String} {data : Bytes}, (if new = old then pure (e.withData data)
      else pure (.ofArchive ⟨e.pathForClass new, e.time, data⟩)) = (.ok e' : ClassResult JarEntry) ↔
        e' = moved e old new data := fun {old new data} => by
    unfold moved
    split <;> exact pure_ok_iff.trans eq_comm
  simp only [remapClass, bind_ok_iff, hPlaced]
  constructor
  · rintro ⟨c, hParse, old, hOld, c', hApply, remapped, hBytes, d, hAgain, o, hFix, renamed,
      hRenamed, data, hData, rfl⟩
    obtain ⟨-, new, hNew⟩ := parse_eq_ok.1 hAgain
    have hName := name_of_fixNames (e := e.withData remapped) hAgain hNew hFix
    obtain rfl := Except.ok.inj (hName.symm.trans hRenamed)
    exact ⟨c, old, remapped, d, new, o, data, ⟨hParse, hOld, ⟨c', hApply, hBytes⟩, hAgain, hNew⟩,
      hFix, hData, rfl⟩
  · rintro ⟨c, old, remapped, d, new, o, data, ⟨hParse, hOld, ⟨c', hApply, hBytes⟩, hAgain, hNew⟩,
      hFix, hData, rfl⟩
    exact ⟨c, hParse, old, hOld, c', hApply, remapped, hBytes, d, hAgain, o, hFix, new,
      name_of_fixNames (e := e.withData remapped) hAgain hNew hFix, data, hData, rfl⟩

/-- A fix that fails fails the stage. -/
theorem remapClass_of_fix {old new : String} {remapped : Bytes} {d : ClassFile} {fault : ClassFault}
    (h : Remapped r e c old remapped d new) (hFix : d.fix (fixNames d) = .error fault) :
    remapClass r e = .error fault := by
  obtain ⟨hParse, hOld, ⟨c', hApply, hBytes⟩, hAgain, -⟩ := h
  simp only [remapClass, bind_error_iff]
  exact .inr ⟨c, hParse, .inr ⟨old, hOld, .inr ⟨c', hApply, .inr ⟨remapped, hBytes,
    .inr ⟨d, hAgain, .inl hFix⟩⟩⟩⟩⟩

/-- Both fixes in stages. -/
theorem run_fixes (hKind : e.kind = .classFile) : run [fixSourceFile, fixLocalNames] e =
    some <$> (fixClass ClassFile.fixSourceFile e >>= fixClass ClassFile.fixLocalNames) := by
  have hFirst : fixSourceFile.apply e = some <$> fixClass ClassFile.fixSourceFile e := if_pos hKind
  rw [run_pair, hFirst]
  cases hMid : fixClass ClassFile.fixSourceFile e with
  | error fault => rfl
  | ok mid =>
    obtain ⟨data, rfl⟩ := withData_of_fixClass hMid
    exact if_pos (hKind : (e.withData data).kind = .classFile)

theorem remapStaged_iff {o : Option JarEntry} (hKind : e.kind = .classFile) :
    remapStaged r e = .ok o ↔ ∃ c old remapped d new mid last,
      Remapped r e c old remapped d new ∧
        fixClass ClassFile.fixSourceFile (e.withData remapped) = .ok mid ∧
          fixClass ClassFile.fixLocalNames mid = .ok last ∧ o = some (if new = old then last
            else .ofArchive ⟨e.pathForClass new, e.time, last.data⟩) := by
  have hRun : ∀ data, run [fixSourceFile, fixLocalNames] (e.withData data) =
      some <$> (fixClass ClassFile.fixSourceFile (e.withData data) >>=
        fixClass ClassFile.fixLocalNames) := fun data => run_fixes hKind
  simp only [remapStaged, hRun, bind_ok_iff, map_ok_iff, pure_ok_iff]
  constructor
  · rintro ⟨c, hParse, old, hOld, c', hApply, remapped, hBytes, _,
      ⟨last, ⟨mid, hFirst, hSecond⟩, rfl⟩, d, hAgain, new, hNew, rfl⟩
    exact ⟨c, old, remapped, d, new, mid, last, ⟨hParse, hOld, ⟨c', hApply, hBytes⟩, hAgain, hNew⟩,
      hFirst, hSecond, rfl⟩
  · rintro ⟨c, old, remapped, d, new, mid, last, ⟨hParse, hOld, ⟨c', hApply, hBytes⟩, hAgain, hNew⟩,
      hFirst, hSecond, rfl⟩
    exact ⟨c, hParse, old, hOld, c', hApply, remapped, hBytes, _,
      ⟨last, ⟨mid, hFirst, hSecond⟩, rfl⟩, d, hAgain, new, hNew, rfl⟩

/-- **A class is renamed in one go as it is in stages.** What the stage makes of a class the stages
make of it too; and what the stages make of it the stage does, if nothing stands behind the nested
attributes of a body. Behind them may stand what is read as an attribute once the class is renamed,
and its name may be a text only since the source file was named. -/
theorem apply_remap_staged (hKind : e.kind = .classFile) :
    (∀ o, (remap r).apply e = .ok o → remapStaged r e = .ok o) ∧
      ((∀ c, parse e.data = .ok c → c.CodeFilled) →
        ∀ o, (remap r).apply e = .ok o ↔ remapStaged r e = .ok o) := by
  have hApply : (remap r).apply e = some <$> remapClass r e := by
    rw [apply, hKind]
  have hForward : ∀ o, (remap r).apply e = .ok o → remapStaged r e = .ok o := by
    intro o h
    rw [hApply, map_ok_iff] at h
    obtain ⟨e', hRemap, rfl⟩ := h
    obtain ⟨c, old, remapped, d, new, o, data, hRemapped, hFix, hData, rfl⟩ :=
      remapClass_iff.1 hRemap
    obtain ⟨mid, hFirst, hSecond⟩ :=
      staged_of_fixNames (e := e.withData remapped) hRemapped.again hFix hData
    exact (remapStaged_iff hKind).2
      ⟨c, old, remapped, d, new, mid, _, hRemapped, hFirst, hSecond, rfl⟩
  refine ⟨hForward, fun hFilled o => ⟨hForward o, fun h => ?_⟩⟩
  obtain ⟨c, old, remapped, d, new, mid, last, hRemapped, hFirst, hSecond, rfl⟩ :=
    (remapStaged_iff hKind).1 h
  obtain ⟨c', hRenamed, hWritten⟩ := hRemapped.apply
  have hNamed := attributesNamed_of_apply hRemapped.parse (hFilled c hRemapped.parse) hRenamed
    hWritten hRemapped.again
  obtain ⟨o, data, hFix, hData, rfl⟩ :=
    fixNames_of_staged (e := e.withData remapped) hRemapped.again hNamed hFirst hSecond
  rw [hApply, map_ok_iff]
  exact ⟨_, remapClass_iff.2 ⟨c, old, remapped, d, new, o, data, hRemapped, hFix, hData, rfl⟩, rfl⟩

-- ---------------------------------------------------------------------------
-- A body with and without more bytes
-- ---------------------------------------------------------------------------

/-- The stages for a class whose source file is named and whose local variables are fine. -/
theorem remapStaged_of_source {old new : String} {remapped data : Bytes} {d d₁ d₂ : ClassFile}
    {p : Pool} (hKind : e.kind = .classFile) (hRemapped : Remapped r e c old remapped d new)
    (hSource : Yields d.fixSourceFile d.pool (some d₁) p)
    (hData : ({ d₁ with pool := p } : ClassFile).toBytes = .ok data) (hNamed : parse data = .ok d₂)
    (hLocals : Yields d₂.fixLocalNames d₂.pool none d₂.pool) :
    remapStaged r e = .ok (some (moved e old new data)) := by
  have hFirst : fixClass ClassFile.fixSourceFile (e.withData remapped) = .ok (e.withData data) :=
    (fixClass_eq_ok (e := e.withData remapped) hRemapped.again).2
      ⟨_, data, fix_eq_ok.2 ⟨_, p, hSource, rfl⟩, hData, rfl⟩
  have hSecond : fixClass ClassFile.fixLocalNames (e.withData data) = .ok (e.withData data) :=
    (fixClass_eq_ok (e := e.withData data) hNamed).2
      ⟨none, data, fix_eq_ok.2 ⟨none, _, hLocals, rfl⟩, rfl, rfl⟩
  exact (remapStaged_iff hKind).2 ⟨c, old, remapped, d, new, _, _, hRemapped, hFirst, hSecond, rfl⟩

/-- A class with a method `a` that has the body `info`. -/
def bodyUser (constants : List Constant) (info : Bytes) (attributes : List Attribute) : ClassFile :=
  ⟨0, 52, Pool.ofConstants constants, 0x20, 2, none, [], [], [⟨0, 1, 4, [⟨3, info⟩]⟩], attributes⟩

/-- The bytes that hold `bodyUser`. -/
def bodyUserBytes (constants : List Constant) (info : Bytes) (attributes : List Attribute) :
    Bytes :=
  magic ++ putU16 0 ++ putU16 52 ++ Pool.written constants ++
    (bodyUser constants info attributes).behindPool

/-- The constants of a class `a`. -/
def bodyConstants : List Constant :=
  [.utf8 [97], .classRef 1, .utf8 [67, 111, 100, 101], .utf8 [40, 41, 86]]

/-- The constants of the class when it is called `b`. -/
def movedConstants : List Constant :=
  [.utf8 [97], .classRef 5, .utf8 [67, 111, 100, 101], .utf8 [40, 41, 86], .utf8 [98]]

/-- The texts for the source file of a class whose name is one letter. -/
def sourceTexts (letter : UInt8) : List Constant :=
  [.utf8 [letter, 46, 106, 97, 118, 97], .utf8 [83, 111, 117, 114, 99, 101, 70, 105, 108, 101]]

/-- An instruction, and no exceptions. -/
def bodyFront : Bytes := [0, 0, 0, 0, 0, 0, 0, 1, 0xB1, 0, 0]

/-- Two attributes called `a`, one of eight bytes and an empty one. -/
def bodyTable : Bytes := [0, 2, 0, 1, 0, 0, 0, 8, 0, 5, 0, 0, 0, 0, 0, 0, 0, 1, 0, 0, 0, 0]

/-- The body with nothing behind its attributes. -/
def filledBody : Bytes := bodyFront ++ bodyTable

/-- The body with eight bytes behind its attributes. -/
def longBody : Bytes := filledBody ++ List.replicate 8 0

/-- The long body when its class was renamed: as many bytes as stand behind the attributes went to
the front, and the second attribute that is read now has the index 5 as its name. -/
def shiftedBody : Bytes := bodyFront ++ bodyTable.take 8 ++ bodyTable

def bodyUserEntry (info : Bytes) : JarEntry :=
  .ofArchive ⟨"a.class", none, bodyUserBytes bodyConstants info []⟩

/-- The class gets a slot for its new name. -/
theorem bodyUser_apply : shortNames.apply (bodyUser bodyConstants filledBody []) =
    .ok { bodyUser bodyConstants filledBody [] with
      pool := ((Pool.ofConstants bodyConstants).append (.utf8 [98])).replaced 2 (.classRef 1)
        (.classRef 5) } := by
  let c := bodyUser bodyConstants filledBody []
  let p := c.pool
  let p₁ := (p.append (.utf8 [98])).replaced 2 (.classRef 1) (.classRef 5)
  let r : ClassRemapping := ⟨shortNames, p, "a"⟩
  have hSound : p.Sound := Pool.sound_ofConstants (by decide)
  obtain ⟨-, hSlot⟩ : p₁.Sound ∧ Yields (r.remapConstant [] 2) p () p₁ :=
    remapConstant_shortNames hSound rfl rfl (by decide) (by decide)
  have hPool : Yields (r.remapPool []) p () p₁ := by
    show Yields ([1, 2, 3, 4].forM (r.remapConstant [])) p () p₁
    exact yields_bind.2 ⟨(), p, rfl, yields_bind.2 ⟨(), p₁, hSlot, rfl⟩⟩
  exact bind_ok_iff.2 ⟨"a", rfl, bind_ok_iff.2 ⟨[], rfl,
    edit_eq_ok.2 ⟨c, p₁, yields_bind.2 ⟨(), p₁, hPool, rfl⟩, rfl⟩⟩⟩

theorem remapped_bodyUser : Remapped shortNames (bodyUserEntry filledBody)
    (bodyUser bodyConstants filledBody []) "a" (bodyUserBytes movedConstants filledBody [])
      (bodyUser movedConstants filledBody []) "b" where
  parse := by rfl
  old := by rfl
  apply := ⟨_, bodyUser_apply, by rfl⟩
  again := by rfl
  new := by rfl

/-- The class moves, and its source file is named. -/
theorem apply_remap_staged_bodyUser : (bodyUserEntry filledBody).kind = .classFile ∧
    ∃ o, (remap shortNames).apply (bodyUserEntry filledBody) = .ok (some o) ∧
      remapStaged shortNames (bodyUserEntry filledBody) = .ok (some o) ∧ o.name = "b.class" := by
  have hRemapped := remapped_bodyUser
  have hSource := yields_fixSourceFile_new (c := bodyUser movedConstants filledBody [])
    (Pool.sound_ofConstants (by decide)) hRemapped.new rfl (by decide) (by decide) (by decide)
    (by decide)
  let data := bodyUserBytes (movedConstants ++ sourceTexts 98) filledBody [⟨7, [0, 6]⟩]
  have hNamed : parse data = .ok
      (bodyUser (movedConstants ++ sourceTexts 98) filledBody [⟨7, [0, 6]⟩]) := by rfl
  have hStaged := remapStaged_of_source rfl hRemapped hSource (by rfl) hNamed (by rfl)
  have hFills : CodeBody.read.fills filledBody = true := by decide
  have hFilled : ∀ c, parse (bodyUserEntry filledBody).data = .ok c → c.CodeFilled := by
    intro c hParse m hm a ha _
    obtain rfl := Except.ok.inj (hRemapped.parse.symm.trans hParse)
    obtain rfl := List.mem_singleton.1 hm
    obtain rfl := List.mem_singleton.1 ha
    exact hFills
  exact ⟨rfl, _, ((apply_remap_staged rfl).2 hFilled _).2 hStaged, hStaged, rfl⟩

theorem remapped_bodyUser_long : Remapped .silent (bodyUserEntry longBody)
    (bodyUser bodyConstants longBody []) "a" (bodyUserBytes bodyConstants shiftedBody [])
      (bodyUser bodyConstants shiftedBody []) "a" where
  parse := by rfl
  old := by rfl
  apply := ⟨bodyUser bodyConstants shiftedBody [], by rfl, by rfl⟩
  again := by rfl
  new := by rfl

/-- If bytes stand behind the attributes of a body, a class without new names may pass in stages
only: the index at which the source file is named is the name of an attribute by then. -/
theorem not_apply_remap_staged : (bodyUserEntry longBody).kind = .classFile ∧
    (remap .silent).apply (bodyUserEntry longBody) = .error .undecodable ∧
      remapStaged .silent (bodyUserEntry longBody) = .ok (some ((bodyUserEntry longBody).withData
        (bodyUserBytes (bodyConstants ++ sourceTexts 97) shiftedBody [⟨6, [0, 5]⟩]))) := by
  have hRemapped := remapped_bodyUser_long
  have hSource := yields_fixSourceFile_new (c := bodyUser bodyConstants shiftedBody [])
    (Pool.sound_ofConstants (by decide)) hRemapped.new rfl (by decide) (by decide) (by decide)
    (by decide)
  let data := bodyUserBytes (bodyConstants ++ sourceTexts 97) shiftedBody [⟨6, [0, 5]⟩]
  have hNamed : parse data = .ok
      (bodyUser (bodyConstants ++ sourceTexts 97) shiftedBody [⟨6, [0, 5]⟩]) := by rfl
  have hFix : (bodyUser bodyConstants shiftedBody []).fix
      (fixNames (bodyUser bodyConstants shiftedBody [])) = .error .undecodable := by
    rw [ClassFile.fix, fixNames, Pool.run_bind_of_yields hSource]
    rfl
  refine ⟨rfl, ?_, remapStaged_of_source rfl hRemapped hSource (by rfl) hNamed (by rfl)⟩
  show some <$> remapClass .silent (bodyUserEntry longBody) = _
  rw [remapClass_of_fix hRemapped hFix]
  rfl

end Jarsmith.Transformer
