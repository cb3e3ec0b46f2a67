import Jarsmith.Proofs.AccessWidener.Relaxing
import Jarsmith.Proofs.Jar.Entries

/-!
# Two wideners in turn

A class that one widener changed is written, read and handed to the next one. What comes out is what
the merge of both makes of the class in one go, so neither their order nor a second round matters.

* `Transformer.widened_cases` — the four ways in which a class goes through a widener.
* `Transformer.editClass_merge` — two wideners in turn on a class.
* `Transformer.run_widenAccess_merge` — on any entry.
-/

namespace Jarsmith.Transformer

open Outcome ClassFile AccessWidener

variable {v w : AccessWidener} {e e' : JarEntry} {c : ClassFile} {t : RuleTargets}

-- ---------------------------------------------------------------------------
-- One widener
-- ---------------------------------------------------------------------------

section Cases

theorem widen_unparsable {fault : ClassFault} (hParse : parse e.data = .error fault) :
    editClass w.apply changed e = .error fault := by
  rw [editClass, hParse]
  rfl

theorem widen_unreadable {fault : ClassFault} (hParse : parse e.data = .ok c)
    (hTargets : c.ruleTargets = .error fault) : editClass w.apply changed e = .error fault := by
  rw [editClass, hParse]
  show (w.apply c >>= _) = _
  rw [apply_eq, hTargets]
  rfl

theorem widen_same (hParse : parse e.data = .ok c) (hTargets : c.ruleTargets = .ok t)
    (hSame : w.widened c t = c) : editClass w.apply changed e = .ok e := by
  have hUnchanged : ¬ changed c (w.widened c t) = true := by
    rw [changed_widened hTargets]
    exact not_not.2 hSame
  rw [editClass, hParse]
  show (w.apply c >>= _) = _
  rw [apply_eq, hTargets]
  exact if_neg hUnchanged

theorem widen_other (hParse : parse e.data = .ok c) (hTargets : c.ruleTargets = .ok t)
    (hOther : w.widened c t ≠ c) :
    editClass w.apply changed e = e.withData <$> (w.widened c t).toBytes := by
  have hChanged : changed c (w.widened c t) = true := (changed_widened hTargets).2 hOther
  rw [editClass, hParse, map_eq_pure_bind]
  show (w.apply c >>= _) = _
  rw [apply_eq, hTargets]
  exact if_pos hChanged

end Cases

/-- Wideners with the same rules do the same to every entry. -/
theorem apply_widenAccess_congr (h : SameRules v w) :
    (widenAccess v).apply e = (widenAccess w).apply e := by
  have hApply : v.apply = w.apply := funext fun c => by
    rw [apply_eq, apply_eq]
    exact congrArg (· <$> c.ruleTargets) (funext fun t => h.widened)
  rw [apply, apply, h.isEmpty, hApply]

-- ---------------------------------------------------------------------------
-- What a widener may do
-- ---------------------------------------------------------------------------

/-- A widener with rules, on the entry of a class. -/
theorem apply_widenAccess_class (hKind : e.kind = .classFile) (hRules : w.isEmpty = false) :
    (widenAccess w).apply e = some <$> editClass w.apply changed e := by
  rw [apply, hRules]
  exact if_pos ⟨hKind, rfl⟩

theorem apply_widenAccess_empty (hEmpty : w.isEmpty = true) :
    (widenAccess w).apply e = .ok (some e) := by
  rw [apply, hEmpty]
  exact if_neg fun h => absurd h.2 (by decide)

theorem apply_widenAccess_other (hKind : e.kind ≠ .classFile) :
    (widenAccess w).apply e = .ok (some e) := if_neg (hKind ∘ And.left)

/-- A class that was changed is written and read back, or its pool is too long for a class file, and
then no change of its flags can be written. -/
theorem toBytes_widened (hParse : parse e.data = .ok c) (hTargets : c.ruleTargets = .ok t) :
    (∃ fault, ∀ w : AccessWidener, (w.widened c t).toBytes = .error fault) ∧ 65536 ≤ c.pool.size ∨
      (∀ w : AccessWidener, ∃ written, (w.widened c t).toBytes = .ok written ∧
        parse written = .ok (w.widened c t)) ∧ c.pool.size < 65536 := by
  have hFits : ∀ w : AccessWidener, (w.widened c t).Fits := fun w =>
    fits_widened (fits_parse hParse) hTargets
  have hIntact := intact_parse hParse
  cases hPool : c.pool.toBytes with
  | error fault =>
    refine .inl ⟨⟨fault, fun w => ?_⟩, Nat.le_of_not_lt fun hSize => ?_⟩
    · rw [(hFits w).toBytes_eq, widened_pool, hPool]
      rfl
    · obtain ⟨written, hWritten, -⟩ := hIntact.readable.toBytes hSize
      exact nomatch hPool.symm.trans hWritten
  | ok pool =>
    have hSize := Pool.size_lt_of_toBytes hPool
    obtain ⟨-, n, hName⟩ := parse_eq_ok.1 hParse
    exact .inr ⟨fun w => (hFits w).exists_toBytes hIntact.readable hSize hName, hSize⟩

/-- When a widener with rules succeeds on a class. -/
theorem exists_editClass (hParse : parse e.data = .ok c) :
    (∃ e', editClass w.apply changed e = .ok e') ↔
      c.CanWiden ∧ (w.apply c = .ok c ∨ c.pool.size < 65536) := by
  obtain ⟨-, n, hName⟩ := parse_eq_ok.1 hParse
  rw [← exists_ruleTargets hName]
  cases hTargets : c.ruleTargets with
  | error fault =>
    rw [widen_unreadable hParse hTargets]
    exact iff_of_false nofun fun h => nomatch h.1
  | ok t =>
    have hLeaves : w.apply c = .ok c ↔ w.widened c t = c := by
      rw [apply_eq, hTargets]
      exact ⟨Except.ok.inj, congrArg Except.ok⟩
    rw [hLeaves]
    by_cases hSame : w.widened c t = c
    · rw [widen_same hParse hTargets hSame]
      exact iff_of_true ⟨e, rfl⟩ ⟨⟨t, rfl⟩, .inl hSame⟩
    · rw [widen_other hParse hTargets hSame]
      obtain ⟨⟨fault, hFault⟩, hSize⟩ | ⟨hWritten, hSize⟩ := toBytes_widened hParse hTargets
      · rw [hFault]
        refine iff_of_false nofun fun h => h.2.elim hSame (Nat.not_lt.2 hSize)
      · obtain ⟨written, hBytes, -⟩ := hWritten w
        rw [hBytes]
        exact iff_of_true ⟨e.withData written, rfl⟩ ⟨⟨t, rfl⟩, .inr hSize⟩

/-- What a widener with rules makes of a class. -/
theorem relaxes_of_editClass (hMeaningful : Meaningful w) (hParse : parse e.data = .ok c)
    (hFilled : c.NestedFilled) (h : editClass w.apply changed e = .ok e') :
    ∃ c' data, e' = e.withData data ∧ parse data = .ok c' ∧ w.Relaxes c c' ∧
      (c' = c → data = e.data) := by
  cases hTargets : c.ruleTargets with
  | error fault => exact nomatch (widen_unreadable hParse hTargets).symm.trans h
  | ok t =>
    have hRelaxes := relaxes_widened hMeaningful hTargets hFilled
    by_cases hSame : w.widened c t = c
    · obtain rfl := Except.ok.inj ((widen_same hParse hTargets hSame).symm.trans h)
      rw [hSame] at hRelaxes
      exact ⟨c, e.data, rfl, hParse, hRelaxes, fun _ => rfl⟩
    · rw [widen_other hParse hTargets hSame] at h
      obtain ⟨written, hBytes, rfl⟩ := map_ok_iff.1 h
      obtain ⟨⟨fault, hFault⟩, -⟩ | ⟨hWritten, -⟩ := toBytes_widened hParse hTargets
      · exact nomatch (hFault w).symm.trans hBytes
      · obtain ⟨written', hBytes', hRead⟩ := hWritten w
        obtain rfl := Except.ok.inj (hBytes'.symm.trans hBytes)
        exact ⟨_, written', rfl, hRead, hRelaxes, fun h => absurd h hSame⟩

/-- A widener without rules has none for a class. -/
theorem unruled_of_isEmpty (hEmpty : w.isEmpty = true) (c : ClassFile) : w.Unruled c := by
  obtain ⟨hClasses, hMethods, hFields⟩ := isEmpty_eq_true.1 hEmpty
  have hMember : ∀ rule? : String → String → String → Option Access,
      (∀ owner name descriptor, rule? owner name descriptor = none) →
        ∀ m, c.memberRule? rule? m = none := fun rule? hNone m => by
    simp [memberRule?, hNone]
  refine ⟨?_, fun m _ => hMember _ hMethods m, fun m _ => hMember _ hFields m,
    fun _ _ _ _ _ row _ => ?_⟩
  · simp [hClasses]
  · simp [rowRule?, hClasses]

/-- **A widener relaxes access, and only what its rules name.** It succeeds on a class if and only
if it has no rules, or all names that rules could be for can be read and, if a flag changes, the pool
is not too long for a class file. What comes out is read as the class that went in but for flags with
a rule; if no flag changes, it is the entry as it was. -/
theorem widenAccess_relaxes (hTexts : OfTexts w) (hKind : e.kind = .classFile)
    (hParse : parse e.data = .ok c) (hFilled : c.NestedFilled) :
    ((∃ o, (widenAccess w).apply e = .ok o) ↔
      w.isEmpty = true ∨ c.CanWiden ∧ (w.apply c = .ok c ∨ c.pool.size < 65536)) ∧
    (∀ o, (widenAccess w).apply e = .ok o → ∃ c' data, o = some (e.withData data) ∧
      parse data = .ok c' ∧ w.Relaxes c c' ∧ (c' = c → data = e.data)) ∧
    (w.Unruled c → c.CanWiden → (widenAccess w).apply e = .ok (some e)) := by
  have hMeaningful := hTexts.meaningful
  cases hRules : w.isEmpty with
  | true =>
    have hApply := apply_widenAccess_empty hRules (e := e)
    rw [hApply]
    refine ⟨iff_of_true ⟨_, rfl⟩ (.inl rfl), fun o h => ?_, fun _ _ => rfl⟩
    obtain rfl := Except.ok.inj h
    exact ⟨c, e.data, rfl, hParse, (unruled_of_isEmpty hRules c).relaxes, fun _ => rfl⟩
  | false =>
    have hOutcome : ∀ o, some <$> editClass w.apply changed e = .ok o →
        ∃ c' data, o = some (e.withData data) ∧ parse data = .ok c' ∧ w.Relaxes c c' ∧
          (c' = c → data = e.data) := fun o h => by
      obtain ⟨e', hEdit, rfl⟩ := map_ok_iff.1 h
      obtain ⟨c', data, rfl, hRest⟩ := relaxes_of_editClass hMeaningful hParse hFilled hEdit
      exact ⟨c', data, rfl, hRest⟩
    have hSucceeds : (∃ o, some <$> editClass w.apply changed e = .ok o) ↔
        c.CanWiden ∧ (w.apply c = .ok c ∨ c.pool.size < 65536) := by
      rw [← exists_editClass hParse]
      simp only [map_ok_iff]
      constructor
      · rintro ⟨_, e', hEdit, -⟩
        exact ⟨e', hEdit⟩
      · rintro ⟨e', hEdit⟩
        exact ⟨_, e', hEdit, rfl⟩
    rw [apply_widenAccess_class hKind hRules]
    refine ⟨by simpa using hSucceeds, hOutcome, fun hUnruled hCan => ?_⟩
    obtain ⟨-, n, hName⟩ := parse_eq_ok.1 hParse
    obtain ⟨t, hTargets⟩ := (exists_ruleTargets hName).2 hCan
    rw [widen_same hParse hTargets ((relaxes_widened hMeaningful hTargets hFilled).eq hUnruled)]
    rfl

/-- A class with a private method. -/
def hiddenMethodBytes : Bytes :=
  [0xCA, 0xFE, 0xBA, 0xBE, 0, 0, 0, 52, 0, 5, 1, 0, 1, 97, 7, 0, 1, 1, 0, 1, 109, 1, 0, 3, 40, 41,
    86, 0, 0x20, 0, 2, 0, 0, 0, 0, 0, 0, 0, 1, 0, 2, 0, 3, 0, 4, 0, 0, 0, 0]

def hiddenMethod : ClassFile :=
  ⟨0, 52, Pool.ofConstants [.utf8 [97], .classRef 1, .utf8 [109], .utf8 [40, 41, 86]], 0x20, 2,
    none, [], [], [⟨2, 3, 4, []⟩], []⟩

def hiddenMethodEntry : JarEntry := .ofArchive ⟨"a.class", none, hiddenMethodBytes⟩

/-- The widener of a text that makes the method accessible. -/
def methodText : AccessWidener :=
  (AccessWidener.empty.read "accessWidener v1 named\naccessible method a m ()V" none).1

/-- A private method becomes public and final. -/
theorem widenAccess_relaxes_hiddenMethod : OfTexts methodText ∧
    hiddenMethodEntry.kind = .classFile ∧ parse hiddenMethodEntry.data = .ok hiddenMethod ∧
      hiddenMethod.NestedFilled ∧ ∃ c' data,
        (widenAccess methodText).apply hiddenMethodEntry =
          .ok (some (hiddenMethodEntry.withData data)) ∧
          parse data = .ok c' ∧ methodText.Relaxes hiddenMethod c' := by
  have hTexts : OfTexts methodText := .read _ _ .empty
  have hParse : parse hiddenMethodEntry.data = .ok hiddenMethod := rfl
  have hFilled : hiddenMethod.NestedFilled := nofun
  obtain ⟨hSucceeds, hOutcome, -⟩ := widenAccess_relaxes hTexts rfl hParse hFilled
  have hCan : hiddenMethod.CanWiden := by
    refine ⟨fun m hm => ?_, nofun, .inl nofun⟩
    obtain rfl := List.mem_singleton.1 hm
    exact ⟨⟨"m", rfl⟩, "()V", rfl⟩
  obtain ⟨o, hApply⟩ := hSucceeds.2 (.inr ⟨hCan, .inr (by decide)⟩)
  obtain ⟨c', data, rfl, hRead, hRelaxes, -⟩ := hOutcome o hApply
  exact ⟨hTexts, rfl, hParse, hFilled, c', data, hApply, hRead, hRelaxes⟩

/-- A class with a method whose name is no text. -/
def unnamedMethodBytes : Bytes :=
  [0xCA, 0xFE, 0xBA, 0xBE, 0, 0, 0, 52, 0, 4, 1, 0, 1, 97, 7, 0, 1, 1, 0, 3, 40, 41, 86,
    0, 0x20, 0, 2, 0, 0, 0, 0, 0, 0, 0, 1, 0, 2, 0, 2, 0, 3, 0, 0, 0, 0]

def unnamedMethod : ClassFile :=
  ⟨0, 52, Pool.ofConstants [.utf8 [97], .classRef 1, .utf8 [40, 41, 86]], 0x20, 2, none, [], [],
    [⟨2, 2, 3, []⟩], []⟩

def unnamedMethodEntry : JarEntry := .ofArchive ⟨"a.class", none, unnamedMethodBytes⟩

/-- The widener of a text with a rule for another class. -/
def otherText : AccessWidener :=
  (AccessWidener.empty.read "accessWidener v1 named\naccessible class b" none).1

/-- All names are read, also those that no rule is for: a class without rules does not pass if the
name of a method is no text. -/
theorem not_widenAccess_unnamedMethod : OfTexts otherText ∧
    unnamedMethodEntry.kind = .classFile ∧ parse unnamedMethodEntry.data = .ok unnamedMethod ∧
      unnamedMethod.NestedFilled ∧ otherText.Unruled unnamedMethod ∧
        (widenAccess otherText).apply unnamedMethodEntry = .error .undecodable := by
  refine ⟨.read _ _ .empty, rfl, rfl, nofun,
    ⟨rfl, fun m hm => ?_, nofun, fun _ _ _ h => nomatch h⟩, rfl⟩
  obtain rfl := List.mem_singleton.1 hm
  rfl

-- ---------------------------------------------------------------------------
-- Two wideners
-- ---------------------------------------------------------------------------

/-- Two wideners in turn do to a class what their merge does. -/
theorem editClass_merge (hSeen : ∀ c, parse e.data = .ok c → MethodsSeenOnce c) :
    (editClass v.apply changed e >>= editClass w.apply changed) =
      editClass (v.merge w).apply changed e := by
  cases hParse : parse e.data with
  | error fault =>
    rw [widen_unparsable hParse, widen_unparsable hParse]
    rfl
  | ok c =>
    cases hTargets : c.ruleTargets with
    | error fault =>
      rw [widen_unreadable hParse hTargets, widen_unreadable hParse hTargets]
      rfl
    | ok t =>
      have hSeen := hSeen c hParse
      have hBoth := widened_widened (v := v) (w := w) hTargets hSeen
      have hAfter := ruleTargets_widened (w := v) hTargets
      by_cases hFirst : v.widened c t = c
      · -- the second widener sees the class itself
        rw [hFirst, hTargets] at hAfter
        rw [hFirst, ← Except.ok.inj hAfter] at hBoth
        rw [widen_same hParse hTargets hFirst]
        show editClass w.apply changed e = _
        by_cases hSecond : w.widened c t = c
        · rw [widen_same hParse hTargets hSecond, widen_same hParse hTargets (hBoth ▸ hSecond)]
        · rw [widen_other hParse hTargets hSecond, widen_other hParse hTargets (hBoth ▸ hSecond),
            hBoth]
      · -- the second widener sees the class that was written
        have hMerged : (v.merge w).widened c t ≠ c := mt (widened_part hTargets hSeen) hFirst
        rw [widen_other hParse hTargets hFirst, widen_other hParse hTargets hMerged]
        obtain ⟨⟨fault, hFault⟩, -⟩ | ⟨hWritten, -⟩ := toBytes_widened hParse hTargets
        · rw [hFault, hFault]
          rfl
        · obtain ⟨written, hBytes, hRead⟩ := hWritten v
          rw [hBytes]
          show editClass w.apply changed (e.withData written) = _
          by_cases hSecond : w.widened (v.widened c t) (v.targetsAfter t) = v.widened c t
          · rw [widen_same hRead hAfter hSecond, ← hBoth, hSecond, hBytes]
            rfl
          · rw [widen_other hRead hAfter hSecond, hBoth]
            rfl

/-- Two wideners in turn do to an entry what their merge does. -/
theorem run_widenAccess_pair (hSeen : ∀ c, parse e.data = .ok c → MethodsSeenOnce c) :
    run [widenAccess v, widenAccess w] e = (widenAccess (v.merge w)).apply e := by
  rw [run_pair]
  by_cases hKind : e.kind = .classFile
  · cases hFirst : v.isEmpty with
    | true =>
      rw [apply_widenAccess_empty hFirst]
      exact apply_widenAccess_congr (sameRules_merge_left hFirst).symm
    | false =>
      have hMerged : (v.merge w).isEmpty = false := by rw [isEmpty_merge, hFirst, Bool.false_and]
      cases hSecond : w.isEmpty with
      | true =>
        have hSame := (SameRules.merge_comm v w).trans (sameRules_merge_left hSecond)
        rw [apply_widenAccess_congr hSame, apply_widenAccess_class hKind hFirst]
        cases editClass v.apply changed e with
        | error fault => rfl
        | ok e' => exact apply_widenAccess_empty hSecond
      | false =>
        rw [apply_widenAccess_class hKind hFirst, apply_widenAccess_class hKind hMerged,
          ← editClass_merge hSeen]
        cases hEdit : editClass v.apply changed e with
        | error fault => rfl
        | ok e' =>
          obtain ⟨data, rfl⟩ := editClass_eq_ok hEdit
          exact apply_widenAccess_class hKind hSecond
  · rw [apply_widenAccess_other hKind, apply_widenAccess_other hKind]
    exact apply_widenAccess_other hKind

/-- **Wideners in turn are merged wideners.** If no method of a class carries two of the flags for
public, private and protected, two wideners in turn do to its entry what their merge does, whether
that succeeds or fails. So their order does not matter, and a second round changes nothing. -/
theorem run_widenAccess_merge (v w : AccessWidener) (e : JarEntry)
    (hSeen : ∀ c, parse e.data = .ok c → MethodsSeenOnce c) :
    run [widenAccess v, widenAccess w] e = (widenAccess (v.merge w)).apply e ∧
      run [widenAccess v, widenAccess w] e = run [widenAccess w, widenAccess v] e ∧
        run [widenAccess v, widenAccess v] e = (widenAccess v).apply e := by
  refine ⟨run_widenAccess_pair hSeen, ?_, ?_⟩
  · rw [run_widenAccess_pair hSeen, run_widenAccess_pair hSeen]
    exact apply_widenAccess_congr (SameRules.merge_comm v w)
  · rw [run_widenAccess_pair hSeen]
    exact apply_widenAccess_congr (SameRules.merge_self v)

/-- A rule for the method. -/
def methodWidener (change : AccessChange) : AccessWidener :=
  AccessWidener.empty.add (.onMethod ⟨"a", "m", "()V"⟩ change)

/-- The class with the method public. -/
def shownMethodBytes : Bytes :=
  [0xCA, 0xFE, 0xBA, 0xBE, 0, 0, 0, 52, 0, 5, 1, 0, 1, 97, 7, 0, 1, 1, 0, 1, 109, 1, 0, 3, 40, 41,
    86, 0, 0x21, 0, 2, 0, 0, 0, 0, 0, 0, 0, 1, 0, 1, 0, 3, 0, 4, 0, 0, 0, 0]

/-- To make a private method accessible makes it final, unless it is to be overridden too, whatever
is said first. -/
theorem run_widenAccess_merge_hiddenMethod :
    (∀ c, parse hiddenMethodEntry.data = .ok c → MethodsSeenOnce c) ∧
      run [widenAccess (methodWidener .accessible), widenAccess (methodWidener .extendable)]
          hiddenMethodEntry = .ok (some (hiddenMethodEntry.withData shownMethodBytes)) ∧
        run [widenAccess (methodWidener .extendable), widenAccess (methodWidener .accessible)]
          hiddenMethodEntry = .ok (some (hiddenMethodEntry.withData shownMethodBytes)) := by
  have hParse : parse hiddenMethodEntry.data = .ok hiddenMethod := rfl
  have hSeen : ∀ c, parse hiddenMethodEntry.data = .ok c → MethodsSeenOnce c := by
    intro c h
    obtain rfl := Except.ok.inj (hParse.symm.trans h)
    exact fun m hm => by
      obtain rfl := List.mem_singleton.1 hm
      decide
  obtain ⟨hMerged, hSwapped, -⟩ := run_widenAccess_merge (methodWidener .accessible)
    (methodWidener .extendable) hiddenMethodEntry hSeen
  have hOnce : (widenAccess ((methodWidener .accessible).merge (methodWidener .extendable))).apply
      hiddenMethodEntry = .ok (some (hiddenMethodEntry.withData shownMethodBytes)) := rfl
  exact ⟨hSeen, hMerged.trans hOnce, hSwapped.symm.trans (hMerged.trans hOnce)⟩
end Jarsmith.Transformer
