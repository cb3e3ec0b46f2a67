import Jarsmith.Proofs.AccessWidener.RuleSets

/-!
# Owners of widened members

Every rule brings along what its target needs to be reached, so whatever is read and merged, and
wherever reading stops, no widened member is left behind in a class that is not widened.

* `AccessWidener.Orderly` — the laws that the changes of a widener obey; a rule obeys them, and they
  carry over to unions.
* `AccessWidener.read_cases` — reading takes in the lines above the place where it stops.
* `AccessWidener.owners_reachable` — every widener obeys the laws, and reading that fails only adds.
-/

namespace Jarsmith

-- ---------------------------------------------------------------------------
-- Changes, one at a time
-- ---------------------------------------------------------------------------

namespace Access

variable {a b : Access} {c : AccessChange}

/-- Whether a change is among those of a target. -/
def has (a : Access) : AccessChange → Bool
  | .accessible => a.accessible
  | .extendable => a.extendable
  | .mutable => a.mutable

theorem has_join : (a.join b).has c = (a.has c || b.has c) := by cases c <;> rfl

theorem has_only {d : AccessChange} : (only d).has c = true ↔ c = d := by
  cases c <;> cases d <;> decide

/-- The changes of `a` are among those of `b`. -/
def Within (a b : Access) : Prop := ∀ c, a.has c = true → b.has c = true

end Access

namespace AccessWidener

variable {v w : AccessWidener} {p q : Target → Option Access} {t : Target} {c : AccessChange}
  {a : Access} {rule : AccessRule}

/-- A change is asked for a target. -/
def Allows (p : Target → Option Access) (t : Target) (c : AccessChange) : Prop :=
  ∃ a, p t = some a ∧ a.has c = true

theorem allows_union : Allows (union p q) t c ↔ Allows p t c ∨ Allows q t c := by
  unfold Allows union
  cases p t with
  | none => simp
  | some a =>
    cases q t with
    | none => simp
    | some b => simp [Access.has_join]

-- ---------------------------------------------------------------------------
-- Laws
-- ---------------------------------------------------------------------------

/-- The class of a widened member is widened as far as the member needs it, and every rule changes
something that its target can change. -/
structure Orderly (p : Target → Option Access) : Prop where
  accessible_method : ∀ m, Allows p (.ofMethod m) .accessible →
    Allows p (.ofClass m.owner) .accessible
  extendable_method : ∀ m, Allows p (.ofMethod m) .extendable →
    Allows p (.ofClass m.owner) .extendable
  accessible_field : ∀ m, Allows p (.ofField m) .accessible →
    Allows p (.ofClass m.owner) .accessible
  mutable_class : ∀ name, ¬ Allows p (.ofClass name) .mutable
  mutable_method : ∀ m, ¬ Allows p (.ofMethod m) .mutable
  extendable_field : ∀ m, ¬ Allows p (.ofField m) .extendable
  changes : ∀ t a, p t = some a → ∃ c, a.has c = true

theorem orderly_empty : Orderly empty.changes := by
  have hNone : ∀ t, empty.changes t = none := fun t => by cases t <;> rfl
  have hNever : ∀ t c, ¬ Allows empty.changes t c := fun t c ⟨_, hSome, _⟩ =>
    nomatch (hNone t).symm.trans hSome
  exact ⟨fun _ h => absurd h (hNever _ _), fun _ h => absurd h (hNever _ _),
    fun _ h => absurd h (hNever _ _), fun _ => hNever _ _, fun _ => hNever _ _, fun _ => hNever _ _,
    fun t _ h => nomatch (hNone t).symm.trans h⟩

theorem Orderly.union (hp : Orderly p) (hq : Orderly q) : Orderly (union p q) where
  accessible_method m h := allows_union.2
    ((allows_union.1 h).imp (hp.accessible_method m) (hq.accessible_method m))
  extendable_method m h := allows_union.2
    ((allows_union.1 h).imp (hp.extendable_method m) (hq.extendable_method m))
  accessible_field m h := allows_union.2
    ((allows_union.1 h).imp (hp.accessible_field m) (hq.accessible_field m))
  mutable_class name h := (allows_union.1 h).elim (hp.mutable_class name) (hq.mutable_class name)
  mutable_method m h := (allows_union.1 h).elim (hp.mutable_method m) (hq.mutable_method m)
  extendable_field m h := (allows_union.1 h).elim (hp.extendable_field m) (hq.extendable_field m)
  changes t a h := by
    -- what a target has in the union it has in one of the two
    have hSome : ∃ c, Allows (AccessWidener.union p q) t c := by
      cases hLeft : p t with
      | some b =>
        obtain ⟨c, hc⟩ := hp.changes t b hLeft
        exact ⟨c, allows_union.2 (.inl ⟨b, hLeft, hc⟩)⟩
      | none =>
        rw [AccessWidener.union, hLeft, Option.merge_none_left] at h
        obtain ⟨c, hc⟩ := hq.changes t a h
        exact ⟨c, allows_union.2 (.inr ⟨a, h, hc⟩)⟩
    obtain ⟨c, b, hb, hc⟩ := hSome
    obtain rfl := Option.some.inj (h.symm.trans hb)
    exact ⟨c, hc⟩

/-- What a rule asks for: the change of its target, and what the class of a member needs then. -/
def grants : AccessRule → List (Target × AccessChange)
  | .onClass name c => [(.ofClass name, c)]
  | .onMethod m c =>
    [(.ofMethod m, c), (.ofClass m.owner, if c = .extendable then .extendable else .accessible)]
  | .onField m c =>
    (.ofField m, c) :: if c = .accessible then [(.ofClass m.owner, .accessible)] else []

theorem get?_widen_empty {κ : Type} [DecidableEq κ] {j k : κ} {b : Access} :
    (widen ∅ k b).get? j = some a ↔ j = k ∧ a = b := by
  rw [get?_widen, OrderedMap.get?_empty, Option.getD_none, Access.none_join]
  split
  · rename_i hKey
    rw [Option.some.injEq, eq_comm, and_iff_right hKey.symm]
  · rename_i hKey
    exact ⟨nofun, fun h => absurd h.1.symm hKey⟩

theorem asked_eq_some : asked rule t = some a ↔ ∃ c, a = .only c ∧ (t, c) ∈ grants rule := by
  cases rule with
  | onClass name d =>
    cases t with
    | ofClass other => exact get?_widen_empty.trans (by simp [grants, and_comm])
    | ofMethod | ofField => exact iff_of_false nofun (by simp [grants])
  | onMethod m d =>
    cases t with
    | ofClass other => exact get?_widen_empty.trans (by simp [grants, and_comm])
    | ofMethod other => exact get?_widen_empty.trans (by simp [grants, and_comm])
    | ofField => exact iff_of_false nofun (by simp [grants])
  | onField m d =>
    cases d with
    | accessible =>
      cases t with
      | ofClass other => exact get?_widen_empty.trans (by simp [grants, and_comm])
      | ofField other => exact get?_widen_empty.trans (by simp [grants, and_comm])
      | ofMethod => exact iff_of_false nofun (by simp [grants])
    | extendable | mutable =>
      cases t with
      | ofField other => exact get?_widen_empty.trans (by simp [grants, and_comm])
      | ofClass | ofMethod => exact iff_of_false nofun (by simp [grants])

theorem allows_asked : Allows (asked rule) t c ↔ (t, c) ∈ grants rule := by
  constructor
  · rintro ⟨a, ha, hc⟩
    obtain ⟨d, rfl, hGrant⟩ := asked_eq_some.1 ha
    rwa [Access.has_only.1 hc]
  · exact fun hGrant => ⟨_, asked_eq_some.2 ⟨c, rfl, hGrant⟩, Access.has_only.2 rfl⟩

/-- **A rule brings along what its target needs.** -/
theorem orderly_asked (h : IsMeaningful rule) : Orderly (asked rule) := by
  have hChanges : ∀ t a, asked rule t = some a → ∃ c, a.has c = true := by
    intro t a ha
    obtain ⟨c, rfl, -⟩ := asked_eq_some.1 ha
    exact ⟨c, Access.has_only.2 rfl⟩
  -- the change that means nothing for the target is left out, the other two are compared
  cases rule with
  | onClass name c =>
    cases c with
    | mutable => exact absurd rfl h
    | accessible | extendable =>
      refine ⟨?_, ?_, ?_, ?_, ?_, ?_, hChanges⟩ <;> simp [allows_asked, grants]
  | onMethod m c =>
    cases c with
    | mutable => exact absurd rfl h
    | accessible | extendable =>
      refine ⟨?_, ?_, ?_, ?_, ?_, ?_, hChanges⟩ <;> simp [allows_asked, grants]
  | onField m c =>
    cases c with
    | extendable => exact absurd rfl h
    | accessible | mutable =>
      refine ⟨?_, ?_, ?_, ?_, ?_, ?_, hChanges⟩ <;> simp [allows_asked, grants]

theorem orderly_askedByAll {rules : List AccessRule} (h : ∀ rule ∈ rules, IsMeaningful rule) :
    Orderly (askedByAll rules) := by
  refine List.foldlRecOn (motive := Orderly) _ _ orderly_empty fun p hp q hq => hp.union ?_
  obtain ⟨rule, hRule, rfl⟩ := List.mem_map.1 hq
  exact orderly_asked (h rule hRule)

theorem Orderly.foldl_add {rules : List AccessRule} (hw : Orderly w.changes)
    (h : ∀ rule ∈ rules, IsMeaningful rule) : Orderly (rules.foldl add w).changes := by
  rw [changes_foldl_add]
  exact hw.union (orderly_askedByAll h)

-- ---------------------------------------------------------------------------
-- Where reading stops
-- ---------------------------------------------------------------------------

/-- From `w`, taking in the rules that lines write makes `v`. -/
def TakesIn (w v : AccessWidener) (lines : List String) : Prop :=
  ∃ name rules, Writes lines name rules ∧ Fits w.naming name ∧
    v = rules.foldl add { w with naming := some name }

theorem isMeaningful_of_writes {lines : List String} {name : String} {rules : List AccessRule}
    (h : Writes lines name rules) : ∀ rule ∈ rules, IsMeaningful rule := by
  obtain ⟨_, rest, version, -, -, hRules⟩ := h
  have hBoth := hRules.flip.imp fun rule line hParse =>
    (⟨isMeaningful_parse hParse, hParse⟩ :
      IsMeaningful rule ∧ AccessRule.parse version line = .ok rule)
  exact ((List.forall₂_and_left _ _).1 hBoth).1

/-- Some of the lines are taken in, up to the first faulty one. -/
theorem exists_rules_addLines (w : AccessWidener) (version : AccessRule.Version)
    (lines : List (Nat × String)) : ∃ above below rules, lines = above ++ below ∧
      List.Forall₂ (fun line rule => AccessRule.parse version line = .ok rule)
        (above.map Prod.snd) rules ∧ (w.addLines version lines).1 = rules.foldl add w := by
  induction lines generalizing w with
  | nil => exact ⟨[], [], [], rfl, .nil, rfl⟩
  | cons line more ih =>
    rw [addLines]
    split
    · rename_i rule hParse
      obtain ⟨above, below, rules, rfl, hRules, hEnd⟩ := ih (w.add rule)
      exact ⟨line :: above, below, rule :: rules, rfl, .cons hParse hRules, hEnd⟩
    · exact ⟨[], line :: more, [], rfl, .nil, rfl⟩

/-- The lines of a text can be cut wherever what they hold can be cut. -/
theorem exists_lines_of_contents {lines above below : List String}
    (h : contents lines = above ++ below) : ∃ front back, lines = front ++ back ∧
      contents front = above := by
  obtain ⟨_, _, hMap, hFront, -⟩ := List.filter_eq_append_iff.1 h
  obtain ⟨front, back, rfl, rfl, -⟩ := List.map_eq_append_iff.1 hMap
  exact ⟨front, back, rfl, hFront⟩

/-- **Whatever comes out of reading**, the widener stays as it is, or some lines from the top of the
text were taken in. -/
theorem read_cases (w : AccessWidener) (text : String) (expected : Option String) :
    (w.read text expected).1 = w ∨ ∃ above below, Text.lines text = above ++ below ∧
      w.TakesIn (w.read text expected).1 above := by
  have hContents := map_contentLines text
  unfold read
  cases hLines : contentLines text with
  | nil => exact .inl rfl
  | cons line more =>
    rw [hLines, List.map_cons] at hContents
    dsimp only
    split
    · rename_i version u hHeader
      obtain ⟨name, hName, -, hFits, rfl⟩ := addHeader_eq_ok.1 hHeader
      obtain ⟨above, below, rules, rfl, hRules, hEnd⟩ :=
        exists_rules_addLines { w with naming := some name } version more
      rw [List.map_append, ← List.cons_append] at hContents
      obtain ⟨front, back, hText, hFront⟩ := exists_lines_of_contents hContents.symm
      exact .inr ⟨front, back, hText, name, rules, ⟨_, _, version, hFront, hName, hRules⟩, hFits,
        hEnd⟩
    · exact .inl rfl

/-- No rule is lost or weakened, and a namespace that is set stays. -/
structure Grows (w v : AccessWidener) : Prop where
  rules : ∀ t a, w.changes t = some a → ∃ b, v.changes t = some b ∧ a.Within b
  naming : ∀ name, w.naming = some name → v.naming = some name

theorem Grows.refl (w : AccessWidener) : Grows w w :=
  ⟨fun _ a h => ⟨a, h, fun _ => id⟩, fun _ => id⟩

theorem TakesIn.grows {lines : List String} (h : w.TakesIn v lines) : Grows w v := by
  obtain ⟨name, rules, -, hFits, rfl⟩ := h
  constructor
  · intro t a ha
    have hChanges : { w with naming := some name }.changes t = some a := ha
    rw [changes_foldl_add, union, hChanges]
    cases askedByAll rules t with
    | none => exact ⟨a, rfl, fun _ => id⟩
    | some b => exact ⟨a.join b, rfl, fun c hc => by rw [Access.has_join, hc, Bool.true_or]⟩
  · intro other hOther
    rw [naming_foldl_add, hFits other hOther]

/-- What no rule breaks, no widener breaks. -/
theorem OfTexts.orderly (h : OfTexts w) : Orderly w.changes := by
  induction h with
  | empty => exact orderly_empty
  | @read w text expected _ ih =>
    obtain hSame | ⟨above, -, -, name, rules, hWrites, -, hEnd⟩ := w.read_cases text expected
    · rw [hSame]
      exact ih
    · rw [hEnd]
      exact ih.foldl_add (w := { w with naming := some name }) (isMeaningful_of_writes hWrites)
  | merge _ _ ihv ihw =>
    rw [changes_merge]
    exact ihv.union ihw

/-- **Widened members have reachable owners** in every widener that reading and merging make: its
changes obey the laws, also where a text was left at a faulty line. Reading that fails takes in lines
from the top of the text, if any; it loses and weakens no rule and keeps a namespace that is set. -/
theorem owners_reachable (h : OfTexts w) : Orderly w.changes ∧
    ∀ text expected v e, w.read text expected = (v, .error e) →
      (v = w ∨ ∃ above below, Text.lines text = above ++ below ∧ w.TakesIn v above) ∧
        Grows w v := by
  refine ⟨h.orderly, fun text expected v e hRead => ?_⟩
  have hCases := w.read_cases text expected
  rw [hRead] at hCases
  refine ⟨hCases, ?_⟩
  obtain rfl | ⟨_, _, -, hTakes⟩ := hCases
  · exact .refl v
  · exact hTakes.grows

/-- A rule for a method, and a line that asks for what a class cannot be. -/
def brokenText : String := "accessWidener v1 a\nextendable method b m ()V\nmutable class b\n"

def fartherText : String := "accessWidener v2 a\nwiden class b\n-"

theorem owners_reachable_brokenText : ∃ w v, OfTexts w ∧
    empty.read brokenText none = (w, .error (.accessWidener 3 .mutableClass)) ∧
    w.read fartherText (some "a") = (v, .error (.accessWidener 3 (.unknownChange "-"))) ∧
    Orderly w.changes ∧ Allows w.changes (.ofClass "b") .extendable ∧
    Grows w v ∧ Allows v.changes (.ofClass "b") .accessible := by
  have hBroken : (empty.read brokenText none).2 = .error (.accessWidener 3 .mutableClass) := by
    decide +kernel
  have hFarther : ((empty.read brokenText none).1.read fartherText (some "a")).2 =
      .error (.accessWidener 3 (.unknownChange "-")) := by
    decide +kernel
  have hMethod : (empty.read brokenText none).1.changes (.ofMethod ⟨"b", "m", "()V"⟩) =
      some ⟨false, true, false⟩ := by
    decide +kernel
  have hClass : ((empty.read brokenText none).1.read fartherText (some "a")).1.changes
      (.ofClass "b") = some ⟨true, true, false⟩ := by
    decide +kernel
  have hOfTexts := OfTexts.empty.read brokenText none
  generalize empty.read brokenText none = first at *
  obtain ⟨w, outcome⟩ := first
  generalize hSecond : w.read fartherText (some "a") = second at *
  obtain ⟨v, outcome'⟩ := second
  subst hBroken hFarther
  obtain ⟨hOrderly, hFails⟩ := owners_reachable hOfTexts
  exact ⟨w, v, hOfTexts, rfl, hSecond, hOrderly, hOrderly.extendable_method _ ⟨_, hMethod, rfl⟩,
    (hFails _ _ _ _ hSecond).2, _, hClass, rfl⟩

end AccessWidener

end Jarsmith
