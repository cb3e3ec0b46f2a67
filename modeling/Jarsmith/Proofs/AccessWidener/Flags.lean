import Jarsmith.AccessWidener.Apply

/-!
# Flags after rules

What a rule makes of each single flag, and how rules act one after another.

* `AccessFlags.flag` — a flag by its place; flags are equal if they agree at all sixteen places.
* `AccessFlags.flag_widenedClass`, `AccessFlags.flag_widenedMethod`, `AccessFlags.flag_widenedField`
  — each flag after a rule.
* `Access.Joins` — two rules in turn act as their join does, and a rule that changes something
  is not undone by a join with another one.
-/

namespace Jarsmith

namespace Access

/-- The rule for a field that does to flags what a rule for a class does. -/
def opened (a : Access) : Access := ⟨a.accessible || a.extendable, false, a.extendable⟩

theorem opened_join (a b : Access) : (a.join b).opened = a.opened.join b.opened := by
  simp only [opened, join, Bool.or_false, mk.injEq, and_true]
  ac_rfl

end Access

/-- How rules act on `x` one after another: two of them act as their join does, and what their join
leaves as it is, the first of them leaves as it is. -/
structure Access.Joins {α : Type} (change : α → Access → α) (x : α) : Prop where
  join : ∀ a b, change (change x a) b = change x (a.join b)
  part : ∀ {a b}, change x (a.join b) = x → change x a = x

namespace AccessFlags

variable {f g bits : AccessFlags} {a b : Access} {i : Nat} {isConstructor : Bool}

-- ---------------------------------------------------------------------------
-- Single flags
-- ---------------------------------------------------------------------------

/-- Whether the flag at a place is set. -/
def flag (f : AccessFlags) (i : Nat) : Bool := f.toBitVec.getLsbD i

theorem ext_flag (h : ∀ i < 16, f.flag i = g.flag i) : f = g :=
  UInt16.toBitVec_inj.1 (BitVec.eq_of_getLsbD_eq h)

theorem flag_and : (f &&& g).flag i = (f.flag i && g.flag i) := by
  rw [flag, UInt16.toBitVec_and, BitVec.getLsbD_and]
  rfl

theorem flag_adding : (f.adding bits).flag i = (f.flag i || bits.flag i) := by
  rw [adding, flag, UInt16.toBitVec_or, BitVec.getLsbD_or]
  rfl

theorem flag_without (hi : i < 16) : (f.without bits).flag i = (f.flag i && !bits.flag i) := by
  rw [without, flag_and]
  refine congrArg (f.flag i && ·) ?_
  rw [flag, UInt16.toBitVec_not, BitVec.getLsbD_not, decide_eq_true hi, Bool.true_and]
  rfl

theorem flag_seenAs (hi : i < 16) :
    (f.seenAs bits).flag i = ((f.flag i && !visibility.flag i) || bits.flag i) := by
  rw [seenAs, ← adding, flag_adding, flag_without hi]

theorem flag_publicBit : ∀ i < 16, publicBit.flag i = decide (i = 0) := by decide
theorem flag_privateBit : ∀ i < 16, privateBit.flag i = decide (i = 1) := by decide
theorem flag_protectedBit : ∀ i < 16, protectedBit.flag i = decide (i = 2) := by decide
theorem flag_staticBit : ∀ i < 16, staticBit.flag i = decide (i = 3) := by decide
theorem flag_finalBit : ∀ i < 16, finalBit.flag i = decide (i = 4) := by decide
theorem flag_visibility : ∀ i < 16, visibility.flag i = decide (i < 3) := by decide

/-- Flags of which a single one is set. -/
theorem has_eq {j : Nat} (hj : j < 16) (hBits : ∀ i < 16, bits.flag i = decide (i = j)) :
    f.has bits = f.flag j := by
  have hIff : f &&& bits = bits ↔ f.flag j = true := by
    constructor
    · intro h
      have hAt := congrArg (flag · j) h
      simpa [flag_and, hBits j hj] using hAt
    · intro h
      refine ext_flag fun i hi => ?_
      rw [flag_and, hBits i hi]
      by_cases hij : i = j
      · simp [hij, h]
      · simp [hij]
  rw [has, Bool.eq_iff_iff, beq_iff_eq]
  exact hIff

theorem has_publicBit : f.has publicBit = f.flag 0 := has_eq (by decide) flag_publicBit
theorem has_privateBit : f.has privateBit = f.flag 1 := has_eq (by decide) flag_privateBit
theorem has_staticBit : f.has staticBit = f.flag 3 := has_eq (by decide) flag_staticBit
theorem has_protectedBit : f.has protectedBit = f.flag 2 := has_eq (by decide) flag_protectedBit
theorem has_finalBit : f.has finalBit = f.flag 4 := has_eq (by decide) flag_finalBit

-- ---------------------------------------------------------------------------
-- Single flags after a rule
-- ---------------------------------------------------------------------------

theorem flag_widenedField (hi : i < 16) : (f.widenedField a).flag i =
    if i < 3 then (if a.accessible then i == 0 else f.flag i)
    else f.flag i && !(i == 4 && a.mutable) := by
  have h := flag_visibility i hi
  have h0 := flag_publicBit i hi
  have h4 := flag_finalBit i hi
  simp only [widenedField]
  grind [flag_seenAs, flag_without]

/-- A rule for a class acts as the rule for a field that it opens. -/
theorem widenedClass_eq : f.widenedClass a = f.widenedField a.opened := rfl

theorem flag_widenedMethod (hi : i < 16) : (f.widenedMethod isConstructor a).flag i =
    if i < 3 then
      if a.accessible then i == 0 else if a.extendable && !f.flag 0 then i == 2 else f.flag i
    else
      (f.flag i || i == 4 && a.accessible && f.flag 1 && !f.flag 3 && !isConstructor)
        && !(i == 4 && a.extendable) := by
  have h := flag_visibility i hi
  have h0 := flag_publicBit i hi
  have h2 := flag_protectedBit i hi
  have h4 := flag_finalBit i hi
  have h00 := flag_publicBit 0 (by decide)
  have h01 := flag_finalBit 0 (by decide)
  simp only [widenedMethod, has_publicBit, has_privateBit, has_staticBit]
  grind [flag_seenAs, flag_without, flag_adding]

-- ---------------------------------------------------------------------------
-- Rules in turn
-- ---------------------------------------------------------------------------

/-- At most one of the flags for public, private and protected is set. -/
def SeenOnce (f : AccessFlags) : Prop :=
  f &&& visibility ∈ [0, publicBit, privateBit, protectedBit]

instance (f : AccessFlags) : Decidable f.SeenOnce := inferInstanceAs (Decidable (_ ∈ _))

theorem SeenOnce.not_private (h : f.SeenOnce) (hPublic : f.flag 0 = true) : f.flag 1 = false := by
  have hAt : ∀ i < 3, (f &&& visibility).flag i = f.flag i := fun i hi => by
    rw [flag_and, flag_visibility i (by omega), decide_eq_true hi, Bool.and_true]
  rw [← hAt 0 (by decide)] at hPublic
  rw [← hAt 1 (by decide)]
  have hCases : ∀ v ∈ [0, publicBit, privateBit, protectedBit],
      flag v 0 = true → flag v 1 = false := by
    simp only [List.forall_mem_cons]
    exact ⟨by decide, by decide, by decide, by decide, fun _ => nofun⟩
  exact hCases _ h hPublic

theorem joins_widenedField (f : AccessFlags) : Access.Joins widenedField f where
  join a b := ext_flag fun i hi => by
    simp only [flag_widenedField hi, Access.join]
    by_cases hSeen : i < 3
    · simp only [if_pos hSeen]
      grind
    · simp only [if_neg hSeen]
      cases i == 4 <;> simp [Bool.and_assoc]
  part {a b} h := ext_flag fun i hi => by
    have hAt := congrArg (flag · i) h
    simp only [flag_widenedField hi, Access.join] at hAt ⊢
    by_cases hSeen : i < 3
    · simp only [if_pos hSeen] at hAt ⊢
      grind
    · simp only [if_neg hSeen] at hAt ⊢
      grind

/-- A rule for a class acts as the rule for a field that it opens. -/
theorem joins_widenedClass (f : AccessFlags) : Access.Joins widenedClass f where
  join a b := by
    simp only [widenedClass_eq, Access.opened_join]
    exact (joins_widenedField f).join _ _
  part {a b} h := by
    simp only [widenedClass_eq, Access.opened_join] at h ⊢
    exact (joins_widenedField f).part h

/-- A private method that became visible is not private any more, so it does not become final once
more. -/
theorem joins_widenedMethod (h : f.SeenOnce) (isConstructor : Bool) :
    Access.Joins (fun f rule => f.widenedMethod isConstructor rule) f where
  join a b := ext_flag fun i hi => by
    have hPrivate := h.not_private
    simp only [flag_widenedMethod hi, flag_widenedMethod (show 0 < 16 by decide),
      flag_widenedMethod (show 1 < 16 by decide), flag_widenedMethod (show 3 < 16 by decide),
      Access.join]
    by_cases hSeen : i < 3
    · simp only [if_pos hSeen]
      grind
    · simp only [if_neg hSeen]
      by_cases hFinal : i = 4
      · simp [hFinal]
        grind
      · simp [beq_false_of_ne hFinal]
  part {a b} hJoin := ext_flag fun i hi => by
    have hPrivate := h.not_private
    have hAt : ∀ i < 16, _ := fun i (hi : i < 16) => congrArg (flag · i) hJoin
    have hAt0 := hAt 0 (by decide)
    have hAt1 := hAt 1 (by decide)
    replace hAt := hAt i hi
    simp only [flag_widenedMethod hi, flag_widenedMethod (show 0 < 16 by decide),
      flag_widenedMethod (show 1 < 16 by decide), Access.join] at hAt hAt0 hAt1 ⊢
    by_cases hSeen : i < 3
    · simp only [if_pos hSeen] at hAt ⊢
      grind
    · simp only [if_neg hSeen] at hAt ⊢
      by_cases hFinal : i = 4
      · simp [hFinal] at *
        grind
      · simp [beq_false_of_ne hFinal]

-- ---------------------------------------------------------------------------
-- What a rule may do
-- ---------------------------------------------------------------------------

/-- From how far a class or a member is seen: from its class (0), its package (1), its package and
heirs (2), everywhere (3). Of several flags the one that lets it be seen farthest counts. -/
def reach (f : AccessFlags) : Nat :=
  if f.has publicBit then 3
  else if f.has protectedBit then 2
  else if f.has privateBit then 0
  else 1

theorem reach_le (f : AccessFlags) : f.reach ≤ 3 := by
  unfold reach
  grind

theorem reach_public (h : f.flag 0 = true) : f.reach = 3 := if_pos (has_publicBit.trans h)

theorem reach_congr (h : ∀ i < 3, f.flag i = g.flag i) : f.reach = g.reach := by
  simp only [reach, has_publicBit, has_privateBit, has_protectedBit, h 0 (by decide),
    h 1 (by decide), h 2 (by decide)]

/-- What a rule makes of flags: they are seen from at least as far, no other flag than those of
visibility and the one for final changes, a rule that makes accessible makes public, one that makes
extendable or mutable takes the flag for final away, and the flag comes only where the rule
`seals`. -/
structure Relaxed (rule : Access) (seals : Prop) (before after : AccessFlags) : Prop where
  reach : before.reach ≤ after.reach
  others : after.without (visibility.adding finalBit) = before.without (visibility.adding finalBit)
  accessible : rule.accessible = true → after &&& visibility = publicBit
  unsealed : rule.extendable = true ∨ rule.mutable = true → after.has finalBit = false
  sealed : after.has finalBit = true → before.has finalBit = true ∨ seals

theorem and_visibility_eq (h : ∀ i < 3, f.flag i = decide (i = 0)) : f &&& visibility = publicBit :=
  ext_flag fun i hi => by
    rw [flag_and, flag_visibility i hi, flag_publicBit i hi]
    by_cases hSeen : i < 3
    · rw [h i hSeen, decide_eq_true hSeen, Bool.and_true]
    · have hZero : i ≠ 0 := by omega
      rw [decide_eq_false hSeen, decide_eq_false hZero, Bool.and_false]

theorem without_others_eq (h : ∀ i < 16, 3 ≤ i → i ≠ 4 → f.flag i = g.flag i) :
    f.without (visibility.adding finalBit) = g.without (visibility.adding finalBit) :=
  ext_flag fun i hi => by
    rw [flag_without hi, flag_without hi, flag_adding, flag_visibility i hi, flag_finalBit i hi]
    by_cases hSeen : i < 3
    · rw [decide_eq_true hSeen, Bool.true_or, Bool.not_true, Bool.and_false, Bool.and_false]
    · by_cases hFinal : i = 4
      · rw [decide_eq_true hFinal, Bool.or_true, Bool.not_true, Bool.and_false, Bool.and_false]
      · rw [h i hi (by omega) hFinal]

theorem relaxed_widenedField (f : AccessFlags) (hRule : a.extendable = false) :
    Relaxed a False f (f.widenedField a) where
  reach := by
    cases hAccess : a.accessible with
    | true =>
      have hPublic : (f.widenedField a).flag 0 = true := by simp [flag_widenedField, hAccess]
      exact reach_public hPublic ▸ reach_le f
    | false =>
      refine Nat.le_of_eq (reach_congr fun i hi => ?_)
      rw [flag_widenedField (by omega), if_pos hi, hAccess]
      rfl
  others := without_others_eq fun i hi hSeen hFinal => by
    rw [flag_widenedField hi, if_neg (by omega), beq_false_of_ne hFinal]
    simp
  accessible hAccess := and_visibility_eq fun i hi => by
    rw [flag_widenedField (by omega), if_pos hi, if_pos hAccess]
    rfl
  unsealed hOpen := by
    have hMutable : a.mutable = true := hOpen.resolve_left (by simp [hRule])
    rw [has_finalBit, flag_widenedField (by decide), if_neg (by decide), hMutable]
    simp
  sealed hFinal := by
    rw [has_finalBit, flag_widenedField (by decide), if_neg (by decide), Bool.and_eq_true] at hFinal
    exact .inl (has_finalBit.trans hFinal.1)

theorem relaxed_widenedClass (f : AccessFlags) (hRule : a.mutable = false) :
    Relaxed a False f (f.widenedClass a) := by
  have h : Relaxed a.opened False f (f.widenedField a.opened) := relaxed_widenedField f rfl
  exact {
    h with
    accessible := fun hAccess => h.accessible (by rw [Access.opened, hAccess]; rfl)
    unsealed := fun hOpen => h.unsealed (.inr (hOpen.resolve_right (by simp [hRule]))) }

/-- A method becomes final only if it was private, is neither static nor a constructor, and is made
accessible but not extendable. -/
theorem relaxed_widenedMethod (f : AccessFlags) (hRule : a.mutable = false) :
    Relaxed a (f.has privateBit = true ∧ f.has staticBit = false ∧ isConstructor = false ∧
      a.accessible = true ∧ a.extendable = false) f (f.widenedMethod isConstructor a) where
  reach := by
    cases hAccess : a.accessible with
    | true =>
      have hPublic : (f.widenedMethod isConstructor a).flag 0 = true := by
        simp [flag_widenedMethod, hAccess]
      exact reach_public hPublic ▸ reach_le f
    | false =>
      by_cases hOpen : (a.extendable && !f.flag 0) = true
      · -- a method that was not public is seen by heirs now
        have hSeen : ∀ i < 3, (f.widenedMethod isConstructor a).flag i = (i == 2) := fun i hi => by
          rw [flag_widenedMethod (by omega), if_pos hi, hAccess, if_neg nofun, if_pos hOpen]
        have hBefore : f.flag 0 = false := by grind
        simp only [AccessFlags.reach, has_publicBit, has_privateBit, has_protectedBit, hBefore,
          hSeen 0 (by decide), hSeen 1 (by decide), hSeen 2 (by decide)]
        grind
      · refine Nat.le_of_eq (reach_congr fun i hi => ?_)
        rw [flag_widenedMethod (by omega), if_pos hi, hAccess, if_neg nofun, if_neg hOpen]
  others := without_others_eq fun i hi hSeen hFinal => by
    rw [flag_widenedMethod hi, if_neg (by omega), beq_false_of_ne hFinal]
    simp
  accessible hAccess := and_visibility_eq fun i hi => by
    rw [flag_widenedMethod (by omega), if_pos hi, if_pos hAccess]
    rfl
  unsealed hOpen := by
    have hExtendable : a.extendable = true := hOpen.resolve_right (by simp [hRule])
    rw [has_finalBit, flag_widenedMethod (by decide), if_neg (by decide), hExtendable]
    simp
  sealed hFinal := by
    rw [has_finalBit, flag_widenedMethod (by decide), if_neg (by decide)] at hFinal
    rw [has_finalBit, has_privateBit, has_staticBit]
    grind

end AccessFlags

end Jarsmith
