import Jarsmith.AccessWidener.Basic
import Jarsmith.Proofs.OrderedMap
import Jarsmith.Proofs.Outcome

/-!
# The rules of a widener

Which rules a widener has after others were merged into it, and which changes no text can ask for.

* `AccessWidener.class?_merge` and its siblings — the rules of two wideners are joined.
* `AccessWidener.SameRules` — two wideners find the same changes for every target.
* `AccessWidener.OfTexts` — the wideners that reading and merging make; `OfTexts.meaningful` says
  which changes they never have.
-/

namespace Jarsmith

open Outcome

namespace Access

theorem join_comm (a b : Access) : a.join b = b.join a := by
  simp only [join, Bool.or_comm]

theorem join_self (a : Access) : a.join a = a := by
  simp only [join, Bool.or_self]

end Access

namespace AccessWidener

variable {v w : AccessWidener}

-- ---------------------------------------------------------------------------
-- Merging
-- ---------------------------------------------------------------------------

section Tables

variable {κ : Type} [DecidableEq κ] {m n : OrderedMap κ Access} {j k : κ} {a : Access}

theorem get?_widen : (widen m k a).get? j =
    if k = j then some (((m.get? j).getD .none).join a) else m.get? j := by
  rw [widen, OrderedMap.update, OrderedMap.get?_insert]
  split
  · rename_i hKey
    rw [hKey]
  · rfl

theorem get?_foldl_widen :
    (n.entries.foldl (fun m e => widen m e.1 e.2) m).get? j =
      Option.merge Access.join (m.get? j) (n.get? j) := by
  have hFold : (n.entries.foldl (fun m e => widen m e.1 e.2) m).get? j =
      (n.get? j).elim (m.get? j) fun a => some (((m.get? j).getD .none).join a) :=
    OrderedMap.foldl_independent (fun m : OrderedMap κ Access => m.get? j)
      (fun o a => some ((o.getD Access.none).join a)) n.nodup fun _ _ _ => get?_widen
  rw [hFold]
  cases n.get? j with
  | none => exact Option.merge_none_right.symm
  | some b =>
    cases m.get? j with
    | none => rfl
    | some a => rfl

theorem isEmpty_iff : m.isEmpty = true ↔ ∀ k, m.get? k = none := by
  rw [OrderedMap.isEmpty, List.isEmpty_iff]
  constructor
  · intro h k
    rw [OrderedMap.get?, h]
    rfl
  · intro h
    cases hEntries : m.entries with
    | nil => rfl
    | cons e more =>
      have hFirst : m.get? e.1 = some e.2 :=
        OrderedMap.get?_eq_some.2 (hEntries ▸ List.mem_cons_self)
      rw [h] at hFirst
      cases hFirst

end Tables

variable {owner name descriptor : String}

theorem class?_merge :
    (v.merge w).class? name = Option.merge Access.join (v.class? name) (w.class? name) :=
  get?_foldl_widen

theorem method?_merge : (v.merge w).method? owner name descriptor =
    Option.merge Access.join (v.method? owner name descriptor) (w.method? owner name descriptor) :=
  get?_foldl_widen

theorem field?_merge : (v.merge w).field? owner name descriptor =
    Option.merge Access.join (v.field? owner name descriptor) (w.field? owner name descriptor) :=
  get?_foldl_widen

/-- Two wideners find the same changes for every target. -/
structure SameRules (v w : AccessWidener) : Prop where
  classes : ∀ name, v.class? name = w.class? name
  methods : ∀ owner name descriptor,
    v.method? owner name descriptor = w.method? owner name descriptor
  fields : ∀ owner name descriptor, v.field? owner name descriptor = w.field? owner name descriptor

theorem isEmpty_eq_true : w.isEmpty = true ↔ (∀ name, w.class? name = none) ∧
    (∀ owner name descriptor, w.method? owner name descriptor = none) ∧
      ∀ owner name descriptor, w.field? owner name descriptor = none := by
  have hMember : ∀ table : OrderedMap MemberTarget Access, (∀ target, table.get? target = none) ↔
      ∀ owner name descriptor, table.get? ⟨owner, name, descriptor⟩ = none := fun table =>
    ⟨fun h owner name descriptor => h ⟨owner, name, descriptor⟩, fun h target => h _ _ _⟩
  rw [isEmpty, Bool.and_eq_true, Bool.and_eq_true, and_assoc, isEmpty_iff, isEmpty_iff, isEmpty_iff,
    hMember, hMember]
  rfl

namespace SameRules

theorem symm (h : SameRules v w) : SameRules w v :=
  ⟨fun _ => (h.classes _).symm, fun _ _ _ => (h.methods _ _ _).symm,
    fun _ _ _ => (h.fields _ _ _).symm⟩

theorem trans {u : AccessWidener} (h : SameRules u v) (h' : SameRules v w) : SameRules u w :=
  ⟨fun _ => (h.classes _).trans (h'.classes _),
    fun _ _ _ => (h.methods _ _ _).trans (h'.methods _ _ _),
    fun _ _ _ => (h.fields _ _ _).trans (h'.fields _ _ _)⟩

theorem isEmpty (h : SameRules v w) : v.isEmpty = w.isEmpty := by
  rw [Bool.eq_iff_iff]
  simp only [isEmpty_eq_true, h.classes, h.methods, h.fields]

theorem merge_comm (v w : AccessWidener) : SameRules (v.merge w) (w.merge v) := by
  have hComm : ∀ o p : Option Access,
      Option.merge Access.join o p = Option.merge Access.join p o := by
    rintro (_ | a) (_ | b)
    · rfl
    · rfl
    · rfl
    · exact congrArg some (Access.join_comm a b)
  refine ⟨fun _ => ?_, fun _ _ _ => ?_, fun _ _ _ => ?_⟩
  · rw [class?_merge, class?_merge, hComm]
  · rw [method?_merge, method?_merge, hComm]
  · rw [field?_merge, field?_merge, hComm]

theorem merge_self (w : AccessWidener) : SameRules (w.merge w) w := by
  have hSelf : ∀ o : Option Access, Option.merge Access.join o o = o := by
    rintro (_ | a)
    · rfl
    · exact congrArg some (Access.join_self a)
  refine ⟨fun _ => ?_, fun _ _ _ => ?_, fun _ _ _ => ?_⟩
  · rw [class?_merge, hSelf]
  · rw [method?_merge, hSelf]
  · rw [field?_merge, hSelf]

end SameRules

theorem isEmpty_merge : (v.merge w).isEmpty = (v.isEmpty && w.isEmpty) := by
  rw [Bool.eq_iff_iff, Bool.and_eq_true]
  simp only [isEmpty_eq_true, class?_merge, method?_merge, field?_merge, Option.merge_eq_none_iff,
    forall_and]
  tauto

/-- A widener without rules adds none. -/
theorem sameRules_merge_left (h : v.isEmpty = true) : SameRules (v.merge w) w := by
  obtain ⟨hClasses, hMethods, hFields⟩ := isEmpty_eq_true.1 h
  refine ⟨fun _ => ?_, fun _ _ _ => ?_, fun _ _ _ => ?_⟩
  · rw [class?_merge, hClasses, Option.merge_none_left]
  · rw [method?_merge, hMethods, Option.merge_none_left]
  · rw [field?_merge, hFields, Option.merge_none_left]

-- ---------------------------------------------------------------------------
-- Wideners that were read
-- ---------------------------------------------------------------------------

/-- The wideners that reading texts and merging make. A text that turns out to be faulty leaves what
stands above its fault. -/
inductive OfTexts : AccessWidener → Prop
  | empty : OfTexts .empty
  | read {w : AccessWidener} (text : String) (expected : Option String) :
      OfTexts w → OfTexts (w.read text expected).1
  | merge {v w : AccessWidener} : OfTexts v → OfTexts w → OfTexts (v.merge w)

section Tables

variable {κ : Type} [DecidableEq κ] {m n : OrderedMap κ Access} {k : κ} {a : Access}
  {flag : Access → Bool}

/-- No rule of a table asks for a change. -/
def Never (flag : Access → Bool) (m : OrderedMap κ Access) : Prop :=
  ∀ k a, m.get? k = some a → flag a = false

/-- A change that `Access` may hold: none holds it if there is no change, and a join only if one of
its sides does. -/
structure IsChange (flag : Access → Bool) : Prop where
  none : flag .none = false
  join : ∀ a b, flag (a.join b) = (flag a || flag b)

theorem isChange_extendable : IsChange Access.extendable := ⟨rfl, fun _ _ => rfl⟩

theorem isChange_mutable : IsChange Access.mutable := ⟨rfl, fun _ _ => rfl⟩

theorem never_empty : Never flag (∅ : OrderedMap κ Access) := fun _ _ => nofun

theorem Never.widen (h : Never flag m) (hFlag : IsChange flag) (ha : flag a = false) :
    Never flag (widen m k a) := by
  intro j b hGet
  rw [get?_widen] at hGet
  split at hGet
  · obtain rfl := Option.some.inj hGet
    rw [hFlag.join, ha, Bool.or_false]
    cases hOld : m.get? j with
    | none => exact hFlag.none
    | some old => exact h j old hOld
  · exact h j b hGet

theorem Never.merge (h : Never flag m) (hFlag : IsChange flag) (hn : Never flag n) :
    Never flag (n.entries.foldl (fun m e => AccessWidener.widen m e.1 e.2) m) := by
  intro j b hGet
  rw [get?_foldl_widen] at hGet
  cases hLeft : m.get? j with
  | none =>
    rw [hLeft, Option.merge_none_left] at hGet
    exact hn j b hGet
  | some left =>
    cases hRight : n.get? j with
    | none =>
      rw [hLeft, hRight] at hGet
      exact h j b (hLeft.trans hGet)
    | some right =>
      rw [hLeft, hRight] at hGet
      obtain rfl := Option.some.inj hGet
      rw [hFlag.join, h j left hLeft, hn j right hRight, Bool.or_false]

end Tables

/-- Classes and methods are never made mutable, fields never extendable. -/
structure Meaningful (w : AccessWidener) : Prop where
  classes : Never Access.mutable w.classes
  methods : Never Access.mutable w.methods
  fields : Never Access.extendable w.fields

/-- A rule for a class or a method that is not to become mutable, or for a field that is not to
become extendable. -/
def IsMeaningful : AccessRule → Prop
  | .onClass _ change => change ≠ .mutable
  | .onMethod _ change => change ≠ .mutable
  | .onField _ change => change ≠ .extendable

theorem isMeaningful_parse {version : AccessRule.Version} {line : String} {rule : AccessRule}
    (h : AccessRule.parse version line = .ok rule) : IsMeaningful rule := by
  unfold AccessRule.parse at h
  split at h
  · obtain ⟨change, -, h⟩ := bind_ok_iff.1 h
    split at h
    · by_cases hChange : change = .mutable
      · simp [hChange] at h
      · rw [if_neg hChange] at h
        obtain rfl := pure_ok_iff.1 h
        exact hChange
    · by_cases hChange : change = .mutable
      · simp [hChange] at h
      · rw [if_neg hChange] at h
        split at h
        · simp at h
        · obtain rfl := pure_ok_iff.1 h
          exact hChange
    · by_cases hChange : change = .extendable
      · simp [hChange] at h
      · rw [if_neg hChange] at h
        obtain rfl := pure_ok_iff.1 h
        exact hChange
    · simp at h
  · simp at h

theorem Meaningful.addClass (h : Meaningful w) {name : String} {a : Access}
    (ha : a.mutable = false) : Meaningful (w.addClass name a) :=
  ⟨h.classes.widen isChange_mutable ha, h.methods, h.fields⟩

theorem Meaningful.add (h : Meaningful w) {rule : AccessRule} (hRule : IsMeaningful rule) :
    Meaningful (w.add rule) := by
  have hOnly : ∀ change : AccessChange,
      change ≠ .mutable → (Access.only change).mutable = false := by
    rintro (_ | _ | _) hChange
    · rfl
    · rfl
    · exact absurd rfl hChange
  cases rule with
  | onClass name change => exact h.addClass (hOnly change hRule)
  | onMethod target change =>
    have hMethod :
        Meaningful { w with methods := AccessWidener.widen w.methods target (.only change) } :=
      ⟨h.classes, h.methods.widen isChange_mutable (hOnly change hRule), h.fields⟩
    refine hMethod.addClass (hOnly _ ?_)
    split <;> decide
  | onField target change =>
    have hExtendable : (Access.only change).extendable = false := by
      cases change with
      | extendable => exact absurd rfl hRule
      | _ => rfl
    have hField :
        Meaningful { w with fields := AccessWidener.widen w.fields target (.only change) } :=
      ⟨h.classes, h.methods, h.fields.widen isChange_extendable hExtendable⟩
    show Meaningful (if change = .accessible then
      AccessWidener.addClass _ target.owner (.only .accessible) else _)
    split
    · exact hField.addClass rfl
    · exact hField

theorem Meaningful.addLines (h : Meaningful w) {version : AccessRule.Version}
    {lines : List (Nat × String)} : Meaningful (w.addLines version lines).1 := by
  induction lines generalizing w with
  | nil => exact h
  | cons line more ih =>
    rw [AccessWidener.addLines]
    split
    · rename_i rule hParse
      exact ih (h.add (isMeaningful_parse hParse))
    · exact h

/-- A header sets the namespace and no rule. -/
theorem Meaningful.addHeader (h : Meaningful w) {expected : Option String} {line : String}
    {version : AccessRule.Version} (hHeader : w.addHeader expected line = .ok (version, v)) :
    Meaningful v := by
  unfold AccessWidener.addHeader at hHeader
  obtain ⟨⟨parsed, name⟩, -, hHeader⟩ := bind_ok_iff.1 hHeader
  obtain rfl : { w with naming := some name } = v := by
    cases expected <;> cases hNaming : w.naming <;> simp only [hNaming] at hHeader <;>
      (repeat' split at hHeader) <;> simp_all
  exact ⟨h.classes, h.methods, h.fields⟩

theorem Meaningful.read (h : Meaningful w) {text : String} {expected : Option String} :
    Meaningful (w.read text expected).1 := by
  unfold AccessWidener.read
  split
  · exact h
  · split
    · rename_i hHeader
      exact (h.addHeader hHeader).addLines
    · exact h

/-- What no text asks for, no widener does. -/
theorem OfTexts.meaningful (h : OfTexts w) : Meaningful w := by
  induction h with
  | empty => exact ⟨never_empty, never_empty, never_empty⟩
  | read text expected _ ih => exact ih.read
  | merge _ _ ihv ihw =>
    exact ⟨ihv.classes.merge isChange_mutable ihw.classes,
      ihv.methods.merge isChange_mutable ihw.methods,
      ihv.fields.merge isChange_extendable ihw.fields⟩

end AccessWidener

end Jarsmith
