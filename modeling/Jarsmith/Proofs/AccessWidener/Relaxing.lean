import Jarsmith.Proofs.AccessWidener.Classes
import Jarsmith.Proofs.ClassFile.Bodies
import Mathlib.Data.List.Forall2

/-!
# Rules relax, and nothing else

A class after the rules differs from the class before in access flags only: in its own if it has a
rule, in those of the members with a rule, and in those of the rows for classes with a rule in the
first list of nested classes.

* `AccessWidener.Relaxes` — how a class after the rules compares with the class before.
* `AccessWidener.relaxes_widened` — every class after the rules does.
* `ClassFile.CanWiden` — when the names of a class can be read.
-/

namespace Jarsmith

open Outcome Reader

namespace ClassFile

variable {c : ClassFile}

/-- The name and the descriptor of a member can be read. -/
def HasNames (pool : Pool) (m : Member) : Prop :=
  (∃ name, pool.storedText m.name = .ok name) ∧
    ∃ descriptor, pool.storedText m.descriptor = .ok descriptor

/-- Every name that a rule could be for can be read: those of the members, and those of the classes
in the first list of nested classes. -/
structure CanWiden (c : ClassFile) : Prop where
  methods : ∀ m ∈ c.methods, HasNames c.pool m
  fields : ∀ m ∈ c.fields, HasNames c.pool m
  nested : (∀ a ∈ c.attributes, c.pool.IsOther AttributeName.innerClasses a) ∨
    ∃ place a rows,
      c.pool.attribute? c.attributes AttributeName.innerClasses = .ok (some (place, a)) ∧
      InnerClass.table a.info = .ok rows ∧
      ∀ row ∈ rows, ∃ name, c.pool.className row.inner = .ok name

/-- Nothing stands behind the rows in a list of nested classes. -/
def NestedFilled (c : ClassFile) : Prop :=
  ∀ a ∈ c.attributes, c.pool.text a.name = .ok AttributeName.innerClasses →
    (table InnerClass.read).fills a.info = true

/-- The rule of a member, as far as its names can be read. -/
def memberRule? (c : ClassFile) (rule? : String → String → String → Option Access) (m : Member) :
    Option Access := do
  let owner ← c.name.toOption
  let name ← (c.pool.storedText m.name).toOption
  let descriptor ← (c.pool.storedText m.descriptor).toOption
  rule? owner name descriptor

end ClassFile

namespace AccessWidener

open ClassFile

variable {w : AccessWidener} {pool : Pool} {c c' : ClassFile} {t : RuleTargets}
  {attributes : List Attribute}

-- ---------------------------------------------------------------------------
-- Reading names
-- ---------------------------------------------------------------------------

theorem exists_readKeys {κ α : Type} {key : α → ClassResult κ} {l : List α} :
    (∃ keyed, readKeys key l = .ok keyed) ↔ ∀ a ∈ l, ∃ k, key a = .ok k := by
  constructor
  · rintro ⟨keyed, h⟩ a ha
    obtain ⟨rfl, hAll⟩ := readKeys_eq_ok.1 h
    obtain ⟨x, hx, rfl⟩ := List.mem_map.1 ha
    exact ⟨x.1, hAll x hx⟩
  · intro h
    refine exists_mapM_ok fun a ha => ?_
    obtain ⟨k, hk⟩ := h a ha
    exact ⟨(k, a), bind_ok_iff.2 ⟨k, hk, rfl⟩⟩

theorem memberKey_eq_ok {m : Member} {key : String × String} : memberKey pool m = .ok key ↔
    pool.storedText m.name = .ok key.1 ∧ pool.storedText m.descriptor = .ok key.2 := by
  simp only [memberKey, bind_ok_iff, pure_ok_iff]
  constructor
  · rintro ⟨name, hName, descriptor, hDescriptor, rfl⟩
    exact ⟨hName, hDescriptor⟩
  · rintro ⟨hName, hDescriptor⟩
    exact ⟨_, hName, _, hDescriptor, rfl⟩

theorem exists_memberKey {m : Member} : (∃ key, memberKey pool m = .ok key) ↔ HasNames pool m := by
  simp only [memberKey_eq_ok, HasNames]
  constructor
  · rintro ⟨key, hName, hDescriptor⟩
    exact ⟨⟨_, hName⟩, _, hDescriptor⟩
  · rintro ⟨⟨name, hName⟩, descriptor, hDescriptor⟩
    exact ⟨(name, descriptor), hName, hDescriptor⟩

theorem exists_nestedTargets : (∃ nested, nestedTargets pool attributes = .ok nested) ↔
    (∀ a ∈ attributes, pool.IsOther AttributeName.innerClasses a) ∨
      ∃ place a rows,
        pool.attribute? attributes AttributeName.innerClasses = .ok (some (place, a)) ∧
        InnerClass.table a.info = .ok rows ∧
        ∀ row ∈ rows, ∃ name, pool.className row.inner = .ok name := by
  constructor
  · rintro ⟨_ | ⟨place, keyed⟩, h⟩
    · exact .inl (nestedTargets_eq_none.1 h)
    · obtain ⟨before, a, after, hSplit, hPlace, hFirst, hName, hTable, hKeys⟩ :=
        nestedTargets_eq_some.1 h
      refine .inr ⟨place, a, _,
        Pool.attribute?_eq_some.2 ⟨before, after, hSplit, hPlace, hFirst, hName⟩, hTable, ?_⟩
      exact exists_readKeys.1 ⟨keyed, readKeys_eq_ok.2 ⟨rfl, hKeys⟩⟩
  · rintro (hNone | ⟨place, a, rows, hFound, hTable, hNames⟩)
    · exact ⟨none, nestedTargets_eq_none.2 hNone⟩
    · obtain ⟨before, after, hSplit, hPlace, hFirst, hName⟩ := Pool.attribute?_eq_some.1 hFound
      obtain ⟨keyed, hKeyed⟩ := exists_readKeys.2 hNames
      obtain ⟨rfl, hKeys⟩ := readKeys_eq_ok.1 hKeyed
      exact ⟨some (place, keyed), nestedTargets_eq_some.2
        ⟨before, a, after, hSplit, hPlace, hFirst, hName, hTable, hKeys⟩⟩

/-- A class with a name can be widened if and only if all its names can be read. -/
theorem exists_ruleTargets {n : String} (hName : c.name = .ok n) :
    (∃ t, c.ruleTargets = .ok t) ↔ c.CanWiden := by
  constructor
  · rintro ⟨t, h⟩
    obtain ⟨-, hMethods, hFields, hNested⟩ := ruleTargets_eq_ok.1 h
    exact ⟨fun m hm => exists_memberKey.1 (exists_readKeys.1 ⟨_, hMethods⟩ m hm),
      fun m hm => exists_memberKey.1 (exists_readKeys.1 ⟨_, hFields⟩ m hm),
      exists_nestedTargets.1 ⟨_, hNested⟩⟩
  · rintro ⟨hMethods, hFields, hNested⟩
    obtain ⟨methods, hMethods⟩ := exists_readKeys.2 fun m hm => exists_memberKey.2 (hMethods m hm)
    obtain ⟨fields, hFields⟩ := exists_readKeys.2 fun m hm => exists_memberKey.2 (hFields m hm)
    obtain ⟨nested, hNested⟩ := exists_nestedTargets.2 hNested
    exact ⟨⟨n, methods, fields, nested⟩, ruleTargets_eq_ok.2 ⟨hName, hMethods, hFields, hNested⟩⟩

-- ---------------------------------------------------------------------------
-- Before and after
-- ---------------------------------------------------------------------------

/-- The rule of the class that a row lists, as far as its name can be read. -/
def rowRule? (w : AccessWidener) (pool : Pool) (row : InnerClass) : Option Access :=
  (pool.className row.inner).toOption.bind w.class?

/-- Flags without a rule stay, others are relaxed as their rule says. -/
def FlagsRelax (rule : Option Access) (seals : Access → Prop) (before after : AccessFlags) : Prop :=
  rule.elim (after = before) fun rule => AccessFlags.Relaxed rule (seals rule) before after

/-- A rule makes a method final that was private and is neither static nor a constructor, if it
makes it accessible but not extendable. -/
def SealsMethod (pool : Pool) (m : Member) (rule : Access) : Prop :=
  m.access.has AccessFlags.privateBit = true ∧ m.access.has AccessFlags.staticBit = false ∧
    pool.storedText m.name ≠ .ok "<init>" ∧ rule.accessible = true ∧ rule.extendable = false

/-- A member before and after the rules: only its flags change. -/
structure MemberRelaxes (rule : Option Access) (seals : Access → Prop) (m m' : Member) : Prop where
  rest : { m' with access := m.access } = m
  flags : FlagsRelax rule seals m.access m'.access

/-- A row before and after the rules: only its flags change. -/
structure RowRelaxes (rule : Option Access) (row row' : InnerClass) : Prop where
  rest : { row' with access := row.access } = row
  flags : FlagsRelax rule (fun _ => False) row.access row'.access

/-- No row in the first list of nested classes has a rule, as far as the list can be read. -/
def NestedUnruled (w : AccessWidener) (pool : Pool) (attributes : List Attribute) : Prop :=
  ∀ place a rows, pool.attribute? attributes AttributeName.innerClasses = .ok (some (place, a)) →
    InnerClass.table a.info = .ok rows → ∀ row ∈ rows, w.rowRule? pool row = none

/-- The attributes of a class before and after the rules: they stay, or only the rows in the first
list of nested classes change. -/
inductive NestedRelaxes (w : AccessWidener) (pool : Pool) (before after : List Attribute) : Prop
  | unruled (unruled : w.NestedUnruled pool before) (same : after = before)
  | rows (front behind : List Attribute) (a : Attribute) (info : Bytes)
      (rows rows' : List InnerClass)
      (before : before = front ++ a :: behind)
      (first : ∀ b ∈ front, pool.IsOther AttributeName.innerClasses b)
      (name : pool.text a.name = .ok AttributeName.innerClasses)
      (after : after = front ++ ⟨a.name, info⟩ :: behind)
      (read : InnerClass.table a.info = .ok rows ∧ a.info = tableBytes InnerClass.toBytes rows)
      (written : InnerClass.table info = .ok rows' ∧ info = tableBytes InnerClass.toBytes rows')
      (each : List.Forall₂ (fun row row' => RowRelaxes (w.rowRule? pool row) row row') rows rows')

/-- A class before and after the rules. Its version, its pool, its name, its superclass and its
interfaces stay; its members stay in their order, and so do their names, descriptors and attributes;
flags with a rule are relaxed. -/
structure Relaxes (w : AccessWidener) (c c' : ClassFile) : Prop where
  rest : { c' with
    access := c.access, methods := c.methods, fields := c.fields, attributes := c.attributes } = c
  access : FlagsRelax (c.name.toOption.bind w.class?) (fun _ => False) c.access c'.access
  methods : List.Forall₂ (fun m m' =>
    MemberRelaxes (c.memberRule? w.method? m) (SealsMethod c.pool m) m m') c.methods c'.methods
  fields : List.Forall₂ (fun m m' =>
    MemberRelaxes (c.memberRule? w.field? m) (fun _ => False) m m') c.fields c'.fields
  attributes : w.NestedRelaxes c.pool c.attributes c'.attributes

/-- No rule is for the class, a member of it, or a class in its first list of nested classes. -/
structure Unruled (w : AccessWidener) (c : ClassFile) : Prop where
  access : c.name.toOption.bind w.class? = none
  methods : ∀ m ∈ c.methods, c.memberRule? w.method? m = none
  fields : ∀ m ∈ c.fields, c.memberRule? w.field? m = none
  attributes : w.NestedUnruled c.pool c.attributes

-- ---------------------------------------------------------------------------
-- The rules relax
-- ---------------------------------------------------------------------------

theorem flagsRelax_ruled {rule : Option Access} {seals : Access → Prop}
    {change : AccessFlags → Access → AccessFlags} {f : AccessFlags}
    (h : ∀ a, rule = some a → AccessFlags.Relaxed a (seals a) f (change f a)) :
    FlagsRelax rule seals f (ruled rule change f) := by
  cases rule with
  | none => exact rfl
  | some a => exact h a rfl

/-- Values before and after the rules of their keys. -/
theorem forall₂_allRuled {κ α : Type} {keyed : List (κ × α)} {rule? : κ → Option Access}
    {change : κ → α → Access → α} (look? : α → Option Access) (R : Option Access → α → α → Prop)
    (hLook : ∀ x ∈ keyed, look? x.2 = rule? x.1) (hNone : ∀ a, R none a a)
    (hSome : ∀ x ∈ keyed, ∀ rule, rule? x.1 = some rule → R (some rule) x.2 (change x.1 x.2 rule)) :
    List.Forall₂ (fun a a' => R (look? a) a a') (keyed.map (·.2))
      (allRuled rule? change keyed) := by
  rw [allRuled, List.forall₂_map_left_iff, List.forall₂_map_right_iff, List.forall₂_same]
  intro x hx
  rw [hLook x hx]
  cases hRule : rule? x.1 with
  | none => exact hNone x.2
  | some rule => exact hSome x hx rule hRule

theorem rowsRelax {keyed : List (String × InnerClass)} (hMeaningful : Meaningful w)
    (hKeys : ∀ x ∈ keyed, rowKey pool x.2 = .ok x.1) :
    List.Forall₂ (fun row row' => RowRelaxes (w.rowRule? pool row) row row') (keyed.map (·.2))
      (allRuled w.class? changeRow keyed) := by
  refine forall₂_allRuled (w.rowRule? pool) RowRelaxes (fun x hx => ?_) (fun _ => ⟨rfl, rfl⟩)
    fun x _ rule hRule => ⟨rfl, ?_⟩
  · rw [rowRule?, show pool.className x.2.inner = .ok x.1 from hKeys x hx]
    rfl
  · exact AccessFlags.relaxed_widenedClass x.2.access (hMeaningful.classes x.1 rule hRule)

theorem nestedRelaxes_widenedNested {nested : Option (Nat × List (String × InnerClass))}
    (hMeaningful : Meaningful w) (hNested : nestedTargets pool attributes = .ok nested)
    (hFilled : ∀ a ∈ attributes, pool.text a.name = .ok AttributeName.innerClasses →
      (table InnerClass.read).fills a.info = true) :
    w.NestedRelaxes pool attributes (w.widenedNested attributes nested) := by
  cases nested with
  | none =>
    refine .unruled (fun place a rows hFound => ?_) rfl
    rw [Pool.attribute?_eq_none.2 (nestedTargets_eq_none.1 hNested)] at hFound
    cases hFound
  | some entry =>
    obtain ⟨place, keyed⟩ := entry
    obtain ⟨before, a, after, rfl, rfl, hFirst, hName, hTable, hKeys⟩ :=
      nestedTargets_eq_some.1 hNested
    have hMem : a ∈ before ++ a :: after := List.mem_append_right _ List.mem_cons_self
    have hBody := ((reads_table InnerClass.reads_read).eq_of_front
      (fills_iff.1 (hFilled a hMem hName)) hTable).2
    refine .rows before after a (tableBytes InnerClass.toBytes (allRuled w.class? changeRow keyed))
      _ _ rfl hFirst hName ?_ ⟨hTable, hBody⟩ ⟨table_allRuled hTable, rfl⟩
      (rowsRelax hMeaningful hKeys)
    rw [widenedNested_append]
    split
    · rename_i hSame
      rw [hSame, ← hBody]
    · rfl

/-- **A class after the rules** is the class before but for the flags that have a rule. -/
theorem relaxes_widened (hMeaningful : Meaningful w) (hTargets : c.ruleTargets = .ok t)
    (hFilled : c.NestedFilled) : w.Relaxes c (w.widened c t) := by
  obtain ⟨hName, hMethods, hFields, hNested⟩ := ruleTargets_eq_ok.1 hTargets
  obtain ⟨hMethodList, hMethodKeys⟩ := readKeys_eq_ok.1 hMethods
  obtain ⟨hFieldList, hFieldKeys⟩ := readKeys_eq_ok.1 hFields
  have hLook : ∀ (rule? : String → String → String → Option Access) (m : Member) key,
      memberKey c.pool m = .ok key → c.memberRule? rule? m = rule? t.name key.1 key.2 := by
    intro rule? m key hKey
    obtain ⟨hOwn, hDescriptor⟩ := memberKey_eq_ok.1 hKey
    rw [memberRule?, hName, hOwn, hDescriptor]
    rfl
  refine ⟨rfl, ?_, ?_, ?_, nestedRelaxes_widenedNested hMeaningful hNested hFilled⟩
  · rw [hName]
    exact flagsRelax_ruled fun a hRule =>
      AccessFlags.relaxed_widenedClass c.access (hMeaningful.classes t.name a hRule)
  · rw [widened_methods, ← hMethodList]
    refine forall₂_allRuled (c.memberRule? w.method?)
      (fun rule m m' => MemberRelaxes rule (SealsMethod c.pool m) m m')
      (fun x hx => hLook w.method? x.2 x.1 (hMethodKeys x hx)) (fun _ => ⟨rfl, rfl⟩)
      fun x hx rule hRule => ⟨rfl, ?_⟩
    have hRelaxed : AccessFlags.Relaxed rule _ x.2.access
        (x.2.access.widenedMethod (x.1.1 == "<init>") rule) :=
      AccessFlags.relaxed_widenedMethod x.2.access (hMeaningful.methods _ rule hRule)
    refine { hRelaxed with sealed := fun hFinal => (hRelaxed.sealed hFinal).imp_right ?_ }
    rintro ⟨hPrivate, hStatic, hOwn, hRule⟩
    refine ⟨hPrivate, hStatic, fun hInit => ?_, hRule⟩
    rw [(memberKey_eq_ok.1 (hMethodKeys x hx)).1] at hInit
    rw [Except.ok.inj hInit] at hOwn
    exact nomatch hOwn
  · rw [widened_fields, ← hFieldList]
    exact forall₂_allRuled (c.memberRule? w.field?)
      (fun rule m m' => MemberRelaxes rule (fun _ => False) m m')
      (fun x hx => hLook w.field? x.2 x.1 (hFieldKeys x hx)) (fun _ => ⟨rfl, rfl⟩)
      fun x hx rule hRule =>
        ⟨rfl, AccessFlags.relaxed_widenedField x.2.access (hMeaningful.fields _ rule hRule)⟩

-- ---------------------------------------------------------------------------
-- Classes without rules
-- ---------------------------------------------------------------------------

theorem MemberRelaxes.eq {seals : Access → Prop} {m m' : Member}
    (h : MemberRelaxes none seals m m') :
    m' = m := by
  have hFlags : m'.access = m.access := h.flags
  rw [← h.rest, ← hFlags]

theorem RowRelaxes.eq {row row' : InnerClass} (h : RowRelaxes none row row') : row' = row := by
  have hFlags : row'.access = row.access := h.flags
  rw [← h.rest, ← hFlags]

/-- Values without rules stay as they are. -/
theorem eq_of_forall₂ {α : Type} {look? : α → Option Access} (R : Option Access → α → α → Prop)
    {l l' : List α} (hEq : ∀ {a a'}, R none a a' → a' = a) (hNone : ∀ a ∈ l, look? a = none)
    (h : List.Forall₂ (fun a a' => R (look? a) a a') l l') : l' = l := by
  induction h with
  | nil => rfl
  | cons ha _ ih =>
    obtain ⟨hFirst, hMore⟩ := List.forall_mem_cons.1 hNone
    rw [hFirst] at ha
    rw [hEq ha, ih hMore]

theorem NestedRelaxes.eq {before after : List Attribute} (h : w.NestedRelaxes pool before after)
    (hUnruled : w.NestedUnruled pool before) : after = before := by
  cases h with
  | unruled _ same => exact same
  | rows front behind a info rows rows' before first name after read written each =>
    subst before
    have hFound := Pool.attribute?_eq_some.2 ⟨front, behind, rfl, rfl, first, name⟩
    have hRows : rows' = rows :=
      eq_of_forall₂ RowRelaxes RowRelaxes.eq (hUnruled front.length a rows hFound read.1) each
    rw [after, written.2, hRows, ← read.2]

/-- A class without rules stays as it is. -/
theorem Relaxes.eq (h : w.Relaxes c c') (hUnruled : w.Unruled c) : c' = c := by
  have hAccess : c'.access = c.access := by
    have hFlags := h.access
    rwa [hUnruled.access] at hFlags
  have hMethods : c'.methods = c.methods :=
    eq_of_forall₂ (fun rule m m' => MemberRelaxes rule (SealsMethod c.pool m) m m')
      MemberRelaxes.eq hUnruled.methods h.methods
  have hFields : c'.fields = c.fields :=
    eq_of_forall₂ (fun rule m m' => MemberRelaxes rule (fun _ => False) m m')
      MemberRelaxes.eq hUnruled.fields h.fields
  have hAttributes : c'.attributes = c.attributes := h.attributes.eq hUnruled.attributes
  rw [← h.rest, ← hAccess, ← hMethods, ← hFields, ← hAttributes]

/-- A class without rules compares with itself. -/
theorem Unruled.relaxes (h : w.Unruled c) : w.Relaxes c c := by
  refine ⟨rfl, ?_, List.forall₂_same.2 fun m hm => ⟨rfl, ?_⟩,
    List.forall₂_same.2 fun m hm => ⟨rfl, ?_⟩, .unruled h.attributes rfl⟩
  · rw [h.access]
    rfl
  · rw [h.methods m hm]
    rfl
  · rw [h.fields m hm]
    rfl

end AccessWidener

end Jarsmith
