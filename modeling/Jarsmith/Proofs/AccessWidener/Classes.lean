import Jarsmith.Proofs.AccessWidener.Flags
import Jarsmith.Proofs.AccessWidener.Rules
import Jarsmith.Proofs.ClassFile.Marker
import Jarsmith.Proofs.Pool.Texts

/-!
# Classes after rules

What a widener asks of a class does not depend on its rules: every name that a rule could be for is
read, whether there is one or not. So the rules act on a class whose names are known.

* `ClassFile.ruleTargets` — all names of a class that rules are looked up for.
* `AccessWidener.apply_eq` — a class after the rules, by these names.
* `AccessWidener.widened_widened` — the rules of two wideners in turn.
-/

namespace Jarsmith

open Outcome Reader

namespace Outcome

variable {ε α β γ : Type}

/-- A loop over steps that end in a computation without faults. -/
theorem mapM_map {f : α → Except ε γ} {h : α → Except ε β} {g : β → γ}
    (hf : ∀ a, f a = g <$> h a) (l : List α) : l.mapM f = List.map g <$> l.mapM h := by
  induction l with
  | nil => rfl
  | cons a more ih =>
    rw [List.mapM_cons, List.mapM_cons, hf, ih]
    cases h a with
    | error e => rfl
    | ok b =>
      cases more.mapM h with
      | error e => rfl
      | ok bs => rfl

end Outcome

namespace AccessWidener

-- ---------------------------------------------------------------------------
-- Values under the keys of their rules
-- ---------------------------------------------------------------------------

section Values

variable {α : Type} {change : α → Access → α} {a : α} {rule more : Option Access}

/-- A value after its rule, if there is one. -/
def ruled (rule : Option Access) (change : α → Access → α) (a : α) : α := rule.elim a (change a)

/-- Two rules in turn act as their join does. -/
theorem ruled_ruled (h : Access.Joins change a) :
    ruled more change (ruled rule change a) =
      ruled (Option.merge Access.join rule more) change a := by
  cases rule with
  | none => rw [Option.merge_none_left]; rfl
  | some rule =>
    cases more with
    | none => rfl
    | some more => exact h.join rule more

/-- What the join of two rules leaves as it is, the first one leaves as it is. -/
theorem ruled_part (h : Access.Joins change a)
    (hSame : ruled (Option.merge Access.join rule more) change a = a) :
    ruled rule change a = a := by
  cases rule with
  | none => rfl
  | some rule =>
    cases more with
    | none => exact hSame
    | some more => exact h.part hSame

end Values

section Keyed

variable {κ α : Type} {key : α → ClassResult κ} {rule? more? : κ → Option Access}
  {change : κ → α → Access → α} {l : List α} {keyed : List (κ × α)} {x : κ × α}

/-- The values, each under the key of its rule. -/
def readKeys (key : α → ClassResult κ) (l : List α) : ClassResult (List (κ × α)) :=
  l.mapM fun a => do pure (← key a, a)

/-- A value under a key after the rule of the key. -/
def keyRuled (rule? : κ → Option Access) (change : κ → α → Access → α) (x : κ × α) : κ × α :=
  (x.1, ruled (rule? x.1) (change x.1) x.2)

/-- The values after the rules of their keys. -/
def allRuled (rule? : κ → Option Access) (change : κ → α → Access → α) (keyed : List (κ × α)) :
    List α :=
  keyed.map fun x => ruled (rule? x.1) (change x.1) x.2

theorem readKeys_eq_ok :
    readKeys key l = .ok keyed ↔ keyed.map (·.2) = l ∧ ∀ x ∈ keyed, key x.2 = .ok x.1 := by
  unfold readKeys
  induction l generalizing keyed with
  | nil => cases keyed <;> simp
  | cons a more ih =>
    simp only [List.mapM_cons, bind_ok_iff, pure_ok_iff]
    constructor
    · rintro ⟨_, ⟨k, hKey, rfl⟩, more, hMore, rfl⟩
      obtain ⟨rfl, hAll⟩ := ih.1 hMore
      exact ⟨rfl, List.forall_mem_cons.2 ⟨hKey, hAll⟩⟩
    · rintro ⟨hMap, hAll⟩
      cases keyed with
      | nil => cases hMap
      | cons x keyed =>
        obtain ⟨rfl, rfl⟩ := List.cons.inj hMap
        obtain ⟨hFirst, hMore⟩ := List.forall_mem_cons.1 hAll
        exact ⟨x, ⟨x.1, hFirst, rfl⟩, keyed, ih.2 ⟨rfl, hMore⟩, rfl⟩

/-- A loop that reads a key and then applies its rule. -/
theorem mapM_ruled {f : α → ClassResult α}
    (hf : ∀ a, f a = do let k ← key a; pure (ruled (rule? k) (change k) a)) (l : List α) :
    l.mapM f = allRuled rule? change <$> readKeys key l := by
  refine mapM_map (fun a => ?_) l
  rw [hf, map_eq_pure_bind, bind_assoc]
  rfl

/-- Rules leave the keys as they are. -/
theorem readKeys_allRuled (hKey : ∀ k a rule, key (change k a rule) = key a)
    (h : readKeys key l = .ok keyed) :
    readKeys key (allRuled rule? change keyed) = .ok (keyed.map (keyRuled rule? change)) := by
  obtain ⟨-, hAll⟩ := readKeys_eq_ok.1 h
  refine readKeys_eq_ok.2 ⟨List.map_map, fun y hy => ?_⟩
  obtain ⟨x, hx, rfl⟩ := List.mem_map.1 hy
  show key ((rule? x.1).elim x.2 (change x.1 x.2)) = .ok x.1
  cases rule? x.1 with
  | none => exact hAll x hx
  | some rule => exact (hKey x.1 x.2 rule).trans (hAll x hx)

/-- The rules of two wideners in turn act as their joins do. -/
theorem allRuled_map (h : ∀ x ∈ keyed, Access.Joins (change x.1) x.2) :
    allRuled more? change (keyed.map (keyRuled rule? change)) =
      allRuled (fun k => Option.merge Access.join (rule? k) (more? k)) change keyed := by
  rw [allRuled, List.map_map]
  exact List.map_congr_left fun x hx => ruled_ruled (h x hx)

/-- What the joins of the rules leave as it is, the first rules leave as it is. -/
theorem allRuled_part (h : ∀ x ∈ keyed, Access.Joins (change x.1) x.2)
    (hSame : allRuled (fun k => Option.merge Access.join (rule? k) (more? k)) change keyed =
      keyed.map (·.2)) :
    allRuled rule? change keyed = keyed.map (·.2) :=
  List.map_congr_left fun x hx => ruled_part (h x hx) (List.map_inj_left.1 hSame x hx)

end Keyed

-- ---------------------------------------------------------------------------
-- The names of a class
-- ---------------------------------------------------------------------------

/-- The name and the descriptor of a member. -/
def memberKey (pool : Pool) (m : Member) : ClassResult (String × String) := do
  let name ← pool.storedText m.name
  let descriptor ← pool.storedText m.descriptor
  pure (name, descriptor)

/-- The name of the class that a row lists. -/
def rowKey (pool : Pool) (row : InnerClass) : ClassResult String := pool.className row.inner

end AccessWidener

/-- What rules of a widener are looked up for in a class. -/
structure RuleTargets where
  name : String
  methods : List ((String × String) × Member)
  fields : List ((String × String) × Member)
  /-- The place of the first list of nested classes, and its rows. -/
  nested : Option (Nat × List (String × InnerClass))

namespace ClassFile

open AccessWidener

/-- The first list of nested classes, each row under the name of its class. -/
def nestedTargets (pool : Pool) (attributes : List Attribute) :
    ClassResult (Option (Nat × List (String × InnerClass))) := do
  match ← pool.attribute? attributes AttributeName.innerClasses with
  | none => pure none
  | some (place, a) =>
    let rows ← InnerClass.table a.info
    pure (some (place, ← readKeys (rowKey pool) rows))

/-- All names of a class that rules are looked up for. -/
def ruleTargets (c : ClassFile) : ClassResult RuleTargets := do
  let name ← c.name
  let methods ← readKeys (memberKey c.pool) c.methods
  let fields ← readKeys (memberKey c.pool) c.fields
  let nested ← nestedTargets c.pool c.attributes
  pure ⟨name, methods, fields, nested⟩

end ClassFile

namespace AccessWidener

variable {v w : AccessWidener} {pool : Pool} {c : ClassFile} {t : RuleTargets}
  {attributes : List Attribute}

/-- A method after a rule. -/
def changeMethod (key : String × String) (m : Member) (rule : Access) : Member :=
  { m with access := m.access.widenedMethod (key.1 == "<init>") rule }

/-- A field after a rule. -/
def changeField (_ : String × String) (m : Member) (rule : Access) : Member :=
  { m with access := m.access.widenedField rule }

/-- A row of a nested class after a rule. -/
def changeRow (_ : String) (row : InnerClass) (rule : Access) : InnerClass :=
  { row with access := row.access.widenedClass rule }

/-- The attributes of a class with the rows of nested classes after the rules. -/
def widenedNested (w : AccessWidener) (attributes : List Attribute) :
    Option (Nat × List (String × InnerClass)) → List Attribute
  | none => attributes
  | some (place, rows) =>
    let widened := allRuled w.class? changeRow rows
    if widened = rows.map (·.2) then attributes
    else setBody attributes place (tableBytes InnerClass.toBytes widened)

/-- The class with the given names after the rules. -/
def widened (w : AccessWidener) (c : ClassFile) (t : RuleTargets) : ClassFile :=
  { c with
    access := ruled (w.class? t.name) AccessFlags.widenedClass c.access
    methods := allRuled (fun key => w.method? t.name key.1 key.2) changeMethod t.methods
    fields := allRuled (fun key => w.field? t.name key.1 key.2) changeField t.fields
    attributes := w.widenedNested c.attributes t.nested }

@[simp] theorem widened_pool : (w.widened c t).pool = c.pool := rfl

@[simp] theorem widened_access : (w.widened c t).access =
    ruled (w.class? t.name) AccessFlags.widenedClass c.access := rfl

@[simp] theorem widened_methods : (w.widened c t).methods =
    allRuled (fun key => w.method? t.name key.1 key.2) changeMethod t.methods := rfl

@[simp] theorem widened_fields : (w.widened c t).fields =
    allRuled (fun key => w.field? t.name key.1 key.2) changeField t.fields := rfl

@[simp] theorem widened_attributes :
    (w.widened c t).attributes = w.widenedNested c.attributes t.nested := rfl

theorem widenMembers_eq {rule? : String → String → Option Access}
    {change : AccessFlags → String → Access → AccessFlags} {members : List Member} :
    widenMembers pool rule? change members =
      allRuled (fun key => rule? key.1 key.2)
        (fun key m rule => { m with access := change m.access key.1 rule }) <$>
        readKeys (memberKey pool) members := by
  refine mapM_ruled (fun m => ?_) members
  simp only [memberKey, bind_assoc, pure_bind]
  refine bind_congr fun name => bind_congr fun descriptor => ?_
  cases rule? name descriptor <;> rfl

theorem widenRows_eq {rows : List InnerClass} :
    w.widenRows pool rows = allRuled w.class? changeRow <$> readKeys (rowKey pool) rows := by
  refine mapM_ruled (fun row => bind_congr fun name => ?_) rows
  cases w.class? name <;> rfl

theorem length_of_table {info : Bytes} {rows : List InnerClass}
    (h : InnerClass.table info = .ok rows) : rows.length < 65536 :=
  ((reads_table InnerClass.reads_read).fits_of_front h).1

theorem widenNested_eq : w.widenNested pool attributes =
    w.widenedNested attributes <$> ClassFile.nestedTargets pool attributes := by
  unfold widenNested ClassFile.nestedTargets
  simp only [map_eq_pure_bind, bind_assoc]
  refine bind_congr fun found => ?_
  cases found with
  | none => rfl
  | some entry =>
    obtain ⟨place, a⟩ := entry
    simp only [bind_assoc, pure_bind, widenRows_eq, map_eq_pure_bind]
    cases hTable : InnerClass.table a.info with
    | error e => rfl
    | ok rows =>
      show (readKeys (rowKey pool) rows >>= _) = (readKeys (rowKey pool) rows >>= _)
      cases hKeys : readKeys (rowKey pool) rows with
      | error e => rfl
      | ok keyed =>
        obtain ⟨rfl, -⟩ := readKeys_eq_ok.1 hKeys
        have hLength : (allRuled w.class? changeRow keyed).length < 65536 := by
          rw [allRuled, List.length_map, ← List.length_map (·.2)]
          exact length_of_table hTable
        have hBody : InnerClass.tableToBytes (allRuled w.class? changeRow keyed) =
            .ok (tableBytes InnerClass.toBytes (allRuled w.class? changeRow keyed)) :=
          InnerClass.tableToBytes_eq_ok.2 ⟨hLength, rfl⟩
        show (if allRuled w.class? changeRow keyed = keyed.map (·.2) then pure attributes
          else (InnerClass.tableToBytes _ >>= fun body => pure (setBody attributes place body)) :
            ClassResult (List Attribute)) = .ok (w.widenedNested attributes (some (place, keyed)))
        rw [hBody, widenedNested]
        split <;> rfl

/-- **A class after the rules** is made from names that are read whatever the rules are. -/
theorem apply_eq : w.apply c = w.widened c <$> c.ruleTargets := by
  unfold apply ClassFile.ruleTargets
  simp only [widenMembers_eq, widenNested_eq, map_eq_pure_bind, bind_assoc, pure_bind]
  refine bind_congr fun name => bind_congr fun methods => bind_congr fun fields =>
    bind_congr fun nested => ?_
  unfold widened
  cases w.class? name <;> rfl

/-- Wideners with the same rules act in the same way. -/
theorem SameRules.widened (h : SameRules v w) : v.widened c t = w.widened c t := by
  have hClass : v.class? = w.class? := funext h.classes
  have hMethod : v.method? t.name = w.method? t.name :=
    funext fun name => funext fun descriptor => h.methods t.name name descriptor
  have hField : v.field? t.name = w.field? t.name :=
    funext fun name => funext fun descriptor => h.fields t.name name descriptor
  unfold AccessWidener.widened
  rw [hClass, hMethod, hField]
  cases t.nested with
  | none => rfl
  | some entry =>
    simp only [widenedNested, hClass]

-- ---------------------------------------------------------------------------
-- The names of a class after rules
-- ---------------------------------------------------------------------------

section Nested

variable {before after : List Attribute} {a : Attribute} {keyed : List (String × InnerClass)}
  {place : Nat}

theorem nestedTargets_eq_none : ClassFile.nestedTargets pool attributes = .ok none ↔
    ∀ a ∈ attributes, pool.IsOther AttributeName.innerClasses a := by
  rw [← Pool.attribute?_eq_none, ClassFile.nestedTargets, bind_ok_iff]
  constructor
  · rintro ⟨_ | ⟨place, a⟩, hFound, h⟩
    · exact hFound
    · simp at h
  · exact fun h => ⟨none, h, rfl⟩

theorem nestedTargets_eq_some : ClassFile.nestedTargets pool attributes =
      .ok (some (place, keyed)) ↔ ∃ before a after, attributes = before ++ a :: after ∧
    before.length = place ∧ (∀ b ∈ before, pool.IsOther AttributeName.innerClasses b) ∧
      pool.text a.name = .ok AttributeName.innerClasses ∧
        InnerClass.table a.info = .ok (keyed.map (·.2)) ∧
          ∀ x ∈ keyed, rowKey pool x.2 = .ok x.1 := by
  rw [ClassFile.nestedTargets, bind_ok_iff]
  constructor
  · rintro ⟨_ | ⟨place, a⟩, hFound, h⟩
    · simp at h
    · simp only [bind_ok_iff, pure_ok_iff] at h
      obtain ⟨rows, hTable, keyed, hKeys, hEq⟩ := h
      cases hEq
      obtain ⟨rfl, hAll⟩ := readKeys_eq_ok.1 hKeys
      obtain ⟨before, after, hSplit, hPlace, hFirst, hName⟩ := Pool.attribute?_eq_some.1 hFound
      exact ⟨before, a, after, hSplit, hPlace, hFirst, hName, hTable, hAll⟩
  · rintro ⟨before, a, after, hSplit, hPlace, hFirst, hName, hTable, hAll⟩
    refine ⟨some (place, a),
      Pool.attribute?_eq_some.2 ⟨before, after, hSplit, hPlace, hFirst, hName⟩, ?_⟩
    simp only [bind_ok_iff, pure_ok_iff]
    exact ⟨_, hTable, keyed, readKeys_eq_ok.2 ⟨rfl, hAll⟩, rfl⟩

theorem widenedNested_append :
    w.widenedNested (before ++ a :: after) (some (before.length, keyed)) =
      if allRuled w.class? changeRow keyed = keyed.map (·.2) then before ++ a :: after
      else before ++ ⟨a.name, tableBytes InnerClass.toBytes (allRuled w.class? changeRow keyed)⟩ ::
        after := by
  rw [widenedNested, setBody_append]

/-- Rows after rules can be written. -/
theorem fits_allRuled {info : Bytes} (hTable : InnerClass.table info = .ok (keyed.map (·.2))) :
    (allRuled w.class? changeRow keyed).length < 65536 ∧
      ∀ row ∈ allRuled w.class? changeRow keyed, row.Fits := by
  obtain ⟨hLength, hFits⟩ := (reads_table InnerClass.reads_read).fits_of_front hTable
  rw [List.length_map] at hLength
  refine ⟨by rwa [allRuled, List.length_map], fun row hRow => ?_⟩
  obtain ⟨x, hx, rfl⟩ := List.mem_map.1 hRow
  have hOld : x.2.Fits := hFits x.2 (List.mem_map_of_mem hx)
  unfold ruled
  cases w.class? x.1 with
  | none => exact hOld
  | some rule => exact hOld

theorem table_allRuled {info : Bytes} (hTable : InnerClass.table info = .ok (keyed.map (·.2))) :
    InnerClass.table (tableBytes InnerClass.toBytes (allRuled w.class? changeRow keyed)) =
      .ok (allRuled w.class? changeRow keyed) :=
  (reads_table InnerClass.reads_read).front_eq (fits_allRuled hTable)

/-- The attributes stay if and only if all rows do. -/
theorem widenedNested_eq_self
    (h : ClassFile.nestedTargets pool attributes = .ok (some (place, keyed))) :
    w.widenedNested attributes (some (place, keyed)) = attributes ↔
      allRuled w.class? changeRow keyed = keyed.map (·.2) := by
  obtain ⟨before, a, after, rfl, rfl, -, -, hTable, -⟩ := nestedTargets_eq_some.1 h
  rw [widenedNested_append]
  constructor
  · intro hSame
    by_contra hRows
    rw [if_neg hRows] at hSame
    have hBody : tableBytes InnerClass.toBytes (allRuled w.class? changeRow keyed) = a.info :=
      congrArg Attribute.info (List.cons.inj (List.append_cancel_left hSame)).1
    have hRead := table_allRuled (w := w) hTable
    rw [hBody, hTable] at hRead
    exact hRows (Except.ok.inj hRead).symm
  · exact fun hRows => if_pos hRows

/-- The list of nested classes is found again where it was, with its rows after the rules. -/
theorem nestedTargets_widenedNested {nested : Option (Nat × List (String × InnerClass))}
    (h : ClassFile.nestedTargets pool attributes = .ok nested) :
    ClassFile.nestedTargets pool (w.widenedNested attributes nested) =
      .ok (nested.map fun entry => (entry.1, entry.2.map (keyRuled w.class? changeRow))) := by
  cases nested with
  | none => exact h
  | some entry =>
    obtain ⟨place, keyed⟩ := entry
    obtain ⟨before, a, after, rfl, rfl, hFirst, hName, hTable, hKeys⟩ := nestedTargets_eq_some.1 h
    have hKeysAfter : readKeys (rowKey pool) (allRuled w.class? changeRow keyed) =
        .ok (keyed.map (keyRuled w.class? changeRow)) :=
      readKeys_allRuled (fun _ _ _ => rfl) (readKeys_eq_ok.2 ⟨rfl, hKeys⟩)
    obtain ⟨hRows, hKeysAfter⟩ := readKeys_eq_ok.1 hKeysAfter
    rw [widenedNested_append]
    split
    · rename_i hSame
      exact nestedTargets_eq_some.2 ⟨before, a, after, rfl, rfl, hFirst, hName,
        by rw [hRows, hSame]; exact hTable, hKeysAfter⟩
    · exact nestedTargets_eq_some.2 ⟨before, _, after, rfl, rfl, hFirst, hName,
        by rw [hRows]; exact table_allRuled hTable, hKeysAfter⟩

end Nested

-- ---------------------------------------------------------------------------
-- Two wideners in turn
-- ---------------------------------------------------------------------------

/-- The names of a class after the rules: the same ones, of members and rows after the rules. -/
def targetsAfter (w : AccessWidener) (t : RuleTargets) : RuleTargets where
  name := t.name
  methods := t.methods.map (keyRuled (fun key => w.method? t.name key.1 key.2) changeMethod)
  fields := t.fields.map (keyRuled (fun key => w.field? t.name key.1 key.2) changeField)
  nested := t.nested.map fun entry => (entry.1, entry.2.map (keyRuled w.class? changeRow))

theorem ruleTargets_eq_ok : c.ruleTargets = .ok t ↔ c.name = .ok t.name ∧
    readKeys (memberKey c.pool) c.methods = .ok t.methods ∧
      readKeys (memberKey c.pool) c.fields = .ok t.fields ∧
        ClassFile.nestedTargets c.pool c.attributes = .ok t.nested := by
  simp only [ClassFile.ruleTargets, bind_ok_iff, pure_ok_iff]
  constructor
  · rintro ⟨name, hName, methods, hMethods, fields, hFields, nested, hNested, rfl⟩
    exact ⟨hName, hMethods, hFields, hNested⟩
  · rintro ⟨hName, hMethods, hFields, hNested⟩
    exact ⟨_, hName, _, hMethods, _, hFields, _, hNested, rfl⟩

theorem ruleTargets_widened (h : c.ruleTargets = .ok t) :
    (w.widened c t).ruleTargets = .ok (w.targetsAfter t) := by
  obtain ⟨hName, hMethods, hFields, hNested⟩ := ruleTargets_eq_ok.1 h
  have hMethodKey : ∀ k m rule, memberKey c.pool (changeMethod k m rule) = memberKey c.pool m :=
    fun _ _ _ => rfl
  have hFieldKey : ∀ k m rule, memberKey c.pool (changeField k m rule) = memberKey c.pool m :=
    fun _ _ _ => rfl
  refine ruleTargets_eq_ok.2 ⟨hName, ?_, ?_, nestedTargets_widenedNested hNested⟩
  · rw [widened_methods]
    exact readKeys_allRuled hMethodKey hMethods
  · rw [widened_fields]
    exact readKeys_allRuled hFieldKey hFields

/-- Each method carries at most one of the flags for public, private and protected. -/
def MethodsSeenOnce (c : ClassFile) : Prop := ∀ m ∈ c.methods, m.access.SeenOnce

theorem joins_changeMethod {key : String × String} {m : Member} (h : m.access.SeenOnce) :
    Access.Joins (changeMethod key) m where
  join a b := congrArg (fun access => { m with access := access })
    ((AccessFlags.joins_widenedMethod h (key.1 == "<init>")).join a b)
  part hSame := congrArg (fun access => { m with access := access })
    ((AccessFlags.joins_widenedMethod h (key.1 == "<init>")).part (congrArg Member.access hSame))

theorem joins_changeField {key : String × String} {m : Member} :
    Access.Joins (changeField key) m where
  join a b := congrArg (fun access => { m with access := access })
    ((AccessFlags.joins_widenedField m.access).join a b)
  part hSame := congrArg (fun access => { m with access := access })
    ((AccessFlags.joins_widenedField m.access).part (congrArg Member.access hSame))

theorem joins_changeRow {key : String} {row : InnerClass} :
    Access.Joins (changeRow key) row where
  join a b := congrArg (fun access => { row with access := access })
    ((AccessFlags.joins_widenedClass row.access).join a b)
  part hSame := congrArg (fun access => { row with access := access })
    ((AccessFlags.joins_widenedClass row.access).part (congrArg InnerClass.access hSame))

theorem joins_methods (h : c.ruleTargets = .ok t) (hSeen : MethodsSeenOnce c) :
    ∀ x ∈ t.methods, Access.Joins (changeMethod x.1) x.2 := by
  obtain ⟨-, hMethods, -, -⟩ := ruleTargets_eq_ok.1 h
  obtain ⟨hMap, -⟩ := readKeys_eq_ok.1 hMethods
  exact fun x hx => joins_changeMethod (hSeen x.2 (hMap ▸ List.mem_map_of_mem hx))

theorem class?_merge_fun : (v.merge w).class? =
    fun name => Option.merge Access.join (v.class? name) (w.class? name) :=
  funext fun _ => class?_merge

theorem method?_merge_fun {owner : String} :
    (fun key : String × String => (v.merge w).method? owner key.1 key.2) = fun key =>
      Option.merge Access.join (v.method? owner key.1 key.2) (w.method? owner key.1 key.2) :=
  funext fun _ => method?_merge

theorem field?_merge_fun {owner : String} :
    (fun key : String × String => (v.merge w).field? owner key.1 key.2) = fun key =>
      Option.merge Access.join (v.field? owner key.1 key.2) (w.field? owner key.1 key.2) :=
  funext fun _ => field?_merge

/-- The rows of nested classes after the rules of two wideners in turn. -/
theorem widenedNested_widenedNested {nested : Option (Nat × List (String × InnerClass))}
    (h : ClassFile.nestedTargets pool attributes = .ok nested) :
    w.widenedNested (v.widenedNested attributes nested)
        (nested.map fun entry => (entry.1, entry.2.map (keyRuled v.class? changeRow))) =
      (v.merge w).widenedNested attributes nested := by
  cases nested with
  | none => rfl
  | some entry =>
    obtain ⟨place, keyed⟩ := entry
    obtain ⟨before, a, after, rfl, rfl, -⟩ := nestedTargets_eq_some.1 h
    have hJoins : ∀ x ∈ keyed, Access.Joins (changeRow x.1) x.2 := fun _ _ => joins_changeRow
    have hBoth : allRuled w.class? changeRow (keyed.map (keyRuled v.class? changeRow)) =
        allRuled (v.merge w).class? changeRow keyed := by
      rw [class?_merge_fun]
      exact allRuled_map hJoins
    have hRows : (keyed.map (keyRuled v.class? changeRow)).map (·.2) =
        allRuled v.class? changeRow keyed := List.map_map
    rw [Option.map_some, widenedNested_append, widenedNested_append]
    by_cases hFirst : allRuled v.class? changeRow keyed = keyed.map (·.2)
    · rw [if_pos hFirst, widenedNested_append, hBoth, hRows, hFirst]
    · -- the joined rules change the rows too
      have hMerged : allRuled (v.merge w).class? changeRow keyed ≠ keyed.map (·.2) := by
        rw [class?_merge_fun]
        exact fun hSame => hFirst (allRuled_part hJoins hSame)
      rw [if_neg hFirst, if_neg hMerged, widenedNested_append, hBoth, hRows]
      split
      · rename_i hSame
        rw [hSame]
      · rfl

/-- **Two wideners in turn** make of a class what their merge makes of it. -/
theorem widened_widened (h : c.ruleTargets = .ok t) (hSeen : MethodsSeenOnce c) :
    w.widened (v.widened c t) (v.targetsAfter t) = (v.merge w).widened c t := by
  have hAccess : ruled (w.class? t.name) AccessFlags.widenedClass
      (ruled (v.class? t.name) AccessFlags.widenedClass c.access) =
        ruled ((v.merge w).class? t.name) AccessFlags.widenedClass c.access := by
    rw [class?_merge]
    exact ruled_ruled (AccessFlags.joins_widenedClass c.access)
  have hMethods : allRuled (fun key => w.method? t.name key.1 key.2) changeMethod
      (v.targetsAfter t).methods =
        allRuled (fun key => (v.merge w).method? t.name key.1 key.2) changeMethod t.methods := by
    rw [method?_merge_fun]
    exact allRuled_map (joins_methods h hSeen)
  have hFields : allRuled (fun key => w.field? t.name key.1 key.2) changeField
      (v.targetsAfter t).fields =
        allRuled (fun key => (v.merge w).field? t.name key.1 key.2) changeField t.fields := by
    rw [field?_merge_fun]
    exact allRuled_map fun _ _ => joins_changeField
  have hNested := widenedNested_widenedNested (v := v) (w := w) (ruleTargets_eq_ok.1 h).2.2.2
  show { c with access := _, methods := _, fields := _, attributes := _ } =
    ({ c with access := _, methods := _, fields := _, attributes := _ } : ClassFile)
  rw [← hAccess, ← hMethods, ← hFields, ← hNested]
  rfl

-- ---------------------------------------------------------------------------
-- Classes that stay as they are
-- ---------------------------------------------------------------------------

/-- The class stays if and only if its flags, its members and its attributes do. -/
theorem widened_eq_self (h : c.ruleTargets = .ok t) : w.widened c t = c ↔
    ruled (w.class? t.name) AccessFlags.widenedClass c.access = c.access ∧
      allRuled (fun key => w.method? t.name key.1 key.2) changeMethod t.methods =
          t.methods.map (·.2) ∧
        allRuled (fun key => w.field? t.name key.1 key.2) changeField t.fields =
            t.fields.map (·.2) ∧
          w.widenedNested c.attributes t.nested = c.attributes := by
  obtain ⟨-, hMethods, hFields, -⟩ := ruleTargets_eq_ok.1 h
  rw [(readKeys_eq_ok.1 hMethods).1, (readKeys_eq_ok.1 hFields).1]
  constructor
  · exact fun hSame => ⟨congrArg ClassFile.access hSame, congrArg ClassFile.methods hSame,
      congrArg ClassFile.fields hSame, congrArg ClassFile.attributes hSame⟩
  · rintro ⟨hAccess, hMethods, hFields, hAttributes⟩
    rw [widened, hAccess, hMethods, hFields, hAttributes]

theorem changed_widened (h : c.ruleTargets = .ok t) :
    changed c (w.widened c t) = true ↔ w.widened c t ≠ c := by
  rw [Ne, widened_eq_self h, (readKeys_eq_ok.1 (ruleTargets_eq_ok.1 h).2.1).1,
    (readKeys_eq_ok.1 (ruleTargets_eq_ok.1 h).2.2.1).1]
  simp only [changed, widened, Bool.or_eq_true, bne_iff_ne, ne_eq, not_and_or, or_assoc,
    @eq_comm _ c.access, @eq_comm _ c.methods, @eq_comm _ c.fields, @eq_comm _ c.attributes]

/-- What the merge of two wideners leaves as it is, the first of them leaves as it is. -/
theorem widened_part (h : c.ruleTargets = .ok t) (hSeen : MethodsSeenOnce c)
    (hSame : (v.merge w).widened c t = c) : v.widened c t = c := by
  obtain ⟨hAccess, hMethods, hFields, hNested⟩ := (widened_eq_self h).1 hSame
  rw [class?_merge] at hAccess
  rw [method?_merge_fun] at hMethods
  rw [field?_merge_fun] at hFields
  refine (widened_eq_self h).2 ⟨ruled_part (AccessFlags.joins_widenedClass c.access) hAccess,
    allRuled_part (joins_methods h hSeen) hMethods,
    allRuled_part (fun _ _ => joins_changeField) hFields, ?_⟩
  have hTargets := (ruleTargets_eq_ok.1 h).2.2.2
  cases hEntry : t.nested with
  | none => rfl
  | some entry =>
    rw [hEntry] at hTargets hNested
    rw [widenedNested_eq_self hTargets, class?_merge_fun] at hNested
    exact (widenedNested_eq_self hTargets).2 (allRuled_part (fun _ _ => joins_changeRow) hNested)

-- ---------------------------------------------------------------------------
-- Writing
-- ---------------------------------------------------------------------------

theorem allFit_members {members : List Member} {keyed : List ((String × String) × Member)}
    {rule? : String × String → Option Access}
    {change : String × String → Member → Access → Member}
    (hChange : ∀ k m rule, m.Fits → (change k m rule).Fits)
    (hKeys : readKeys (memberKey pool) members = .ok keyed)
    (hFits : members.length < 65536 ∧ ∀ m ∈ members, m.Fits) :
    (allRuled rule? change keyed).length < 65536 ∧ ∀ m ∈ allRuled rule? change keyed, m.Fits := by
  obtain ⟨rfl, -⟩ := readKeys_eq_ok.1 hKeys
  obtain ⟨hLength, hFits⟩ := hFits
  rw [List.length_map] at hLength
  refine ⟨by rwa [allRuled, List.length_map], fun m hm => ?_⟩
  obtain ⟨x, hx, rfl⟩ := List.mem_map.1 hm
  have hOld : x.2.Fits := hFits x.2 (List.mem_map_of_mem hx)
  unfold ruled
  cases rule? x.1 with
  | none => exact hOld
  | some rule => exact hChange x.1 x.2 rule hOld

theorem allFit_widenedNested {nested : Option (Nat × List (String × InnerClass))}
    (h : ClassFile.nestedTargets pool attributes = .ok nested)
    (hFits : Attribute.AllFit attributes) :
    Attribute.AllFit (w.widenedNested attributes nested) := by
  cases nested with
  | none => exact hFits
  | some entry =>
    obtain ⟨place, keyed⟩ := entry
    obtain ⟨before, a, after, rfl, rfl, -, -, hTable, -⟩ := nestedTargets_eq_some.1 h
    rw [widenedNested_append]
    split
    · exact hFits
    · obtain ⟨hLength, hAll⟩ := hFits
      rw [List.forall_mem_append, List.forall_mem_cons] at hAll
      refine ⟨by simpa using hLength, ?_⟩
      rw [List.forall_mem_append, List.forall_mem_cons]
      refine ⟨hAll.1, ⟨hAll.2.1.name, ?_⟩, hAll.2.2⟩
      -- a row takes eight bytes
      have hRows := (fits_allRuled (w := w) hTable).1
      have hBody : ∀ rows : List InnerClass,
          (rows.flatMap InnerClass.toBytes).length = 8 * rows.length := by
        intro rows
        rw [List.length_flatMap]
        simp [InnerClass.toBytes, putIndex?, putU16, length_big, Nat.mul_comm]
      simp only [tableBytes, List.length_append, putU16, length_big, hBody, UInt32.size]
      omega

/-- A class after the rules can be written as far as its tables are concerned. -/
theorem fits_widened (hFits : c.Fits) (h : c.ruleTargets = .ok t) : (w.widened c t).Fits := by
  obtain ⟨-, hMethods, hFields, hNested⟩ := ruleTargets_eq_ok.1 h
  have hMethod : ∀ k m rule, m.Fits → (changeMethod k m rule).Fits := fun _ _ _ h =>
    ⟨h.name, h.descriptor, h.attributes⟩
  have hField : ∀ k m rule, m.Fits → (changeField k m rule).Fits := fun _ _ _ h =>
    ⟨h.name, h.descriptor, h.attributes⟩
  refine ⟨⟨hFits.interfaces, ?_, ?_, allFit_widenedNested hNested hFits.attributes⟩,
    hFits.thisClass, hFits.superClass, hFits.interfaceIndices⟩
  · rw [widened_fields]
    exact allFit_members hField hFields hFits.fields
  · rw [widened_methods]
    exact allFit_members hMethod hMethods hFits.methods

end AccessWidener

end Jarsmith
