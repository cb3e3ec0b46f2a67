import Jarsmith.Proofs.AccessWidener.Rules
import Mathlib.Data.List.Perm.Basic

/-!
# The rules of a widener are a set

How often a rule is given, in which order, and whether it was read or merged in, leaves no trace.

* `AccessWidener.changes_add`, `AccessWidener.changes_merge` — a rule and a merge both join what is
  there with what they bring.
* `AccessWidener.read_eq_ok` — the texts that are taken in, and what they leave.
* `AccessWidener.rules_are_set` — the order of lines, of texts and of merges, and repetition.
-/

namespace Jarsmith

open Outcome

namespace Access

theorem join_assoc (a b c : Access) : (a.join b).join c = a.join (b.join c) := by
  simp only [join, Bool.or_assoc]

theorem none_join (a : Access) : Access.none.join a = a := by
  simp only [join, Access.none, Bool.false_or]

instance : Std.Commutative join := ⟨join_comm⟩

instance : Std.Associative join := ⟨join_assoc⟩

instance : Std.IdempotentOp join := ⟨join_self⟩

end Access

namespace AccessWidener

variable {v w : AccessWidener}

-- ---------------------------------------------------------------------------
-- The changes of every target
-- ---------------------------------------------------------------------------

/-- What a rule may be about. -/
inductive Target where
  | ofClass (name : String)
  | ofMethod (member : MemberTarget)
  | ofField (member : MemberTarget)

/-- The changes that are found for every target. -/
def changes (w : AccessWidener) : Target → Option Access
  | .ofClass name => w.classes.get? name
  | .ofMethod member => w.methods.get? member
  | .ofField member => w.fields.get? member

/-- The changes of both, target by target. -/
def union (p q : Target → Option Access) : Target → Option Access :=
  fun t => Option.merge Access.join (p t) (q t)

variable (p q r : Target → Option Access)

theorem union_comm : union p q = union q p := funext fun _ => Std.Commutative.comm ..

theorem union_assoc : union (union p q) r = union p (union q r) :=
  funext fun _ => Std.Associative.assoc ..

theorem union_self : union p p = p := funext fun _ => Std.IdempotentOp.idempotent _

instance : Std.Commutative union := ⟨union_comm⟩

instance : Std.Associative union := ⟨union_assoc⟩

theorem union_empty : union p empty.changes = p := by
  funext t
  cases t <;> exact Option.merge_none_right

theorem empty_union : union empty.changes p = p := (union_comm ..).trans (union_empty p)

theorem sameRules_iff : SameRules v w ↔ v.changes = w.changes := by
  constructor
  · intro h
    funext t
    cases t with
    | ofClass name => exact h.classes name
    | ofMethod member => exact h.methods ..
    | ofField member => exact h.fields ..
  · intro h
    exact ⟨fun name => congrFun h (.ofClass name),
      fun owner name descriptor => congrFun h (.ofMethod ⟨owner, name, descriptor⟩),
      fun owner name descriptor => congrFun h (.ofField ⟨owner, name, descriptor⟩)⟩

theorem changes_merge (v w : AccessWidener) :
    (v.merge w).changes = union v.changes w.changes := by
  funext t
  cases t <;> exact get?_foldl_widen

/-- The changes that a rule asks for. -/
def asked (rule : AccessRule) : Target → Option Access := (empty.add rule).changes

theorem get?_widen_eq_merge {κ : Type} [DecidableEq κ] {m : OrderedMap κ Access} {j k : κ}
    {a : Access} : (widen m k a).get? j =
      Option.merge Access.join (m.get? j) ((widen ∅ k a).get? j) := by
  rw [get?_widen, get?_widen, OrderedMap.get?_empty]
  split
  · cases m.get? j with
    | none => rfl
    | some b => exact congrArg (fun c => some (b.join c)) (Access.none_join a).symm
  · exact Option.merge_none_right.symm

/-- **A rule adds the changes that it asks for**, whatever is there already. -/
theorem changes_add (w : AccessWidener) (rule : AccessRule) :
    (w.add rule).changes = union w.changes (asked rule) := by
  funext t
  cases rule with
  | onClass name change =>
    cases t with
    | ofClass => exact get?_widen_eq_merge
    | ofMethod | ofField => exact Option.merge_none_right.symm
  | onMethod member change =>
    cases t with
    | ofClass | ofMethod => exact get?_widen_eq_merge
    | ofField => exact Option.merge_none_right.symm
  | onField member change =>
    cases change with
    | accessible =>
      cases t with
      | ofClass | ofField => exact get?_widen_eq_merge
      | ofMethod => exact Option.merge_none_right.symm
    | extendable | mutable =>
      cases t with
      | ofField => exact get?_widen_eq_merge
      | ofClass | ofMethod => exact Option.merge_none_right.symm

theorem naming_add (w : AccessWidener) (rule : AccessRule) : (w.add rule).naming = w.naming := by
  cases rule with
  | onClass | onMethod => rfl
  | onField member change => cases change <;> rfl

theorem naming_foldl_add (w : AccessWidener) (rules : List AccessRule) :
    (rules.foldl add w).naming = w.naming := by
  induction rules generalizing w with
  | nil => rfl
  | cons rule more ih => rw [List.foldl_cons, ih, naming_add]

-- ---------------------------------------------------------------------------
-- What a text says
-- ---------------------------------------------------------------------------

/-- What a line holds besides a comment. -/
def content (line : String) : String :=
  Text.trim (String.ofList (line.toList.takeWhile (· != '#')))

/-- The lines of a text that hold more than blanks and a comment. -/
def contents (lines : List String) : List String := (lines.map content).filter (!·.isEmpty)

/-- The lines name a namespace in their header and write rules below it. -/
def Writes (lines : List String) (name : String) (rules : List AccessRule) : Prop :=
  ∃ first rest version, contents lines = first :: rest ∧ header first = .ok (version, name) ∧
    List.Forall₂ (fun line rule => AccessRule.parse version line = .ok rule) rest rules

theorem map_contentLines (text : String) :
    (contentLines text).map Prod.snd = contents (Text.lines text) := by
  have hNumbered : ∀ (n : Nat) (lines : List String),
      (((Text.numberFrom n lines).map fun e => (e.1, content e.2)).filter
        fun e => !e.2.isEmpty).map Prod.snd = contents lines := by
    intro n lines
    induction lines generalizing n with
    | nil => rfl
    | cons line more ih =>
      simp only [contents, Text.numberFrom, List.map_cons, List.filter_cons] at ih ⊢
      split
      · rw [List.map_cons, ih]
      · exact ih _
  exact hNumbered 1 (Text.lines text)

theorem addLines_eq_ok {version : AccessRule.Version} {lines : List (Nat × String)} :
    w.addLines version lines = (v, .ok ()) ↔ ∃ rules,
      List.Forall₂ (fun line rule => AccessRule.parse version line = .ok rule)
        (lines.map Prod.snd) rules ∧ v = rules.foldl add w := by
  induction lines generalizing w with
  | nil =>
    constructor
    · rintro ⟨⟩
      exact ⟨[], .nil, rfl⟩
    · rintro ⟨rules, hRules, rfl⟩
      cases hRules
      rfl
  | cons line more ih =>
    rw [addLines, List.map_cons]
    constructor
    · intro h
      split at h
      · rename_i rule hParse
        obtain ⟨rules, hRules, rfl⟩ := ih.1 h
        exact ⟨rule :: rules, .cons hParse hRules, rfl⟩
      · cases h
    · rintro ⟨_, hRules, rfl⟩
      cases hRules with
      | cons hParse hMore =>
        rw [hParse]
        exact ih.2 ⟨_, hMore, rfl⟩

/-- The name that a text gives may be used where `naming` is in use. -/
def Fits (naming : Option String) (name : String) : Prop := ∀ other ∈ naming, other = name

theorem addHeader_eq_ok {expected : Option String} {line : String} {version : AccessRule.Version} :
    w.addHeader expected line = .ok (version, v) ↔ ∃ name, header line = .ok (version, name) ∧
      Fits expected name ∧ Fits w.naming name ∧ v = { w with naming := some name } := by
  unfold addHeader
  rw [bind_ok_iff]
  constructor
  · rintro ⟨⟨parsed, name⟩, hHeader, h⟩
    refine ⟨name, ?_⟩
    cases expected <;> cases hNaming : w.naming <;> simp only [hNaming] at h <;>
      (repeat' split at h) <;> simp_all [Fits]
  · rintro ⟨name, hHeader, hExpected, hNaming, rfl⟩
    refine ⟨(version, name), hHeader, ?_⟩
    cases expected <;> cases hCase : w.naming <;> simp_all [Fits]

/-- **Reading succeeds exactly on a text that writes rules in the namespace that is expected
and in use**, and adds these rules. -/
theorem read_eq_ok {text : String} {expected : Option String} :
    w.read text expected = (v, .ok ()) ↔ ∃ name rules, Writes (Text.lines text) name rules ∧
      Fits expected name ∧ Fits w.naming name ∧
        v = rules.foldl add { w with naming := some name } := by
  have hContents := map_contentLines text
  unfold read
  cases hLines : contentLines text with
  | nil =>
    rw [hLines] at hContents
    refine ⟨nofun, ?_⟩
    rintro ⟨name, rules, ⟨first, rest, version, hSplit, -⟩, -⟩
    exact absurd (hContents.trans hSplit) nofun
  | cons line more =>
    rw [hLines, List.map_cons] at hContents
    dsimp only
    constructor
    · intro h
      split at h
      · rename_i version u hHeader
        obtain ⟨name, hName, hExpected, hNaming, rfl⟩ := addHeader_eq_ok.1 hHeader
        obtain ⟨rules, hRules, rfl⟩ := addLines_eq_ok.1 h
        exact ⟨name, rules, ⟨_, _, version, hContents.symm, hName, hRules⟩, hExpected, hNaming, rfl⟩
      · cases h
    · rintro ⟨name, rules, ⟨first, rest, version, hSplit, hName, hRules⟩, hExpected, hNaming, rfl⟩
      obtain ⟨rfl, rfl⟩ := List.cons.inj (hContents.trans hSplit)
      rw [addHeader_eq_ok.2 ⟨name, hName, hExpected, hNaming, rfl⟩]
      exact addLines_eq_ok.2 ⟨rules, hRules, rfl⟩

/-- A text of rules, with the namespace that is expected of it. -/
structure Source where
  text : String
  expected : Option String

/-- Takes in a text as a whole. -/
def take (w : AccessWidener) (s : Source) : Result AccessWidener :=
  match w.read s.text s.expected with
  | (w, .ok ()) => .ok w
  | (_, .error e) => .error e

/-- Takes in texts one after the other. -/
def takeAll (w : AccessWidener) (sources : List Source) : Result AccessWidener :=
  sources.foldlM take w

/-- The widener that a text makes on its own. -/
def Source.widener (s : Source) : Result AccessWidener := parse s.text s.expected

variable {s : Source} {name : String} {u : AccessWidener}

theorem take_eq_ok : w.take s = .ok v ↔ w.read s.text s.expected = (v, .ok ()) := by
  rw [take]
  split
  · rename_i u hEq
    rw [hEq]
    simp
  · rename_i u e hEq
    rw [hEq]
    simp

theorem parse_eq_ok {text : String} {expected : Option String} :
    parse text expected = .ok v ↔ ∃ name rules, Writes (Text.lines text) name rules ∧
      Fits expected name ∧ v = rules.foldl add { empty with naming := some name } := by
  have hTake : parse text expected = empty.take ⟨text, expected⟩ := rfl
  rw [hTake, take_eq_ok, read_eq_ok]
  simp [Fits, empty]

/-- What all rules of a list ask for. -/
def askedByAll (rules : List AccessRule) : Target → Option Access :=
  (rules.map asked).foldl union empty.changes

theorem foldl_union (p : Target → Option Access) (l : List (Target → Option Access)) :
    l.foldl union p = union p (l.foldl union empty.changes) := by
  have hAssoc : l.foldl union (union p empty.changes) = union p (l.foldl union empty.changes) :=
    List.foldl_assoc
  rwa [union_empty] at hAssoc

theorem changes_foldl_add (w : AccessWidener) (rules : List AccessRule) :
    (rules.foldl add w).changes = union w.changes (askedByAll rules) := by
  rw [askedByAll, ← foldl_union]
  induction rules generalizing w with
  | nil => rfl
  | cons rule more ih => rw [List.foldl_cons, ih, changes_add, List.map_cons, List.foldl_cons]

/-- **A text that is accepted says the same wherever it is read.** -/
theorem exists_take (hAlone : s.widener = .ok u) (hName : u.naming = some name)
    (hFits : Fits w.naming name) :
    ∃ v, w.take s = .ok v ∧ v.naming = some name ∧ v.changes = union w.changes u.changes := by
  obtain ⟨written, rules, hWrites, hExpected, rfl⟩ := parse_eq_ok.1 hAlone
  rw [naming_foldl_add] at hName
  obtain rfl := Option.some.inj hName
  refine ⟨_, take_eq_ok.2 (read_eq_ok.2 ⟨_, rules, hWrites, hExpected, hFits, rfl⟩),
    naming_foldl_add .., ?_⟩
  have hNone : union { empty with naming := some written }.changes (askedByAll rules) =
      askedByAll rules := empty_union _
  rw [changes_foldl_add, changes_foldl_add, hNone]
  rfl

-- ---------------------------------------------------------------------------
-- Order and grouping
-- ---------------------------------------------------------------------------

/-- The same lines behind the header in another order. -/
def PermutesRules (lines lines' : List String) : Prop := ∃ front rules rules',
  lines = front ++ rules ∧ lines' = front ++ rules' ∧ contents front ≠ [] ∧ rules.Perm rules'

theorem contents_append (front back : List String) :
    contents (front ++ back) = contents front ++ contents back := by
  rw [contents, List.map_append, List.filter_append]
  rfl

theorem writes_of_permutesRules {lines lines' : List String} {rules : List AccessRule}
    (hWrites : Writes lines name rules) (h : PermutesRules lines lines') :
    ∃ rules', rules'.Perm rules ∧ Writes lines' name rules' := by
  obtain ⟨first, rest, version, hSplit, hHeader, hRules⟩ := hWrites
  obtain ⟨front, back, back', rfl, rfl, hFront, hPerm⟩ := h
  rw [contents_append] at hSplit
  cases hCase : contents front with
  | nil => exact absurd hCase hFront
  | cons head more =>
    rw [hCase, List.cons_append] at hSplit
    obtain ⟨rfl, rfl⟩ := List.cons.inj hSplit
    have hRest : (more ++ contents back').Perm (more ++ contents back) :=
      ((hPerm.symm.map content).filter _).append_left more
    obtain ⟨rules', hRules', hPerm'⟩ := List.perm_comp_forall₂ hRest hRules
    refine ⟨rules', hPerm', head, _, version, ?_, hHeader, hRules'⟩
    rw [contents_append, hCase, List.cons_append]

theorem askedByAll_perm {rules rules' : List AccessRule} (h : rules.Perm rules') :
    askedByAll rules = askedByAll rules' :=
  (h.map asked).foldl_op_eq

/-- Two wideners for the same namespace find the same changes for every target. -/
structure Agrees (v w : AccessWidener) : Prop where
  naming : v.naming = w.naming
  rules : SameRules v w

theorem agrees_of_changes (hNaming : v.naming = w.naming) (h : v.changes = w.changes) :
    Agrees v w :=
  ⟨hNaming, sameRules_iff.2 h⟩

/-- A way to merge what texts make, two wideners at a time. -/
inductive Grouping where
  | one (s : Source)
  | both (left right : Grouping)

namespace Grouping

/-- The texts of a grouping, from left to right. -/
def sources : Grouping → List Source
  | one s => [s]
  | both left right => left.sources ++ right.sources

/-- The widener that is made of texts on their own by merging. -/
def widener : Grouping → Result AccessWidener
  | one s => s.widener
  | both left right => do pure ((← left.widener).merge (← right.widener))

theorem sources_ne_nil : (g : Grouping) → g.sources ≠ []
  | one s => List.cons_ne_nil s []
  | both left _ => fun h => left.sources_ne_nil (List.append_eq_nil_iff.1 h).1

end Grouping

/-- What a text asks for; nothing if it is not accepted. -/
def Source.asked (s : Source) : Target → Option Access :=
  (s.widener.toOption.getD empty).changes

theorem Source.asked_eq (h : s.widener = .ok u) : s.asked = u.changes := by
  rw [Source.asked, h]
  rfl

/-- A text that is accepted on its own and names a namespace. -/
def Source.Names (s : Source) (name : String) : Prop :=
  ∃ u, s.widener = .ok u ∧ u.naming = some name

theorem exists_takeAll {sources : List Source} (hNames : ∀ s ∈ sources, s.Names name)
    (hFits : Fits w.naming name) : ∃ v, w.takeAll sources = .ok v ∧
      v.naming = (if sources = [] then w.naming else some name) ∧
        v.changes = (sources.map Source.asked).foldl union w.changes := by
  induction sources generalizing w with
  | nil => exact ⟨w, rfl, rfl, rfl⟩
  | cons s more ih =>
    obtain ⟨⟨u, hAlone, hName⟩, hMore⟩ := List.forall_mem_cons.1 hNames
    obtain ⟨next, hTake, hNaming, hChanges⟩ := exists_take hAlone hName hFits
    have hNext : Fits next.naming name := by
      rw [hNaming]
      rintro _ ⟨⟩
      rfl
    obtain ⟨v, hRest, hLast, hAll⟩ := ih hMore hNext
    refine ⟨v, ?_, ?_, ?_⟩
    · rw [takeAll, List.foldlM_cons, hTake]
      exact hRest
    · rw [hLast, if_neg (List.cons_ne_nil _ _), hNaming, ite_self]
    · rw [hAll, hChanges, List.map_cons, List.foldl_cons, Source.asked_eq hAlone]

theorem exists_widener {g : Grouping} (hNames : ∀ s ∈ g.sources, s.Names name) :
    ∃ v, g.widener = .ok v ∧ v.naming = some name ∧
      v.changes = (g.sources.map Source.asked).foldl union empty.changes := by
  induction g with
  | one s =>
    obtain ⟨u, hAlone, hName⟩ := hNames s List.mem_cons_self
    refine ⟨u, hAlone, hName, ?_⟩
    rw [Grouping.sources, List.map_cons, List.foldl_cons, Source.asked_eq hAlone, empty_union]
    rfl
  | both left right ihLeft ihRight =>
    rw [Grouping.sources, List.forall_mem_append] at hNames
    obtain ⟨l, hLeft, hNaming, hChanges⟩ := ihLeft hNames.1
    obtain ⟨r, hRight, -, hChanges'⟩ := ihRight hNames.2
    refine ⟨l.merge r, ?_, ?_, ?_⟩
    · rw [Grouping.widener, hLeft, hRight]
      rfl
    · rw [merge, hNaming]
      rfl
    · rw [changes_merge, hChanges, hChanges', Grouping.sources, List.map_append,
        List.foldl_append, ← foldl_union]

-- ---------------------------------------------------------------------------
-- Texts that were read already
-- ---------------------------------------------------------------------------

/-- A text was read on the way to a widener, whatever was read and merged besides. -/
inductive HasRead (text : String) : AccessWidener → Prop
  | read {w : AccessWidener} (expected : Option String) :
      (w.read text expected).2 = .ok () → HasRead text (w.read text expected).1
  | other {w : AccessWidener} (s : Source) :
      HasRead text w → HasRead text (w.read s.text s.expected).1
  | mergeLeft {v w : AccessWidener} : HasRead text v → HasRead text (v.merge w)
  | mergeRight {v w : AccessWidener} : HasRead text w → HasRead text (v.merge w)

theorem hasRead_of_parse {text : String} {expected : Option String}
    (h : parse text expected = .ok w) : HasRead text w := by
  have hRead : empty.read text expected = (w, .ok ()) := take_eq_ok (s := ⟨text, expected⟩) |>.1 h
  have hHas := HasRead.read (w := empty) expected (congrArg Prod.snd hRead)
  rwa [hRead] at hHas

/-- A widener has the changes already. -/
def Holds (w : AccessWidener) (p : Target → Option Access) : Prop := union w.changes p = w.changes

theorem Holds.mono {p q : Target → Option Access} (h : w.Holds p)
    (hMore : v.changes = union w.changes q) : v.Holds p := by
  rw [Holds, hMore, union_assoc, union_comm q p, ← union_assoc, h]

theorem holds_of_changes {p q : Target → Option Access} (h : v.changes = union q p) :
    v.Holds p := by
  rw [Holds, h, union_assoc, union_self]

/-- Reading only adds, also where it ends at a faulty line. -/
theorem exists_changes_addLines {version : AccessRule.Version} {lines : List (Nat × String)} :
    ∃ q, (w.addLines version lines).1.changes = union w.changes q := by
  induction lines generalizing w with
  | nil => exact ⟨empty.changes, (union_empty _).symm⟩
  | cons line more ih =>
    rw [addLines]
    split
    · rename_i rule _
      obtain ⟨q, hq⟩ := @ih (w.add rule)
      exact ⟨union (asked rule) q, by rw [hq, changes_add, union_assoc]⟩
    · exact ⟨empty.changes, (union_empty _).symm⟩

theorem exists_changes_read (w : AccessWidener) (s : Source) :
    ∃ q, (w.read s.text s.expected).1.changes = union w.changes q := by
  unfold read
  split
  · exact ⟨empty.changes, (union_empty _).symm⟩
  · split
    · rename_i hHeader
      obtain ⟨_, -, -, -, rfl⟩ := addHeader_eq_ok.1 hHeader
      exact exists_changes_addLines
    · exact ⟨empty.changes, (union_empty _).symm⟩

/-- What a text asked for stays. -/
theorem HasRead.exists_holds {text : String} (h : HasRead text w) :
    ∃ name rules, Writes (Text.lines text) name rules ∧ w.Holds (askedByAll rules) := by
  induction h with
  | @read w expected hOk =>
    have hPair : w.read text expected = ((w.read text expected).1, .ok ()) := Prod.ext rfl hOk
    obtain ⟨name, rules, hWrites, -, -, hRead⟩ := read_eq_ok.1 hPair
    refine ⟨name, rules, hWrites, holds_of_changes (q := w.changes) ?_⟩
    rw [hRead, changes_foldl_add]
    rfl
  | @other w s _ ih =>
    obtain ⟨name, rules, hWrites, hHolds⟩ := ih
    obtain ⟨q, hq⟩ := exists_changes_read w s
    exact ⟨name, rules, hWrites, hHolds.mono hq⟩
  | mergeLeft _ ih =>
    obtain ⟨name, rules, hWrites, hHolds⟩ := ih
    exact ⟨name, rules, hWrites, hHolds.mono (changes_merge ..)⟩
  | mergeRight _ ih =>
    obtain ⟨name, rules, hWrites, hHolds⟩ := ih
    exact ⟨name, rules, hWrites,
      hHolds.mono ((changes_merge ..).trans (union_comm ..))⟩

theorem writes_unique {lines : List String} {other : String} {rules rules' : List AccessRule}
    (h : Writes lines name rules) (h' : Writes lines other rules') :
    name = other ∧ rules = rules' := by
  obtain ⟨first, rest, version, hSplit, hHeader, hRules⟩ := h
  obtain ⟨_, _, _, hSplit', hHeader', hRules'⟩ := h'
  obtain ⟨rfl, rfl⟩ := List.cons.inj (hSplit.symm.trans hSplit')
  obtain ⟨rfl, rfl⟩ := Prod.mk.inj (Except.ok.inj (hHeader.symm.trans hHeader'))
  have hSame : ∀ line rule rule', AccessRule.parse version line = .ok rule →
      AccessRule.parse version line = .ok rule' → rule = rule' :=
    fun _ _ _ hOne hOther => Except.ok.inj (hOne.symm.trans hOther)
  refine ⟨rfl, ?_⟩
  clear hSplit hSplit'
  induction hRules generalizing rules' with
  | nil => cases hRules'; rfl
  | cons hParse _ ih =>
    cases hRules' with
    | cons hParse' hMore' => rw [hSame _ _ _ hParse hParse', ih hMore']

section Tables

variable {κ : Type} [DecidableEq κ] {m n : OrderedMap κ Access} {k : κ} {a : Access}

/-- Changes that are there already change nothing. -/
theorem widen_eq_self (h : (widen m k a).get? k = m.get? k) : widen m k a = m := by
  rw [get?_widen, if_pos rfl] at h
  rw [widen, OrderedMap.update]
  exact OrderedMap.insert_of_get? h.symm

/-- A table whose changes are there already adds none. -/
theorem foldl_widen_eq_self
    (h : ∀ k, Option.merge Access.join (m.get? k) (n.get? k) = m.get? k) :
    n.entries.foldl (fun m e => widen m e.1 e.2) m = m := by
  have hEntry : ∀ e ∈ n.entries, widen m e.1 e.2 = m := by
    intro e hMem
    refine widen_eq_self ?_
    have hKey := h e.1
    rw [OrderedMap.get?_eq_some.2 hMem] at hKey
    rw [get?_widen_eq_merge, get?_widen, if_pos rfl]
    simpa only [OrderedMap.get?_empty, Option.getD_none, Access.none_join] using hKey
  exact List.foldlRecOn (motive := fun x => x = m) n.entries _ rfl fun x hx e hMem =>
    hx ▸ hEntry e hMem

end Tables

/-- A rule whose changes are there changes nothing. -/
theorem add_eq_self {rule : AccessRule} (h : w.Holds (asked rule)) : w.add rule = w := by
  have hSame : (w.add rule).changes = w.changes := (changes_add w rule).trans h
  have hClass := fun name => congrFun hSame (.ofClass name)
  have hMethod := fun member => congrFun hSame (.ofMethod member)
  have hField := fun member => congrFun hSame (.ofField member)
  cases rule with
  | onClass name change =>
    rw [add, addClass, widen_eq_self (hClass name)]
  | onMethod member change =>
    have hTable := widen_eq_self (hMethod member)
    have hOwner := widen_eq_self (hClass member.owner)
    dsimp only [add, addClass]
    rw [hTable, hOwner]
  | onField member change =>
    cases change with
    | accessible =>
      have hTable := widen_eq_self (hField member)
      have hOwner := widen_eq_self (hClass member.owner)
      dsimp only [add, addClass]
      rw [hTable, if_pos rfl, hOwner]
    | extendable | mutable =>
      have hTable := widen_eq_self (hField member)
      dsimp only [add]
      rw [hTable, if_neg nofun]

theorem foldl_add_eq_self {rules : List AccessRule} (h : w.Holds (askedByAll rules)) :
    rules.foldl add w = w := by
  induction rules with
  | nil => rfl
  | cons rule more ih =>
    have hSplit : askedByAll (rule :: more) = union (asked rule) (askedByAll more) := by
      rw [askedByAll, List.map_cons, List.foldl_cons, foldl_union, empty_union]
      rfl
    rw [hSplit] at h
    have hFirst : w.Holds (asked rule) := by
      rw [Holds, ← h, union_assoc, union_comm _ (asked rule), ← union_assoc (asked rule),
        union_self]
    have hMore : w.Holds (askedByAll more) := by
      rw [Holds, ← h, union_assoc, union_assoc, union_self]
    rw [List.foldl_cons, add_eq_self hFirst, ih hMore]

/-- A widener whose changes are there adds nothing. -/
theorem merge_eq_self (hNaming : v.naming = w.naming) (h : v.Holds w.changes) : v.merge w = v := by
  have hClasses := foldl_widen_eq_self fun name => congrFun h (.ofClass name)
  have hMethods := foldl_widen_eq_self fun member => congrFun h (.ofMethod member)
  have hFields := foldl_widen_eq_self fun member => congrFun h (.ofField member)
  dsimp only [merge]
  rw [hClasses, hMethods, hFields, ← hNaming, Option.or_self]

/-- **The rules of wideners are a set.** The order of the lines below the header does not matter;
texts in one namespace that are read one after the other make what merging makes of them, in any
order and grouping; and a text that was read already, on its own or within what was merged, changes
nothing when it is read or merged again. -/
theorem rules_are_set :
    (∀ text text' expected w, parse text expected = .ok w →
      PermutesRules (Text.lines text) (Text.lines text') →
        ∃ w', parse text' expected = .ok w' ∧ Agrees w' w) ∧
    (∀ name sources, (∀ s ∈ sources, s.Names name) →
      ∃ w, empty.takeAll sources = .ok w ∧ ∀ g : Grouping, g.sources.Perm sources →
        ∃ w', g.widener = .ok w' ∧ Agrees w' w) ∧
    ∀ text expected u w, parse text expected = .ok u → HasRead text w → w.naming = u.naming →
      w.read text expected = (w, .ok ()) ∧ w.merge u = w := by
  refine ⟨?_, ?_, ?_⟩
  · intro text text' expected w hParse hPerm
    rw [parse_eq_ok] at hParse
    obtain ⟨name, rules, hWrites, hFits, rfl⟩ := hParse
    obtain ⟨rules', hRules, hWrites'⟩ := writes_of_permutesRules hWrites hPerm
    refine ⟨_, parse_eq_ok.2 ⟨name, rules', hWrites', hFits, rfl⟩, agrees_of_changes ?_ ?_⟩
    · rw [naming_foldl_add, naming_foldl_add]
    · rw [changes_foldl_add, changes_foldl_add, askedByAll_perm hRules]
  · intro name sources hNames
    obtain ⟨w, hTake, hNaming, hChanges⟩ := exists_takeAll hNames (w := empty) nofun
    refine ⟨w, hTake, fun g hPerm => ?_⟩
    obtain ⟨w', hMade, hNaming', hChanges'⟩ :=
      exists_widener (g := g) fun s hMem => hNames s (hPerm.subset hMem)
    refine ⟨w', hMade, agrees_of_changes ?_ ?_⟩
    · rw [hNaming, hNaming', if_neg]
      rintro rfl
      exact g.sources_ne_nil (List.perm_nil.1 hPerm)
    · rw [hChanges, hChanges']
      exact (hPerm.map Source.asked).foldl_op_eq
  · intro text expected u w hParse hRead hNaming
    obtain ⟨name, rules, hWrites, hFits, rfl⟩ := parse_eq_ok.1 hParse
    obtain ⟨_, _, hWrites', hHolds⟩ := hRead.exists_holds
    obtain ⟨rfl, rfl⟩ := writes_unique hWrites hWrites'
    have hName : w.naming = some name := hNaming.trans (naming_foldl_add ..)
    have hSame : { w with naming := some name } = w := by rw [← hName]
    refine ⟨read_eq_ok.2 ⟨name, rules, hWrites, hFits, ?_, ?_⟩, merge_eq_self ?_ ?_⟩
    · rw [hName]
      rintro _ ⟨⟩
      rfl
    · rw [hSame, foldl_add_eq_self hHolds]
    · exact hNaming
    · rw [changes_foldl_add]
      have hNone : union { empty with naming := some name }.changes (askedByAll rules) =
        askedByAll rules := empty_union _
      rw [hNone]
      exact hHolds

/-- A rule for a class and one for a method of it, with a blank line and a comment. -/
def ruleText : String :=
  "accessWidener v1 a\naccessible class b\n\nextendable method b m ()V # open\n"

/-- The same lines in another order. -/
def turnedText : String :=
  "accessWidener v1 a\n\nextendable method b m ()V # open\naccessible class b"

def transitiveText : String := "accessWidener v2 a\ntransitive-mutable field b f I\n"

theorem rules_are_set_ruleText :
    PermutesRules (Text.lines ruleText) (Text.lines turnedText) ∧
    (∃ w w', parse ruleText none = .ok w ∧ parse turnedText none = .ok w' ∧ Agrees w' w) ∧
    (∀ s ∈ [Source.mk ruleText none, ⟨transitiveText, none⟩], s.Names "a") ∧
    (∃ w w', empty.takeAll [⟨ruleText, none⟩, ⟨transitiveText, none⟩] = .ok w ∧
      (Grouping.both (.one ⟨transitiveText, none⟩) (.one ⟨ruleText, none⟩)).widener = .ok w' ∧
        Agrees w' w ∧ w'.class? "b" = some ⟨true, true, false⟩ ∧
        w'.method? "b" "m" "()V" = some ⟨false, true, false⟩ ∧
        w'.field? "b" "f" "I" = some ⟨false, false, true⟩) ∧
    ∃ u w, parse transitiveText none = .ok u ∧ HasRead transitiveText w ∧ w.naming = u.naming ∧
      w.read transitiveText none = (w, .ok ()) ∧ w.merge u = w := by
  obtain ⟨hOrder, hGrouping, hAgain⟩ := rules_are_set
  have hPermutes : PermutesRules (Text.lines ruleText) (Text.lines turnedText) :=
    ⟨["accessWidener v1 a"], ["accessible class b", "", "extendable method b m ()V # open"],
      ["", "extendable method b m ()V # open", "accessible class b"], by decide +kernel,
      by decide +kernel, by decide, by decide⟩
  obtain ⟨v, hRules, hName⟩ : (Source.mk ruleText none).Names "a" := ⟨_, rfl, rfl⟩
  obtain ⟨u, hTransitive, hName'⟩ : (Source.mk transitiveText none).Names "a" := ⟨_, rfl, rfl⟩
  have hNames : ∀ s ∈ [Source.mk ruleText none, ⟨transitiveText, none⟩], s.Names "a" :=
    List.forall_mem_cons.2
      ⟨⟨v, hRules, hName⟩, List.forall_mem_singleton.2 ⟨u, hTransitive, hName'⟩⟩
  obtain ⟨v', hTurned, hAgrees⟩ := hOrder ruleText turnedText none v hRules hPermutes
  obtain ⟨w, hTake, hMerged⟩ := hGrouping "a" _ hNames
  obtain ⟨w', hMade, hSame⟩ := hMerged
    (.both (.one ⟨transitiveText, none⟩) (.one ⟨ruleText, none⟩)) (List.Perm.swap ..)
  have hRules' : (Grouping.both (.one ⟨transitiveText, none⟩) (.one ⟨ruleText, none⟩)).widener.map
      (fun w => (w.class? "b", w.method? "b" "m" "()V", w.field? "b" "f" "I")) =
        .ok (some ⟨true, true, false⟩, some ⟨false, true, false⟩, some ⟨false, false, true⟩) := by
    decide +kernel
  rw [hMade] at hRules'
  obtain ⟨hClass, hMembers⟩ := Prod.mk.inj (Except.ok.inj hRules')
  obtain ⟨hMethod, hField⟩ := Prod.mk.inj hMembers
  have hHas : HasRead transitiveText (v.merge u) := (hasRead_of_parse hTransitive).mergeRight
  have hNaming : (v.merge u).naming = u.naming := by
    rw [merge, hName, hName']
    rfl
  exact ⟨hPermutes, ⟨v, v', hRules, hTurned, hAgrees⟩, hNames,
    ⟨w, w', hTake, hMade, hSame, hClass, hMethod, hField⟩, u, v.merge u, hTransitive, hHas, hNaming,
    hAgain transitiveText none u _ hTransitive hHas hNaming⟩

end AccessWidener

end Jarsmith
