import Jarsmith.Proofs.OrderedMap
import Jarsmith.Proofs.Remap.Lineage
import Jarsmith.Remap.Remapper

/-!
# The search for the name of a member

A member is renamed by the first entry that its owner sees in its lineage: entries for private
members count in their own class only.

* `method?_cases` — a method gets its name from an entry that its owner sees, or keeps it.
* `overrides_follow_ancestors` — overrides follow their ancestor.
* `field?_eq_iff` — a field is renamed like the declaration that it resolves to, exactly if no entry
  without a descriptor captures it.
-/

namespace Jarsmith

namespace ClassHierarchy

/-- A member of `c` counts for `owner`: private methods count in their own class only. -/
def SeesMethod (h : ClassHierarchy) (owner c : String) (key : MemberKey) : Prop :=
  c = owner ∨ h.isPrivateMethod c key = false

/-- The same for a field. -/
def SeesField (h : ClassHierarchy) (owner c : String) (key : MemberKey) : Prop :=
  c = owner ∨ h.isPrivateField c key = false

instance (h : ClassHierarchy) (owner c : String) (key : MemberKey) :
    Decidable (h.SeesMethod owner c key) := inferInstanceAs (Decidable (_ ∨ _))

instance (h : ClassHierarchy) (owner c : String) (key : MemberKey) :
    Decidable (h.SeesField owner c key) := inferInstanceAs (Decidable (_ ∨ _))

theorem not_seesMethod {h : ClassHierarchy} {owner c : String} {key : MemberKey} :
    ¬ h.SeesMethod owner c key ↔ c ≠ owner ∧ h.isPrivateMethod c key := by
  rw [SeesMethod, not_or, Bool.not_eq_false]

theorem not_seesField {h : ClassHierarchy} {owner c : String} {key : MemberKey} :
    ¬ h.SeesField owner c key ↔ c ≠ owner ∧ h.isPrivateField c key := by
  rw [SeesField, not_or, Bool.not_eq_false]

theorem isPrivateMethod_eq_true {h : ClassHierarchy} {c : String} {key : MemberKey} :
    h.isPrivateMethod c key = true ↔
      ∃ node, (c, node) ∈ h.classes.entries ∧ key ∈ node.privateMethods := by
  rw [isPrivateMethod, Option.any_eq_true]
  simp only [node?, OrderedMap.get?_eq_some, List.contains_iff_mem]

/-- What holds of all private methods of the known classes. -/
theorem of_isPrivateMethod {h : ClassHierarchy} {c : String} {key : MemberKey}
    {P : String → MemberKey → Prop}
    (hAll : ∀ e ∈ h.classes.entries, ∀ k ∈ e.2.privateMethods, P e.1 k)
    (hPrivate : h.isPrivateMethod c key = true) : P c key := by
  obtain ⟨node, hNode, hMem⟩ := isPrivateMethod_eq_true.1 hPrivate
  exact hAll (c, node) hNode key hMem

theorem declaresField_eq_true {h : ClassHierarchy} {c : String} {key : MemberKey} :
    h.declaresField c key = true ↔
      ∃ node, (c, node) ∈ h.classes.entries ∧ key ∈ node.fields := by
  rw [declaresField, Option.any_eq_true]
  simp only [node?, OrderedMap.get?_eq_some, List.contains_iff_mem]

end ClassHierarchy

namespace MappingRemapper

variable {r : MappingRemapper} {owner c named : String} {key : MemberKey} {classes : List String}

@[simp] theorem changed_none (name : String) : changed name none = none := rfl

theorem changed_some (name named : String) :
    changed name (some named) = if named = name then none else some named := by
  unfold changed
  rw [Option.filter_some]
  by_cases h : named = name <;> simp [h]

@[simp] theorem getD_changed_some (name named : String) :
    (changed name (some named)).getD name = named := by
  rw [changed_some]
  split
  · rename_i h
    exact h.symm
  · rfl

-- ---------------------------------------------------------------------------
-- Methods
-- ---------------------------------------------------------------------------

/-- An entry for a method, as it stands in the table. -/
theorem listedMethod?_eq_some : r.listedMethod? c key = some named ↔
    ∃ m e, (c, m) ∈ r.mappings.classes.entries ∧
      (⟨key.name, key.descriptor⟩, e) ∈ m.methods.entries ∧ e.named = named := by
  simp only [listedMethod?, MappingSet.class?, ClassMapping.method?, Option.map_eq_some_iff,
    Option.bind_eq_some_iff, OrderedMap.get?_eq_some]
  constructor
  · rintro ⟨e, ⟨m, hClass, hMethod⟩, hNamed⟩
    exact ⟨m, e, hClass, hMethod, hNamed⟩
  · rintro ⟨m, e, hClass, hMethod, hNamed⟩
    exact ⟨e, ⟨m, hClass, hMethod⟩, hNamed⟩

/-- What holds of all entries for methods. -/
theorem of_listedMethod? {P : String → MemberKey → String → Prop}
    (hAll : ∀ e ∈ r.mappings.classes.entries, ∀ f ∈ e.2.methods.entries,
      P e.1 ⟨f.1.name, f.1.descriptor⟩ f.2.named)
    (hListed : r.listedMethod? c key = some named) : P c key named := by
  obtain ⟨m, e, hClass, hMethod, rfl⟩ := listedMethod?_eq_some.1 hListed
  exact hAll (c, m) hClass (⟨key.name, key.descriptor⟩, e) hMethod

theorem listedMethod?_of_class? {m : ClassMapping} (hClass : r.mappings.class? c = some m) :
    r.listedMethod? c key = (m.methods.get? ⟨key.name, key.descriptor⟩).map (·.named) := by
  rw [listedMethod?, hClass]
  rfl

theorem searchMethod_cons_seen (hSees : r.hierarchy.SeesMethod owner c key) :
    r.searchMethod owner key (c :: classes) =
      match r.listedMethod? c key with
      | some named => changed key.name (some named)
      | none => r.searchMethod owner key classes := by
  rw [searchMethod]
  exact if_neg fun hHidden => ClassHierarchy.not_seesMethod.2 hHidden hSees

theorem searchMethod_cons_hidden (hHidden : ¬ r.hierarchy.SeesMethod owner c key) :
    r.searchMethod owner key (c :: classes) = r.searchMethod owner key classes := by
  rw [searchMethod, if_pos (ClassHierarchy.not_seesMethod.1 hHidden)]

/-- A search ends at an entry that the owner sees, or there is none and the name stays. -/
theorem searchMethod_cases (r : MappingRemapper) (owner : String) (key : MemberKey)
    (classes : List String) :
    (∃ c ∈ classes, ∃ named, r.hierarchy.SeesMethod owner c key ∧
      r.listedMethod? c key = some named ∧
      r.searchMethod owner key classes = changed key.name (some named)) ∨
    ((∀ c ∈ classes, r.hierarchy.SeesMethod owner c key → r.listedMethod? c key = none) ∧
      r.searchMethod owner key classes = none) := by
  induction classes with
  | nil => exact .inr ⟨fun _ hMem => absurd hMem List.not_mem_nil, rfl⟩
  | cons c classes ih =>
    by_cases hSees : r.hierarchy.SeesMethod owner c key
    · rw [searchMethod_cons_seen hSees]
      cases hListed : r.listedMethod? c key with
      | some named => exact .inl ⟨c, List.mem_cons_self, named, hSees, hListed, rfl⟩
      | none =>
        rcases ih with ⟨a, ha, rest⟩ | ⟨hNone, hSearch⟩
        · exact .inl ⟨a, List.mem_cons_of_mem _ ha, rest⟩
        · exact .inr ⟨List.forall_mem_cons.2 ⟨fun _ => hListed, hNone⟩, hSearch⟩
    · rw [searchMethod_cons_hidden hSees]
      rcases ih with ⟨a, ha, rest⟩ | ⟨hNone, hSearch⟩
      · exact .inl ⟨a, List.mem_cons_of_mem _ ha, rest⟩
      · exact .inr ⟨List.forall_mem_cons.2 ⟨fun h => absurd h hSees, hNone⟩, hSearch⟩

/-- The entries for a method that a class sees in its lineage give it one name. -/
def MethodsAgree (r : MappingRemapper) (owner : String) (key : MemberKey) : Prop :=
  ∀ a ∈ r.hierarchy.lineage owner, ∀ b ∈ r.hierarchy.lineage owner,
    r.hierarchy.SeesMethod owner a key → r.hierarchy.SeesMethod owner b key →
    ∀ x y, r.listedMethod? a key = some x → r.listedMethod? b key = some y → x = y

theorem method?_of_initializer (hName : Text.startsWith key.name "<" = true) :
    r.method? owner key = none := by
  rw [method?, if_pos hName]

/-- A method that is no initializer gets its name from an entry that its owner sees, or keeps it. -/
theorem method?_cases (r : MappingRemapper) (owner : String)
    (hName : Text.startsWith key.name "<" = false) :
    (∃ c ∈ r.hierarchy.lineage owner, ∃ named, r.hierarchy.SeesMethod owner c key ∧
      r.listedMethod? c key = some named ∧
      r.method? owner key = changed key.name (some named)) ∨
    ((∀ c ∈ r.hierarchy.lineage owner,
        r.hierarchy.SeesMethod owner c key → r.listedMethod? c key = none) ∧
      r.method? owner key = none) := by
  rw [method?, if_neg (by rw [hName]; exact Bool.false_ne_true)]
  exact r.searchMethod_cases owner key (r.hierarchy.lineage owner)

/-- The own entry of a class comes first. -/
theorem method?_of_listed (hName : Text.startsWith key.name "<" = false)
    (hListed : r.listedMethod? owner key = some named) :
    r.method? owner key = changed key.name (some named) := by
  obtain ⟨above, hLineage⟩ := r.hierarchy.lineage_eq_cons owner
  rw [method?, if_neg (by rw [hName]; exact Bool.false_ne_true), hLineage,
    searchMethod_cons_seen (.inl rfl), hListed]

/-- When the entries agree, any one that the class sees tells the new name. -/
theorem method?_of_agree (hName : Text.startsWith key.name "<" = false)
    (hAgree : r.MethodsAgree owner key) (hMem : c ∈ r.hierarchy.lineage owner)
    (hSees : r.hierarchy.SeesMethod owner c key) (hListed : r.listedMethod? c key = some named) :
    r.method? owner key = changed key.name (some named) := by
  rcases r.method?_cases owner hName with
    ⟨a, ha, x, hSeesA, hListedA, hMethod⟩ | ⟨hNone, -⟩
  · rw [hMethod, hAgree a ha c hMem hSeesA hSees x named hListedA hListed]
  · rw [hNone c hMem hSees] at hListed
    cases hListed

/-- Without an entry that the class sees, the name stays. -/
theorem method?_eq_none (hNone : ∀ c ∈ r.hierarchy.lineage owner,
    r.hierarchy.SeesMethod owner c key → r.listedMethod? c key = none) :
    r.method? owner key = none := by
  by_cases hName : Text.startsWith key.name "<" = true
  · exact method?_of_initializer hName
  · rw [Bool.not_eq_true] at hName
    rcases r.method?_cases owner hName with ⟨a, ha, x, hSees, hListed, -⟩ | ⟨-, h⟩
    · rw [hNone a ha hSees] at hListed
      cases hListed
    · exact h

/-- A method whose name the table does not list at all keeps it. -/
theorem method?_of_unlisted (hAll : ∀ e ∈ r.mappings.classes.entries,
    ∀ f ∈ e.2.methods.entries, f.1.name ≠ key.name) : r.method? owner key = none := by
  refine method?_eq_none fun c _ _ => Option.eq_none_iff_forall_ne_some.2 fun named hListed => ?_
  exact of_listedMethod? (P := fun _ k _ => k.name ≠ key.name) hAll hListed rfl

/-- **Overrides follow their ancestor.** If the entries that a class sees for a method agree, for
every class and every method, then a class renames a method like each class above it that lists the
method, unless it is private there; and entries for private methods of other classes rename
nothing. -/
theorem overrides_follow_ancestors
    (hAgree : ∀ owner key, Text.startsWith key.name "<" = false → r.MethodsAgree owner key)
    (owner : String) (key : MemberKey) :
    (∀ a ∈ r.hierarchy.lineage owner, (r.listedMethod? a key).isSome →
      (a = owner ∨ r.hierarchy.isPrivateMethod a key = false) →
      r.method? owner key = r.method? a key) ∧
    ((∀ a ∈ r.hierarchy.lineage owner, (r.listedMethod? a key).isSome →
      a ≠ owner ∧ r.hierarchy.isPrivateMethod a key = true) → r.method? owner key = none) := by
  constructor
  · intro a hMem hListed hSees
    obtain ⟨named, hNamed⟩ := Option.isSome_iff_exists.1 hListed
    by_cases hName : Text.startsWith key.name "<" = true
    · rw [method?_of_initializer hName, method?_of_initializer hName]
    · rw [Bool.not_eq_true] at hName
      rw [method?_of_agree hName (hAgree owner key hName) hMem hSees hNamed,
        method?_of_listed hName hNamed]
  · intro hHidden
    refine method?_eq_none fun a hMem hSees => ?_
    cases hListed : r.listedMethod? a key with
    | none => rfl
    | some named =>
      have hIsSome : (r.listedMethod? a key).isSome := Option.isSome_iff_exists.2 ⟨named, hListed⟩
      exact absurd hSees (ClassHierarchy.not_seesMethod.2 (hHidden a hMem hIsSome))

/-- A class `c` below `b` and `i`, which both are below `a`, and `a` is below `c` again. The table
lists a method in `a` and `i`, and one that is private in `b`. -/
def looped : MappingRemapper :=
  ⟨(((∅ : MappingSet).addMethod "a" "m" "()V" "x").addMethod "i" "m" "()V" "x").addMethod
      "b" "p" "()V" "y",
    ⟨OrderedMap.ofList [("c", ⟨some "b", ["i"], [], [], []⟩),
      ("b", ⟨some "a", [], [⟨"p", "()V"⟩], [], []⟩), ("i", ⟨none, ["a"], [], [], []⟩),
      ("a", ⟨some "c", [], [], [], []⟩)]⟩⟩

theorem looped_lineage : looped.hierarchy.lineage "c" = ["c", "b", "i", "a"] := by
  simp [ClassHierarchy.lineage, ClassHierarchy.walk_new, ClassHierarchy.walk_nil,
    ClassHierarchy.walk_seen, looped, ClassHierarchy.node?, OrderedMap.ofList, ClassNode.parents]

theorem looped_methodsAgree (owner : String) (key : MemberKey) :
    looped.MethodsAgree owner key := by
  have hNames : ∀ p ∈ looped.mappings.classes.entries, ∀ q ∈ p.2.methods.entries,
      q.2.named = if q.1.name = "m" then "x" else "y" := by decide
  have hListed : ∀ c named, looped.listedMethod? c key = some named →
      named = if key.name = "m" then "x" else "y" := by
    intro c named hListed
    exact of_listedMethod?
      (P := fun _ k named => named = if k.name = "m" then "x" else "y") hNames hListed
  intro a _ b _ _ _ x y hx hy
  rw [hListed a x hx, hListed b y hy]

theorem looped_follows_ancestor :
    looped.method? "c" ⟨"m", "()V"⟩ = looped.method? "a" ⟨"m", "()V"⟩ ∧
      looped.method? "a" ⟨"m", "()V"⟩ = some "x" ∧ looped.method? "c" ⟨"p", "()V"⟩ = none ∧
      looped.method? "b" ⟨"p", "()V"⟩ = some "y" := by
  have hFollow := fun key => overrides_follow_ancestors (r := looped)
    (fun owner key _ => looped_methodsAgree owner key) "c" key
  rw [looped_lineage] at hFollow
  have hShared : looped.listedMethod? "a" ⟨"m", "()V"⟩ = some "x" := by decide
  have hPrivate : looped.listedMethod? "b" ⟨"p", "()V"⟩ = some "y" := by decide
  exact ⟨(hFollow ⟨"m", "()V"⟩).1 "a" (by decide) (by decide) (.inr (by decide)),
    method?_of_listed (by decide) hShared, (hFollow ⟨"p", "()V"⟩).2 (by decide),
    method?_of_listed (by decide) hPrivate⟩

-- ---------------------------------------------------------------------------
-- Fields
-- ---------------------------------------------------------------------------

theorem searchField_cons_seen (hSees : r.hierarchy.SeesField owner c key) :
    r.searchField owner key (c :: classes) =
      match r.listedField? c key with
      | some named => changed key.name (some named)
      | none =>
        if r.hierarchy.declaresField c key then none else r.searchField owner key classes := by
  rw [searchField]
  exact if_neg fun hHidden => ClassHierarchy.not_seesField.2 hHidden hSees

theorem listedField?_of_class? {m : ClassMapping} (hClass : r.mappings.class? c = some m)
    (hDescribed : m.fields.get? ⟨key.name, none⟩ = none) :
    r.listedField? c key = (m.fields.get? ⟨key.name, some key.descriptor⟩).map (·.named) := by
  rw [listedField?, hClass, Option.bind_some, ClassMapping.field?]
  simp only [hDescribed, Option.map_none, Option.or_none, Option.map_map]
  rfl

/-- A field that is listed stands in the table with its descriptor or with none. -/
theorem exists_of_listedField? (hListed : r.listedField? c key = some named) :
    ∃ m k f, (c, m) ∈ r.mappings.classes.entries ∧ (k, f) ∈ m.fields.entries ∧
      k.name = key.name ∧ (k.descriptor = some key.descriptor ∨ k.descriptor = none) := by
  obtain ⟨⟨k, f⟩, hField, -⟩ := Option.map_eq_some_iff.1 hListed
  obtain ⟨m, hClass, hField⟩ := Option.bind_eq_some_iff.1 hField
  have hMember := OrderedMap.get?_eq_some.1 hClass
  rcases Option.or_eq_some_iff.1 hField with hExact | ⟨-, hLoose⟩
  · obtain ⟨f, hGet, hEq⟩ := Option.map_eq_some_iff.1 hExact
    exact ⟨m, _, f, hMember, OrderedMap.get?_eq_some.1 hGet, rfl, .inl rfl⟩
  · obtain ⟨f, hGet, hEq⟩ := Option.map_eq_some_iff.1 hLoose
    exact ⟨m, _, f, hMember, OrderedMap.get?_eq_some.1 hGet, rfl, .inr rfl⟩

theorem searchField_cons_hidden (hHidden : ¬ r.hierarchy.SeesField owner c key) :
    r.searchField owner key (c :: classes) = r.searchField owner key classes := by
  rw [searchField, if_pos (ClassHierarchy.not_seesField.1 hHidden)]

/-- The own entry of a class comes first. -/
theorem field?_of_listed (hListed : r.listedField? owner key = some named) :
    r.field? owner key = changed key.name (some named) := by
  obtain ⟨above, hLineage⟩ := r.hierarchy.lineage_eq_cons owner
  rw [field?, hLineage, searchField_cons_seen (.inl rfl), hListed]

/-- For a class that declares the field itself, its own entry decides. -/
theorem field?_of_declares (hDeclares : r.hierarchy.declaresField owner key = true) :
    r.field? owner key = changed key.name (r.listedField? owner key) := by
  obtain ⟨above, hLineage⟩ := r.hierarchy.lineage_eq_cons owner
  rw [field?, hLineage, searchField_cons_seen (.inl rfl), hDeclares]
  cases r.listedField? owner key <;> rfl

/-- Whether a reference to a field of `owner` resolves to the class `c`, if it gets there. -/
def ResolvesAt (r : MappingRemapper) (owner : String) (key : MemberKey) (c : String) : Prop :=
  r.hierarchy.declaresField c key = true ∧ r.hierarchy.SeesField owner c key

instance (owner : String) (key : MemberKey) (c : String) : Decidable (r.ResolvesAt owner key c) :=
  inferInstanceAs (Decidable (_ ∧ _))

/-- The class whose declaration a reference to a field resolves to. -/
def declaring? (r : MappingRemapper) (owner : String) (key : MemberKey) : Option String :=
  (r.hierarchy.lineage owner).find? fun c => decide (r.ResolvesAt owner key c)

/-- The classes that a reference to a field passes before it gets to the declaration. -/
def passed (r : MappingRemapper) (owner : String) (key : MemberKey) : List String :=
  (r.hierarchy.lineage owner).takeWhile fun c => !decide (r.ResolvesAt owner key c)

/-- The name that the entry without a descriptor gives to the fields of a name in a class. -/
def undescribed? (r : MappingRemapper) (c name : String) : Option String :=
  ((r.mappings.class? c).bind fun m => m.fields.get? ⟨name, none⟩).map (·.named)

/-- The name that captures a reference: the first class that it passes, and that lists fields of the
name without a descriptor, gives it. -/
def captured? (r : MappingRemapper) (owner : String) (key : MemberKey) : Option String :=
  ((r.passed owner key).filter fun c => decide (r.hierarchy.SeesField owner c key)).findSome?
    fun c => r.undescribed? c key.name

/-- Every entry for a field is about a field that its class declares. -/
def FieldsDeclared (r : MappingRemapper) : Prop :=
  ∀ c m k f, r.mappings.class? c = some m → m.fields.get? k = some f →
    ∃ descriptor, r.hierarchy.declaresField c ⟨k.name, descriptor⟩ = true ∧
      (k.descriptor = none ∨ k.descriptor = some descriptor)

/-- Only an entry without a descriptor is found in a class that does not declare the field. -/
theorem listedField?_of_not_declares (hDeclared : r.FieldsDeclared)
    (hNot : r.hierarchy.declaresField c key = false) :
    r.listedField? c key = r.undescribed? c key.name := by
  unfold listedField? undescribed?
  cases hClass : r.mappings.class? c with
  | none => rfl
  | some m =>
    have hExact : m.fields.get? ⟨key.name, some key.descriptor⟩ = none := by
      refine Option.eq_none_iff_forall_ne_some.2 fun f hf => ?_
      obtain ⟨d, hDeclares, hNone | hSome⟩ := hDeclared c m _ f hClass hf
      · cases hNone
      · cases hSome
        exact absurd hDeclares (by rw [hNot]; exact Bool.false_ne_true)
    simp only [Option.bind_some, ClassMapping.field?, hExact, Option.map_none, Option.none_or,
      Option.map_map]
    rfl

/-- Before it gets to the declaration, only an entry without a descriptor can end the search. -/
theorem searchField_passed (hDeclared : r.FieldsDeclared)
    (hPassed : ∀ c ∈ classes, ¬ r.ResolvesAt owner key c) (rest : List String) :
    r.searchField owner key (classes ++ rest) =
      match (classes.filter fun c => decide (r.hierarchy.SeesField owner c key)).findSome?
        fun c => r.undescribed? c key.name with
      | some named => changed key.name (some named)
      | none => r.searchField owner key rest := by
  induction classes with
  | nil => rfl
  | cons c classes ih =>
    obtain ⟨hc, hMore⟩ := List.forall_mem_cons.1 hPassed
    rw [List.cons_append]
    by_cases hSees : r.hierarchy.SeesField owner c key
    · have hNot : r.hierarchy.declaresField c key = false := by
        rw [← Bool.not_eq_true]
        exact fun hDeclares => hc ⟨hDeclares, hSees⟩
      rw [searchField_cons_seen hSees, listedField?_of_not_declares hDeclared hNot, hNot,
        List.filter_cons, if_pos (decide_eq_true hSees), List.findSome?_cons]
      cases r.undescribed? c key.name with
      | some named => rfl
      | none => exact ih hMore
    · rw [searchField_cons_hidden hSees, List.filter_cons,
        if_neg (by rw [decide_eq_true_eq]; exact hSees)]
      exact ih hMore

/-- What a reference to a field that resolves is renamed to: the name that captures it, or else the
name of the declaration. -/
theorem field?_of_resolves {d : String} (hDeclared : r.FieldsDeclared)
    (hResolves : r.declaring? owner key = some d) :
    r.field? owner key =
      match r.captured? owner key with
      | some named => changed key.name (some named)
      | none => r.field? d key := by
  obtain ⟨hAt, before, after, hLineage, hBefore⟩ := List.find?_eq_some_iff_append.1 hResolves
  have hPassed : ∀ c ∈ before, ¬ r.ResolvesAt owner key c := by
    intro c hc hAtC
    have hFalse := hBefore c hc
    rw [decide_eq_true hAtC] at hFalse
    cases hFalse
  have hTake : r.passed owner key = before := by
    rw [passed, hLineage, List.takeWhile_append_of_pos hBefore, List.takeWhile_cons, hAt]
    exact List.append_nil before
  obtain ⟨hDeclares, hSees⟩ := of_decide_eq_true hAt
  -- the search stops at the declaration, whatever is listed there
  have hStop : r.searchField owner key (d :: after) = r.field? d key := by
    rw [searchField_cons_seen hSees, hDeclares, field?_of_declares hDeclares]
    cases r.listedField? d key <;> rfl
  rw [field?, hLineage, searchField_passed hDeclared hPassed, hStop, captured?, hTake]

/-- **A reference to a field is renamed like the declaration that it resolves to, exactly if it is
not captured under another name**: an entry without a descriptor stands for every field of its name,
and so for a reference that only passes its class. -/
theorem field?_eq_iff {d : String} (hDeclared : r.FieldsDeclared)
    (hResolves : r.declaring? owner key = some d) :
    r.field? owner key = r.field? d key ↔
      ∀ named, r.captured? owner key = some named →
        changed key.name (some named) = r.field? d key := by
  rw [field?_of_resolves hDeclared hResolves]
  cases r.captured? owner key with
  | none =>
    refine ⟨fun _ _ h => ?_, fun _ => rfl⟩
    cases h
  | some named =>
    refine ⟨fun h _ hSame => ?_, fun h => h named rfl⟩
    rw [← Option.some.inj hSame]
    exact h

/-- A class with a field `f` of type `I` below one with a field `f` of type `J`; the table lists the
fields `f` of the lower class without a descriptor. -/
def shadowing : MappingRemapper :=
  ⟨(∅ : MappingSet).addField "a" "f" none "x",
    ⟨OrderedMap.ofList [("a", ⟨some "b", [], [], [], [⟨"f", "I"⟩]⟩),
      ("b", ⟨none, [], [], [], [⟨"f", "J"⟩]⟩)]⟩⟩

theorem shadowing_fieldsDeclared : shadowing.FieldsDeclared := by
  intro c m k f hClass hField
  change ((∅ : OrderedMap String ClassMapping).insert "a" _).get? c = some m at hClass
  rw [OrderedMap.get?_insert] at hClass
  split at hClass
  · rename_i hName
    cases hClass
    change ((∅ : OrderedMap FieldKey FieldMapping).insert ⟨"f", none⟩ ⟨"x", none⟩).get? k = some f
      at hField
    rw [OrderedMap.get?_insert] at hField
    split at hField
    · rename_i hKey
      rw [← hName, ← hKey]
      exact ⟨"I", rfl, .inl rfl⟩
    · cases hField
  · cases hClass

theorem shadowing_lineage : shadowing.hierarchy.lineage "a" = ["a", "b"] := by
  simp [ClassHierarchy.lineage, ClassHierarchy.walk_new, ClassHierarchy.walk_nil, shadowing,
    ClassHierarchy.node?, OrderedMap.ofList, ClassNode.parents]

theorem field?_ne_shadowing :
    shadowing.declaring? "a" ⟨"f", "J"⟩ = some "b" ∧
      shadowing.field? "a" ⟨"f", "J"⟩ ≠ shadowing.field? "b" ⟨"f", "J"⟩ := by
  have hResolves : shadowing.declaring? "a" ⟨"f", "J"⟩ = some "b" := by
    rw [declaring?, shadowing_lineage]
    rfl
  refine ⟨hResolves, fun hSame => ?_⟩
  have hCaptured : shadowing.captured? "a" ⟨"f", "J"⟩ = some "x" := by
    rw [captured?, passed, shadowing_lineage]
    rfl
  have hName := (field?_eq_iff shadowing_fieldsDeclared hResolves).1 hSame "x" hCaptured
  rw [field?_of_declares rfl] at hName
  revert hName
  decide

end MappingRemapper

end Jarsmith
