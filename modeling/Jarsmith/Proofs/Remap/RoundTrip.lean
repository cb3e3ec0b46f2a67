import Jarsmith.Proofs.Remap.WayBack
import Mathlib.Tactic.ByContra

/-!
# Renaming there and back

A reversed table renames the members of a renamed hierarchy back. The two remappers search lineages
that correspond class by class: an entry counts for a class in one search exactly if the reversed
entry counts in the other, and no other entry comes between.

* `Invertible.listedMethod?_back`, `Invertible.listedField?_back` — the reversed entries.
* `Invertible.seesMethod_back`, `Invertible.seesMethod_of_back` — which of them count.
* `restores_of_invertible` — every declared member, class and descriptor gets its old name back.
-/

namespace Jarsmith.MappingRemapper

variable {r : MappingRemapper}

namespace Invertible

variable {declares : String → MemberKey → Prop} {a c x d : String} {key : MemberKey}

-- ---------------------------------------------------------------------------
-- Methods
-- ---------------------------------------------------------------------------

variable {named : String}

theorem plain_of_listed (hInv : r.Invertible declares) (hListed : r.listedMethod? a key = some named) :
    Text.startsWith key.name "<" = false ∧ Text.startsWith named "<" = false := by
  refine of_listedMethod? (P := fun _ k named => Text.startsWith k.name "<" = false ∧
    Text.startsWith named "<" = false) (fun e he f hf => ?_) hListed
  exact ⟨hInv.sources e he f hf, (hInv.plain e he).2.2 f hf⟩

/-- A class renames a method as each entry says that it sees. -/
theorem methodKey_of_seen (hInv : r.Invertible declares) (ha : a ∈ r.hierarchy.lineage c)
    (hSees : r.hierarchy.SeesMethod c a key) (hListed : r.listedMethod? a key = some named) :
    r.toRemapper.methodKey c key = ⟨named, r.mappings.mapDescriptor key.descriptor⟩ := by
  have hName := (hInv.plain_of_listed hListed).1
  have hMethod : r.method? c key = changed key.name (some named) :=
    method?_of_agree hName (hInv.agree c key hName) ha hSees hListed
  rw [Remapper.methodKey, descriptor_toRemapper]
  show MemberKey.mk ((r.method? c key).getD key.name) _ = _
  rw [hMethod, getD_changed_some]

theorem methodKey_of_listed (hInv : r.Invertible declares)
    (hListed : r.listedMethod? a key = some named) :
    r.toRemapper.methodKey a key = ⟨named, r.mappings.mapDescriptor key.descriptor⟩ :=
  hInv.methodKey_of_seen ClassHierarchy.mem_lineage_self (.inl rfl) hListed

theorem methodOf_of_listed (hListed : r.listedMethod? a key = some named)
    (ha : a ∈ r.hierarchy.lineage c) : r.MethodOf declares c key :=
  ⟨a, ha, .inr (Option.isSome_iff_exists.2 ⟨named, hListed⟩)⟩

/-- A renamed class lists the methods under their new names, and gives them their old ones. -/
theorem listedMethod?_back (hInv : r.Invertible declares) (ha : r.Occurs declares a) :
    r.back.listedMethod? (r.mappings.className a) key = some x ↔
      ∃ d, r.listedMethod? a ⟨x, d⟩ = some key.name ∧
        r.mappings.mapDescriptor d = key.descriptor := by
  have hClasses := hInv.class?_back ha
  cases hClass : r.mappings.class? a with
  | none =>
    rw [hClass] at hClasses
    simp [listedMethod?, hClasses, hClass]
  | some m =>
    rw [hClass, Option.map_some] at hClasses
    have hListed : ∀ {k e}, m.methods.get? k = some e →
        r.listedMethod? a ⟨k.name, k.descriptor⟩ = some e.named := by
      intro k e hGet
      rw [listedMethod?_of_class? hClass, hGet, Option.map_some]
    have hDistinct : ∀ k₁ e₁ k₂ e₂, m.methods.get? k₁ = some e₁ → m.methods.get? k₂ = some e₂ →
        MethodKey.mk e₁.named (r.mappings.mapDescriptor k₁.descriptor) =
          ⟨e₂.named, r.mappings.mapDescriptor k₂.descriptor⟩ → k₁ = k₂ := by
      intro k₁ e₁ k₂ e₂ h₁ h₂ hEq
      obtain ⟨hName, hDescriptor⟩ := MethodKey.mk.inj hEq
      have hKeys := hInv.methods a _ _
        (methodOf_of_listed (hListed h₁) ClassHierarchy.mem_lineage_self)
        (methodOf_of_listed (hListed h₂) ClassHierarchy.mem_lineage_self)
        (by rw [hInv.methodKey_of_listed (hListed h₁), hInv.methodKey_of_listed (hListed h₂),
          hName, hDescriptor])
      obtain ⟨hNames, hDescriptors⟩ := MemberKey.mk.inj hKeys
      cases k₁
      cases k₂
      exact congrArg₂ MethodKey.mk hNames hDescriptors
    have hReversed := fun b => OrderedMap.get?_ofList_map hDistinct (b := b)
      (k := ⟨key.name, key.descriptor⟩)
      (g := fun k e => MethodMapping.mk k.name e.parameters e.javadoc)
    rw [listedMethod?_of_class? hClasses, MappingSet.methods_reversed, Option.map_eq_some_iff]
    constructor
    · rintro ⟨back, hGet, rfl⟩
      obtain ⟨k, e, hk, hKey, rfl⟩ := (hReversed _).1 hGet
      obtain ⟨hName, hDescriptor⟩ := MethodKey.mk.inj hKey
      exact ⟨k.descriptor, hName ▸ hListed hk, hDescriptor⟩
    · rintro ⟨d, hGet, hDescriptor⟩
      rw [listedMethod?_of_class? hClass] at hGet
      obtain ⟨e, hk, hName⟩ := Option.map_eq_some_iff.1 hGet
      exact ⟨_, (hReversed _).2 ⟨_, e, hk, congrArg₂ MethodKey.mk hName hDescriptor, rfl⟩, rfl⟩

/-- An entry that a renamed class sees on the way back is the reversed entry of a method that the
class sees on the way there, and names that method. -/
theorem seesMethod_of_back (hInv : r.Invertible declares) (hc : r.Occurs declares c)
    (ha : r.Occurs declares a) (hListed : r.listedMethod? a ⟨x, d⟩ = some key.name)
    (hDescriptor : r.mappings.mapDescriptor d = key.descriptor)
    (hSees : r.back.hierarchy.SeesMethod (r.mappings.className c) (r.mappings.className a) key) :
    r.hierarchy.SeesMethod c a ⟨x, d⟩ := by
  rcases hSees with hSame | hVisible
  · exact .inl (hInv.className_injective ha hc hSame)
  · refine .inr (Bool.eq_false_iff.2 fun hPrivate => ?_)
    have hBack : r.back.hierarchy.isPrivateMethod (r.mappings.className a) key = true :=
      (hInv.isPrivateMethod_back ha).2
        ⟨⟨x, d⟩, hPrivate, by rw [hInv.methodKey_of_listed hListed, hDescriptor]⟩
    rw [hVisible] at hBack
    cases hBack

/-- The entry that renames a method of a class is seen by the renamed class on the way back. -/
theorem seesMethod_back (hInv : r.Invertible declares) (ha : r.Occurs declares a)
    (hListed : r.listedMethod? a key = some named) (hSees : r.hierarchy.SeesMethod c a key) :
    r.back.hierarchy.SeesMethod (r.mappings.className c) (r.mappings.className a)
      ⟨named, r.mappings.mapDescriptor key.descriptor⟩ := by
  rcases hSees with rfl | hVisible
  · exact .inl rfl
  · refine .inr (Bool.eq_false_iff.2 fun hBack => ?_)
    obtain ⟨k, hPrivate, hKey⟩ := (hInv.isPrivateMethod_back ha).1 hBack
    -- the private method would fall together with the listed one
    have hSame : k = key := hInv.methods a _ _
      ⟨a, ClassHierarchy.mem_lineage_self, .inl (hInv.privateDeclared a k hPrivate)⟩
      (methodOf_of_listed hListed ClassHierarchy.mem_lineage_self)
      (by rw [hKey, hInv.methodKey_of_listed hListed])
    rw [hSame, hVisible] at hPrivate
    cases hPrivate

/-- The new name of a method that is no initializer is no initializer. -/
theorem startsWith_methodKey (hInv : r.Invertible declares)
    (hName : Text.startsWith key.name "<" = false) :
    Text.startsWith (r.toRemapper.methodKey c key).name "<" = false := by
  rcases r.method?_cases c hName with ⟨a, ha, named, hSees, hListed, -⟩ | ⟨-, hSame⟩
  · rw [hInv.methodKey_of_seen ha hSees hListed]
    exact (hInv.plain_of_listed hListed).2
  · show Text.startsWith ((r.method? c key).getD key.name) "<" = false
    rw [hSame]
    exact hName

/-- Every entry that the renamed class sees on the way back gives the old name. -/
theorem eq_of_listed_back (hInv : r.Invertible declares) (hc : r.Occurs declares c)
    (hOf : r.MethodOf declares c key) (ha : a ∈ r.hierarchy.lineage c)
    (hSees : r.back.hierarchy.SeesMethod (r.mappings.className c) (r.mappings.className a)
      (r.toRemapper.methodKey c key))
    (hBack : r.back.listedMethod? (r.mappings.className a) (r.toRemapper.methodKey c key) = some x) :
    x = key.name := by
  have hOccurs := occurs_of_mem_lineage hc ha
  obtain ⟨d, hListed, hDescriptor⟩ := (hInv.listedMethod?_back hOccurs).1 hBack
  have hSeen := hInv.seesMethod_of_back hc hOccurs hListed hDescriptor hSees
  have hKey : r.toRemapper.methodKey c ⟨x, d⟩ = r.toRemapper.methodKey c key := by
    rw [hInv.methodKey_of_seen ha hSeen hListed, hDescriptor]
  exact congrArg MemberKey.name (hInv.methods c _ _ (methodOf_of_listed hListed ha) hOf hKey)

/-- A declared method gets its old name back, or none if its name did not change. -/
theorem method?_back (hInv : r.Invertible declares) (hc : r.Occurs declares c)
    (hDeclares : declares c key) (hName : Text.startsWith key.name "<" = false) :
    r.back.method? (r.mappings.className c) (r.toRemapper.methodKey c key) =
      changed (r.toRemapper.methodKey c key).name (some key.name) := by
  have hOf : r.MethodOf declares c key :=
    ⟨c, ClassHierarchy.mem_lineage_self, .inl hDeclares⟩
  have hLineage := hInv.renamed.lineage hc
  rcases r.back.method?_cases (r.mappings.className c)
    (hInv.startsWith_methodKey hName) with ⟨b, hb, x, hSees, hListed, hMethod⟩ | ⟨hNone, hMethod⟩
  · rw [hLineage] at hb
    obtain ⟨a, ha, rfl⟩ := List.mem_map.1 hb
    rw [hMethod, hInv.eq_of_listed_back hc hOf ha hSees hListed]
  · -- there is an entry on the way back if there was one on the way there
    rcases r.method?_cases c hName with
      ⟨a, ha, named, hSees, hListed, -⟩ | ⟨-, hSame⟩
    · have hOccurs := occurs_of_mem_lineage hc ha
      have hKey := hInv.methodKey_of_seen ha hSees hListed
      have hBack := hNone (r.mappings.className a)
        (by rw [hLineage]; exact List.mem_map_of_mem ha)
        (by rw [hKey]; exact hInv.seesMethod_back hOccurs hListed hSees)
      rw [hKey, (hInv.listedMethod?_back hOccurs).2 ⟨key.descriptor, hListed, rfl⟩] at hBack
      cases hBack
    · have hKey : (r.toRemapper.methodKey c key).name = key.name := by
        show (r.method? c key).getD key.name = key.name
        rw [hSame, Option.getD_none]
      rw [hMethod, hKey, changed_some, if_pos rfl]

-- ---------------------------------------------------------------------------
-- Fields
-- ---------------------------------------------------------------------------

/-- A class renames the fields that it lists as it lists them. -/
theorem fieldKey_of_listed (hListed : r.listedField? a key = some named) :
    r.toRemapper.fieldKey a key = ⟨named, r.mappings.mapDescriptor key.descriptor⟩ := by
  rw [Remapper.fieldKey, descriptor_toRemapper]
  show MemberKey.mk ((r.field? a key).getD key.name) _ = _
  rw [field?_of_listed hListed, getD_changed_some]

theorem fieldOf_of_listed (hListed : r.listedField? a key = some named) : r.FieldOf a key :=
  ⟨a, ClassHierarchy.mem_lineage_self, .inr (Option.isSome_iff_exists.2 ⟨named, hListed⟩)⟩

/-- A renamed class lists the fields under their new names, and gives them their old ones. -/
theorem listedField?_back (hInv : r.Invertible declares) (ha : r.Occurs declares a) :
    r.back.listedField? (r.mappings.className a) key = some x ↔
      ∃ d, r.listedField? a ⟨x, d⟩ = some key.name ∧
        r.mappings.mapDescriptor d = key.descriptor := by
  have hClasses := hInv.class?_back ha
  cases hClass : r.mappings.class? a with
  | none =>
    rw [hClass] at hClasses
    simp [listedField?, hClasses, hClass]
  | some m =>
    rw [hClass, Option.map_some] at hClasses
    have hDescribed : ∀ n, m.fields.get? ⟨n, none⟩ = none := fun n =>
      Option.eq_none_iff_forall_ne_some.2 fun f hf => hInv.described _
        (OrderedMap.get?_eq_some.1 hClass) _ (OrderedMap.get?_eq_some.1 hf) rfl
    have hListed : ∀ {n d f}, m.fields.get? ⟨n, some d⟩ = some f →
        r.listedField? a ⟨n, d⟩ = some f.named := by
      intro n d f hGet
      rw [listedField?_of_class? hClass (hDescribed n), hGet, Option.map_some]
    have hDistinct : ∀ k₁ f₁ k₂ f₂, m.fields.get? k₁ = some f₁ → m.fields.get? k₂ = some f₂ →
        FieldKey.mk f₁.named (k₁.descriptor.map r.mappings.mapDescriptor) =
          ⟨f₂.named, k₂.descriptor.map r.mappings.mapDescriptor⟩ → k₁ = k₂ := by
      rintro ⟨n₁, d₁⟩ f₁ ⟨n₂, d₂⟩ f₂ h₁ h₂ hEq
      cases d₁ with
      | none => rw [hDescribed] at h₁; cases h₁
      | some d₁ =>
        cases d₂ with
        | none => rw [hDescribed] at h₂; cases h₂
        | some d₂ =>
          obtain ⟨hName, hDescriptor⟩ := FieldKey.mk.inj hEq
          have hKeys := hInv.fields a _ _ (fieldOf_of_listed (hListed h₁))
            (fieldOf_of_listed (hListed h₂))
            (by rw [fieldKey_of_listed (hListed h₁), fieldKey_of_listed (hListed h₂), hName,
              Option.some.inj hDescriptor])
          obtain ⟨hNames, hDescriptors⟩ := MemberKey.mk.inj hKeys
          rw [hNames, hDescriptors]
    have hReversed := fun k b => OrderedMap.get?_ofList_map hDistinct (k := k) (b := b)
      (g := fun k f => FieldMapping.mk k.name f.javadoc)
    have hNone : (r.mappings.reversed a m).fields.get? ⟨key.name, none⟩ = none := by
      rw [MappingSet.fields_reversed, Option.eq_none_iff_forall_ne_some]
      intro f hf
      obtain ⟨⟨n, d⟩, g, hk, hKey, -⟩ := (hReversed _ _).1 hf
      cases d with
      | none => rw [hDescribed] at hk; cases hk
      | some d => cases (FieldKey.mk.inj hKey).2
    rw [listedField?_of_class? hClasses hNone, MappingSet.fields_reversed, Option.map_eq_some_iff]
    constructor
    · rintro ⟨back, hGet, rfl⟩
      obtain ⟨⟨n, d⟩, f, hk, hKey, rfl⟩ := (hReversed _ _).1 hGet
      obtain ⟨hName, hDescriptor⟩ := FieldKey.mk.inj hKey
      cases d with
      | none => cases hDescriptor
      | some d => exact ⟨d, hName ▸ hListed hk, Option.some.inj hDescriptor⟩
    · rintro ⟨d, hGet, hDescriptor⟩
      rw [listedField?_of_class? hClass (hDescribed x)] at hGet
      obtain ⟨f, hk, hName⟩ := Option.map_eq_some_iff.1 hGet
      exact ⟨_, (hReversed _ _).2 ⟨_, f, hk,
        congrArg₂ FieldKey.mk hName (congrArg some hDescriptor), rfl⟩, rfl⟩

/-- A declared field gets its old name back, or none if its name did not change. -/
theorem field?_back (hInv : r.Invertible declares) (hc : r.Occurs declares c)
    (hDeclares : r.hierarchy.declaresField c key = true) :
    r.back.field? (r.mappings.className c) (r.toRemapper.fieldKey c key) =
      changed (r.toRemapper.fieldKey c key).name (some key.name) := by
  have hBack : r.back.hierarchy.declaresField (r.mappings.className c)
      (r.toRemapper.fieldKey c key) = true :=
    (hInv.declaresField_back hc).2 ⟨key, hDeclares, rfl⟩
  have hOf : r.FieldOf c key := ⟨c, ClassHierarchy.mem_lineage_self, .inl hDeclares⟩
  rw [field?_of_declares hBack]
  cases hListed : r.listedField? c key with
  | some named =>
    rw [fieldKey_of_listed hListed, (hInv.listedField?_back hc).2 ⟨_, hListed, rfl⟩]
  | none =>
    have hName : (r.toRemapper.fieldKey c key).name = key.name := by
      show (r.field? c key).getD key.name = key.name
      rw [field?_of_declares hDeclares, hListed, changed_none, Option.getD_none]
    -- no other field of the class goes under the same name and descriptor
    have hNone : r.back.listedField? (r.mappings.className c) (r.toRemapper.fieldKey c key) =
        none := by
      refine Option.eq_none_iff_forall_ne_some.2 fun x hx => ?_
      obtain ⟨d, hOther, hDescriptor⟩ := (hInv.listedField?_back hc).1 hx
      have hSame := hInv.fields c _ _ (fieldOf_of_listed hOther) hOf
        (by rw [fieldKey_of_listed hOther, hDescriptor])
      rw [hSame, hListed] at hOther
      cases hOther
    rw [hNone, hName, changed_none, changed_some, if_pos rfl]

end Invertible

/-- **Renaming there and back.** If a table can be undone on a hierarchy, the reversed table renames
the classes of the renamed hierarchy, their descriptors and their declared members back. -/
theorem restores_of_invertible {declares : String → MemberKey → Prop}
    (hInv : r.Invertible declares) : r.Restores declares := by
  have hDescriptor : ∀ d, r.Mentions declares d →
      r.back.toRemapper.descriptor (r.toRemapper.descriptor d) = d := by
    intro d hd
    rw [descriptor_toRemapper, descriptor_toRemapper]
    exact hInv.mapDescriptor_back hd
  constructor
  · intro c node hKnown
    rw [className_toRemapper, className_toRemapper]
    exact hInv.inverse c (.known hKnown)
  · intro c node key hKnown hDeclares hName
    rw [className_toRemapper, hInv.method?_back (.known hKnown) hDeclares hName, changed_some]
    simp only [eq_comm]
  · exact fun c node key _ hDeclares => hDescriptor key.descriptor (.method hDeclares)
  · intro c node key hKnown hDeclares
    rw [className_toRemapper, hInv.field?_back (.known hKnown) hDeclares, changed_some]
    simp only [eq_comm]
  · exact fun c node key _ hDeclares => hDescriptor key.descriptor (.field hDeclares)

/-- The classes declare the methods of a list. -/
def DeclaredIn (methods : List (String × MemberKey)) (c : String) (key : MemberKey) : Prop :=
  (c, key) ∈ methods

/-- A class `b` that inherits a method from `a` and has a private one; the field of `a` is of the
type `a`. -/
def paired : MappingRemapper :=
  ⟨((((((∅ : MappingSet).addClass "a" "x/A").addField "a" "f" (some "La;") "self").addMethod
      "a" "m" "()V" "run").addClass "b" "x/B").addMethod "b" "p" "()V" "hide"),
    ⟨OrderedMap.ofList [("a", ⟨none, [], [], [], [⟨"f", "La;"⟩]⟩),
      ("b", ⟨some "a", [], [⟨"p", "()V"⟩], [], []⟩)]⟩⟩

/-- The methods that the classes of `paired` declare. -/
def pairedMethods : List (String × MemberKey) :=
  [("a", ⟨"m", "()V"⟩), ("b", ⟨"m", "()V"⟩), ("b", ⟨"p", "()V"⟩)]

theorem listedMethod?_paired {c named : String} {k : MemberKey}
    (hListed : paired.listedMethod? c k = some named) :
    named = if k.name = "m" then "run" else "hide" :=
  of_listedMethod? (P := fun _ k named => named = if k.name = "m" then "run" else "hide")
    (by decide) hListed

theorem methodOf_paired {owner : String} {k : MemberKey}
    (hOf : paired.MethodOf (DeclaredIn pairedMethods) owner k) :
    k = ⟨"m", "()V"⟩ ∨ k = ⟨"p", "()V"⟩ := by
  have hMethods : ∀ e ∈ pairedMethods, e.2 = ⟨"m", "()V"⟩ ∨ e.2 = ⟨"p", "()V"⟩ := by decide
  obtain ⟨a, -, hKey⟩ := hOf.exists_entry (P := fun _ k => k = ⟨"m", "()V"⟩ ∨ k = ⟨"p", "()V"⟩)
    (fun c k hMem => hMethods (c, k) hMem) (by decide)
  exact hKey

/-- A method goes over to its entry or stays. -/
theorem name_methodKey_paired (owner : String) {k : MemberKey}
    (hName : Text.startsWith k.name "<" = false) :
    (paired.toRemapper.methodKey owner k).name = (if k.name = "m" then "run" else "hide") ∨
      (paired.toRemapper.methodKey owner k).name = k.name := by
  show (paired.method? owner k).getD k.name = _ ∨ (paired.method? owner k).getD k.name = _
  rcases paired.method?_cases owner hName with
    ⟨a, -, named, -, hListed, hMethod⟩ | ⟨-, hMethod⟩
  · rw [hMethod, getD_changed_some]
    exact .inl (listedMethod?_paired hListed)
  · rw [hMethod]
    exact .inr rfl

theorem invertible_paired : paired.Invertible (DeclaredIn pairedMethods) where
  described := by decide
  plain := by decide
  closed := by decide
  sources := by decide
  inverse x hx := by
    have hNames : x = "a" ∨ x = "b" := by
      refine hx.of_entries (S := fun x => x = "a" ∨ x = "b") (by decide) (by decide) ?_
      intro d hd
      have hMethods : ∀ e ∈ pairedMethods, e.2.descriptor = "()V" := by decide
      have hDescriptor : d = "()V" ∨ d = "La;" :=
        hd.of_entries (P := fun d => d = "()V" ∨ d = "La;")
          (fun c k hMem => .inl (hMethods (c, k) hMem)) (by decide) (by decide) (by decide)
      rcases hDescriptor with rfl | rfl
      · rw [Descriptor.classNames_of_not_mem (by decide)]
        exact fun _ hMem => absurd hMem List.not_mem_nil
      · decide
    rcases hNames with rfl | rfl <;> decide
  inherited := by
    intro _ key a _ b _ _ _ x y hx hy
    rw [listedMethod?_paired hx, listedMethod?_paired hy]
  agree := by
    intro _ key _ a _ b _ _ _ x y hx hy
    rw [listedMethod?_paired hx, listedMethod?_paired hy]
  privateDeclared c key hPrivate :=
    ClassHierarchy.of_isPrivateMethod (P := fun c k => (c, k) ∈ pairedMethods) (by decide) hPrivate
  methods := by
    intro owner k₁ k₂ h₁ h₂ hEq
    have hNames := congrArg MemberKey.name hEq
    have hDiffer : (paired.toRemapper.methodKey owner ⟨"m", "()V"⟩).name ≠
        (paired.toRemapper.methodKey owner ⟨"p", "()V"⟩).name := by
      rcases name_methodKey_paired owner (k := ⟨"m", "()V"⟩) (by decide) with hm | hm <;>
        rcases name_methodKey_paired owner (k := ⟨"p", "()V"⟩) (by decide) with hp | hp <;>
        · rw [hm, hp]
          decide
    rcases methodOf_paired h₁ with rfl | rfl <;> rcases methodOf_paired h₂ with rfl | rfl
    · rfl
    · exact absurd hNames hDiffer
    · exact absurd hNames.symm hDiffer
    · rfl
  fields := by
    intro owner k₁ k₂ h₁ h₂ _
    have hKey : ∀ {k}, paired.FieldOf owner k → k = ⟨"f", "La;"⟩ := fun hOf =>
      hOf.of_entries (P := (· = ⟨"f", "La;"⟩)) (by decide) (by decide)
    rw [hKey h₁, hKey h₂]

theorem restores_paired :
    paired.back.method? "x/B" ⟨"run", "()V"⟩ = some "m" ∧
      paired.back.field? "x/A" ⟨"self", "Lx/A;"⟩ = some "f" ∧
      paired.back.toRemapper.descriptor "Lx/A;" = "La;" := by
  have hRestores := restores_of_invertible invertible_paired
  have hLineage : paired.hierarchy.lineage "b" = ["b", "a"] := by
    have hb : (paired.hierarchy.node? "b").map ClassNode.parents = some ["a"] := rfl
    have ha : (paired.hierarchy.node? "a").map ClassNode.parents = some [] := rfl
    simp [ClassHierarchy.lineage, ClassHierarchy.walk_new, ClassHierarchy.walk_nil, ha, hb]
  have hRun : paired.toRemapper.methodKey "b" ⟨"m", "()V"⟩ = ⟨"run", "()V"⟩ := by
    have hListed : paired.listedMethod? "a" ⟨"m", "()V"⟩ = some "run" := by decide
    rw [invertible_paired.methodKey_of_seen (by rw [hLineage]; decide) (.inr (by decide)) hListed]
    decide
  have hSelf : paired.toRemapper.fieldKey "a" ⟨"f", "La;"⟩ = ⟨"self", "Lx/A;"⟩ := by
    have hListed : paired.listedField? "a" ⟨"f", "La;"⟩ = some "self" := by decide
    rw [Invertible.fieldKey_of_listed hListed]
    decide
  have hA : paired.toRemapper.className "a" = "x/A" := by decide
  have hB : paired.toRemapper.className "b" = "x/B" := by decide
  have hMethod := hRestores.method "b" _ ⟨"m", "()V"⟩ rfl
    (by show _ ∈ pairedMethods; decide) (by decide)
  have hField := hRestores.field "a" _ ⟨"f", "La;"⟩ rfl (by decide)
  have hDescriptor := hRestores.fieldDescriptor "a" _ ⟨"f", "La;"⟩ rfl (by decide)
  rw [hB, hRun, if_neg (by decide)] at hMethod
  rw [hA, hSelf, if_neg (by decide)] at hField
  rw [hSelf] at hDescriptor
  exact ⟨hMethod, hField, hDescriptor⟩

-- ---------------------------------------------------------------------------
-- Tables that cannot be undone
-- ---------------------------------------------------------------------------

/-- A method that is private in `c` goes over to the name `x`, and the method above it that it hides
to `n`, the name of another method of `c`, which no entry is about. -/
def hidden : MappingRemapper :=
  ⟨((∅ : MappingSet).addMethod "a" "m" "()V" "n").addMethod "c" "m" "()V" "x",
    ⟨OrderedMap.ofList [("a", ⟨none, [], [], [], []⟩),
      ("c", ⟨some "a", [], [⟨"m", "()V"⟩], [], []⟩)]⟩⟩

/-- The methods that the classes of `hidden` declare. -/
def hiddenMethods : List (String × MemberKey) :=
  [("a", ⟨"m", "()V"⟩), ("c", ⟨"m", "()V"⟩), ("c", ⟨"n", "()V"⟩)]

theorem method?_hidden (owner : String) : hidden.method? owner ⟨"n", "()V"⟩ = none :=
  method?_of_unlisted (by decide)

/-- Only `c` itself is below `c`. -/
theorem eq_of_mem_lineage_hidden {owner : String} (hMem : "c" ∈ hidden.hierarchy.lineage owner) :
    owner = "c" := by
  by_contra hOther
  have hParents : ∀ e ∈ hidden.hierarchy.classes.entries, ∀ p ∈ e.2.parents, p ≠ "c" := by decide
  exact ClassHierarchy.forall_mem_lineage (S := (· ≠ "c"))
    (fun a node _ hNode => hParents (a, node) (OrderedMap.get?_eq_some.1 hNode)) hOther _ hMem rfl

theorem methodOf_hidden {owner : String} {k : MemberKey}
    (hOf : hidden.MethodOf (DeclaredIn hiddenMethods) owner k) :
    k = ⟨"m", "()V"⟩ ∨ k = ⟨"n", "()V"⟩ ∧ owner = "c" := by
  have hMethods : ∀ e ∈ hiddenMethods,
      e.2 = ⟨"m", "()V"⟩ ∨ e.2 = ⟨"n", "()V"⟩ ∧ e.1 = "c" := by decide
  obtain ⟨a, ha, hm | ⟨hn, rfl⟩⟩ := hOf.exists_entry
    (P := fun a k => k = ⟨"m", "()V"⟩ ∨ k = ⟨"n", "()V"⟩ ∧ a = "c")
    (fun c k hMem => hMethods (c, k) hMem) (by decide)
  · exact .inl hm
  · exact .inr ⟨hn, eq_of_mem_lineage_hidden ha⟩

theorem reversible_hidden : hidden.Reversible (DeclaredIn hiddenMethods) where
  described := by decide
  plain := by decide
  inverse x _ := by
    rw [MappingSet.className_of_identity (by decide), MappingSet.className_of_identity (by decide)]
  inherited := by
    intro _ key a _ b _ ha hb x y hx hy
    have hName : ∀ {c named}, hidden.listedMethod? c key = some named →
        hidden.hierarchy.isPrivateMethod c key = false → named = "n" := fun hListed =>
      of_listedMethod? (P := fun c k named =>
        hidden.hierarchy.isPrivateMethod c k = false → named = "n") (by decide) hListed
    rw [hName hx ha, hName hy hb]
  privateDeclared c key hPrivate :=
    ClassHierarchy.of_isPrivateMethod (P := fun c k => (c, k) ∈ hiddenMethods) (by decide) hPrivate
  methods := by
    intro owner k₁ k₂ h₁ h₂ hEq
    have hDiffer : hidden.toRemapper.methodKey "c" ⟨"m", "()V"⟩ ≠
        hidden.toRemapper.methodKey "c" ⟨"n", "()V"⟩ := by
      intro hSame
      have hListed : hidden.listedMethod? "c" ⟨"m", "()V"⟩ = some "x" := by decide
      have hm : hidden.method? "c" ⟨"m", "()V"⟩ = some "x" :=
        method?_of_listed (by decide) hListed
      have hNames : (hidden.method? "c" ⟨"m", "()V"⟩).getD "m" =
          (hidden.method? "c" ⟨"n", "()V"⟩).getD "n" := congrArg MemberKey.name hSame
      rw [hm, method?_hidden] at hNames
      revert hNames
      decide
    rcases methodOf_hidden h₁ with rfl | ⟨rfl, rfl⟩ <;>
      rcases methodOf_hidden h₂ with rfl | ⟨rfl, hc⟩
    · rfl
    · rw [hc] at hEq
      exact absurd hEq hDiffer
    · exact absurd hEq.symm hDiffer
    · rfl
  fields := by
    intro owner k₁ k₂ h₁
    exact (h₁.of_entries (P := fun _ => False) (by decide) (by decide)).elim

/-- On the way back, nothing hides the method above from `n`. -/
theorem method?_back_hidden : hidden.back.method? "c" ⟨"n", "()V"⟩ = some "m" := by
  have hc : (hidden.back.hierarchy.node? "c").map ClassNode.parents = some ["a"] := rfl
  have ha : (hidden.back.hierarchy.node? "a").map ClassNode.parents = some [] := rfl
  have hLineage : hidden.back.hierarchy.lineage "c" = ["c", "a"] := by
    simp [ClassHierarchy.lineage, ClassHierarchy.walk_new, ClassHierarchy.walk_nil, hc, ha]
  rw [method?, hLineage]
  decide

theorem not_restores_hidden : ¬ hidden.Restores (DeclaredIn hiddenMethods) := by
  intro hRestores
  have hMethod := hRestores.method "c" _ ⟨"n", "()V"⟩ rfl
    (by show _ ∈ hiddenMethods; decide) (by decide)
  have hKey : hidden.toRemapper.methodKey "c" ⟨"n", "()V"⟩ = ⟨"n", "()V"⟩ := by
    rw [Remapper.methodKey]
    show MemberKey.mk ((hidden.method? "c" ⟨"n", "()V"⟩).getD "n") _ = _
    rw [method?_hidden]
    decide
  rw [hKey, if_pos rfl] at hMethod
  have hClass : hidden.toRemapper.className "c" = "c" := by decide
  rw [hClass, method?_back_hidden] at hMethod
  cases hMethod

/-- A table that lists an initializer. -/
def initializing : MappingRemapper :=
  ⟨(∅ : MappingSet).addMethod "c" "<init>" "()V" "tick",
    ⟨OrderedMap.ofList [("c", ⟨none, [], [], [], []⟩)]⟩⟩

/-- The methods that the class of `initializing` declares. -/
def initializingMethods : List (String × MemberKey) :=
  [("c", ⟨"<init>", "()V"⟩), ("c", ⟨"tick", "()V"⟩)]

theorem method?_initializing (owner : String) :
    initializing.method? owner ⟨"tick", "()V"⟩ = none :=
  method?_of_unlisted (by decide)

/-- Renaming keeps the methods of the table. -/
theorem methodOf_initializing {owner : String} {k : MemberKey}
    (hOf : initializing.MethodOf (DeclaredIn initializingMethods) owner k) :
    initializing.toRemapper.methodKey owner k = k := by
  have hMethods : ∀ e ∈ initializingMethods,
      e.2 = ⟨"<init>", "()V"⟩ ∨ e.2 = ⟨"tick", "()V"⟩ := by decide
  obtain ⟨a, -, hKey⟩ := hOf.exists_entry
    (P := fun _ k => k = ⟨"<init>", "()V"⟩ ∨ k = ⟨"tick", "()V"⟩)
    (fun c k hMem => hMethods (c, k) hMem) (by decide)
  have hNone : initializing.method? owner k = none := by
    rcases hKey with rfl | rfl
    · exact method?_of_initializer (by decide)
    · exact method?_initializing owner
  have hDescriptor : initializing.toRemapper.descriptor "()V" = "()V" := by decide
  rw [Remapper.methodKey]
  show MemberKey.mk ((initializing.method? owner k).getD k.name) _ = k
  rw [hNone]
  rcases hKey with rfl | rfl <;> exact congrArg (MemberKey.mk _) hDescriptor

theorem reversible_initializing : initializing.Reversible (DeclaredIn initializingMethods) where
  described := by decide
  plain := by decide
  inverse x _ := by
    rw [MappingSet.className_of_identity (by decide), MappingSet.className_of_identity (by decide)]
  inherited := by
    intro _ key a _ b _ _ _ x y hx hy
    have hName : ∀ {c named}, initializing.listedMethod? c key = some named → named = "tick" :=
      fun hListed => of_listedMethod? (P := fun _ _ named => named = "tick") (by decide) hListed
    rw [hName hx, hName hy]
  privateDeclared c key hPrivate :=
    (ClassHierarchy.of_isPrivateMethod (P := fun _ _ => False) (by decide) hPrivate).elim
  methods := by
    intro owner k₁ k₂ h₁ h₂ hEq
    rw [methodOf_initializing h₁, methodOf_initializing h₂] at hEq
    exact hEq
  fields := by
    intro owner k₁ k₂ h₁
    exact (h₁.of_entries (P := fun _ => False) (by decide) (by decide)).elim

theorem not_restores_initializing : ¬ initializing.Restores (DeclaredIn initializingMethods) := by
  intro hRestores
  have hDeclares : DeclaredIn initializingMethods "c" ⟨"tick", "()V"⟩ := by
    show _ ∈ initializingMethods
    decide
  have hMethod := hRestores.method "c" _ ⟨"tick", "()V"⟩ rfl hDeclares (by decide)
  rw [methodOf_initializing ⟨"c", ClassHierarchy.mem_lineage_self, .inl hDeclares⟩,
    if_pos rfl] at hMethod
  have hClass : initializing.toRemapper.className "c" = "c" := by decide
  have hListed : initializing.back.listedMethod? "c" ⟨"tick", "()V"⟩ = some "<init>" := by decide
  have hBack : initializing.back.method? "c" ⟨"tick", "()V"⟩ = some "<init>" :=
    method?_of_listed (by decide) hListed
  rw [hClass, hBack] at hMethod
  cases hMethod

/-- A table that gives a class a name that ends early in a descriptor. -/
def breaking : MappingRemapper :=
  ⟨(∅ : MappingSet).addClass "a" "x;y",
    ⟨OrderedMap.ofList [("b", ⟨none, [], [], [], [⟨"f", "La;"⟩]⟩)]⟩⟩

theorem reversible_breaking : breaking.Reversible (DeclaredIn []) where
  described := by decide
  plain := by decide
  inverse x hx := by
    have hNames : x = "a" ∨ x = "b" := by
      refine hx.of_entries (S := fun x => x = "a" ∨ x = "b") (by decide) (by decide) ?_
      intro d hd
      have hDescriptor : d = "La;" := hd.of_entries (P := (· = "La;"))
        (fun _ _ hMem => absurd hMem List.not_mem_nil) (by decide) (by decide) (by decide)
      rw [hDescriptor]
      decide
    rcases hNames with rfl | rfl <;> decide
  inherited := by
    intro _ key a _ b _ _ _ x y hx
    exact (of_listedMethod? (P := fun _ _ _ => False) (by decide) hx).elim
  privateDeclared c key hPrivate :=
    (ClassHierarchy.of_isPrivateMethod (P := fun _ _ => False) (by decide) hPrivate).elim
  methods := by
    intro owner k₁ k₂ h₁
    obtain ⟨_, -, hFalse⟩ := h₁.exists_entry (P := fun _ _ => False)
      (fun _ _ hMem => absurd hMem List.not_mem_nil) (by decide)
    exact hFalse.elim
  fields := by
    intro owner k₁ k₂ h₁ h₂ _
    have hKey : ∀ {k}, breaking.FieldOf owner k → k = ⟨"f", "La;"⟩ := fun hOf =>
      hOf.of_entries (P := (· = ⟨"f", "La;"⟩)) (by decide) (by decide)
    rw [hKey h₁, hKey h₂]

theorem not_restores_breaking : ¬ breaking.Restores (DeclaredIn []) := by
  intro hRestores
  have hBack := hRestores.fieldDescriptor "b" _ ⟨"f", "La;"⟩ rfl (by decide)
  have hBroken : breaking.back.toRemapper.descriptor
      (breaking.toRemapper.descriptor "La;") ≠ "La;" := by decide
  exact hBroken hBack

/-- A table may be reversible, and the way back nevertheless finds an entry for a method that another
one hid, the entry of an initializer, or no descriptor. -/
theorem reversible_not_restores :
    (hidden.Reversible (DeclaredIn hiddenMethods) ∧
      ¬ hidden.Restores (DeclaredIn hiddenMethods)) ∧
    (initializing.Reversible (DeclaredIn initializingMethods) ∧
      ¬ initializing.Restores (DeclaredIn initializingMethods)) ∧
    (breaking.Reversible (DeclaredIn []) ∧ ¬ breaking.Restores (DeclaredIn [])) :=
  ⟨⟨reversible_hidden, not_restores_hidden⟩,
    ⟨reversible_initializing, not_restores_initializing⟩,
    ⟨reversible_breaking, not_restores_breaking⟩⟩

end Jarsmith.MappingRemapper
