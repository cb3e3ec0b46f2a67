import Jarsmith.Proofs.ClassFile.Descriptor
import Jarsmith.Proofs.Mappings.Reverse
import Jarsmith.Proofs.Remap.Members

/-!
# What the way back looks at

The way back from a renaming: the reversed table, for the hierarchy of the renamed classes. On a
table that can be undone, the lineages, the private members and the entries that the way back finds
are those of the way there, under new names.

* `ClassHierarchy.rename` — the hierarchy of the renamed classes.
* `Reversible`, `Invertible` — the conditions on a table and a hierarchy.
* `Restores` — every class, descriptor and declared member gets its old name back.
* `Invertible.mapDescriptor_back`, `Invertible.renamed`, `Invertible.isPrivateMethod_back`,
  `Invertible.class?_back` — what the way back looks at.
-/

namespace Jarsmith

-- ---------------------------------------------------------------------------
-- Renamed hierarchies
-- ---------------------------------------------------------------------------

/-- The new name and the new descriptor of a method of `owner`. -/
def Remapper.methodKey (r : Remapper) (owner : String) (key : MemberKey) : MemberKey :=
  ⟨(r.method? owner key).getD key.name, r.descriptor key.descriptor⟩

/-- The new name and the new descriptor of a field of `owner`. -/
def Remapper.fieldKey (r : Remapper) (owner : String) (key : MemberKey) : MemberKey :=
  ⟨(r.field? owner key).getD key.name, r.descriptor key.descriptor⟩

/-- What a hierarchy knows about the renamed form of the class `owner`. -/
def ClassNode.rename (r : Remapper) (owner : String) (node : ClassNode) : ClassNode where
  superName := node.superName.map r.className
  interfaces := node.interfaces.map r.className
  privateMethods := node.privateMethods.map (r.methodKey owner)
  privateFields := node.privateFields.map (r.fieldKey owner)
  fields := node.fields.map (r.fieldKey owner)

/-- The hierarchy of the renamed classes. -/
def ClassHierarchy.rename (r : Remapper) (h : ClassHierarchy) : ClassHierarchy :=
  ⟨OrderedMap.ofList (h.classes.entries.map fun e => (r.className e.1, e.2.rename r e.1))⟩

theorem ClassNode.parents_rename (r : Remapper) (owner : String) (node : ClassNode) :
    (node.rename r owner).parents = node.parents.map r.className := by
  rw [parents, parents, List.map_append]
  cases node with
  | mk superName interfaces privateMethods privateFields fields => cases superName <;> rfl

namespace MappingRemapper

/-- The remapper of the way back: the reversed table for the hierarchy of the renamed classes. -/
def back (r : MappingRemapper) : MappingRemapper :=
  ⟨r.mappings.reverse, r.hierarchy.rename r.toRemapper⟩

variable {r : MappingRemapper}

theorem className_toRemapper : r.toRemapper.className = r.mappings.className := by
  funext name
  show (changed name (r.mappings.mapClass name)).getD name = r.mappings.className name
  rw [MappingSet.className]
  cases r.mappings.mapClass name with
  | none => rfl
  | some named => exact getD_changed_some name named

theorem descriptor_toRemapper : r.toRemapper.descriptor = r.mappings.mapDescriptor := by
  funext text
  rw [Remapper.descriptor, className_toRemapper, MappingSet.mapDescriptor]

-- ---------------------------------------------------------------------------
-- The conditions
-- ---------------------------------------------------------------------------

/-- The descriptors of the listed and the declared members. A hierarchy does not know every method;
`declares` tells which methods a class declares. -/
inductive Mentions (r : MappingRemapper) (declares : String → MemberKey → Prop) : String → Prop where
  | method {c : String} {key : MemberKey} : declares c key → Mentions r declares key.descriptor
  | field {c : String} {key : MemberKey} : r.hierarchy.declaresField c key = true →
      Mentions r declares key.descriptor
  | listedMethod {c : String} {key : MemberKey} : (r.listedMethod? c key).isSome →
      Mentions r declares key.descriptor
  | listedField {c : String} {key : MemberKey} : (r.listedField? c key).isSome →
      Mentions r declares key.descriptor

/-- The names of the classes that a table or a hierarchy has to do with. -/
inductive Occurs (r : MappingRemapper) (declares : String → MemberKey → Prop) : String → Prop where
  | known {c : String} {node : ClassNode} : r.hierarchy.node? c = some node → Occurs r declares c
  | parent {c p : String} {node : ClassNode} : r.hierarchy.node? c = some node →
      p ∈ node.parents → Occurs r declares p
  | listed {c : String} {m : ClassMapping} : r.mappings.class? c = some m → Occurs r declares c
  | mentioned {d x : String} : r.Mentions declares d → x ∈ Descriptor.classNames d →
      Occurs r declares x

/-- A method that a class in the lineage of `owner` declares or lists. -/
def MethodOf (r : MappingRemapper) (declares : String → MemberKey → Prop) (owner : String)
    (key : MemberKey) : Prop :=
  ∃ a ∈ r.hierarchy.lineage owner, declares a key ∨ (r.listedMethod? a key).isSome

/-- A field that a class in the lineage of `owner` declares or lists. -/
def FieldOf (r : MappingRemapper) (owner : String) (key : MemberKey) : Prop :=
  ∃ a ∈ r.hierarchy.lineage owner,
    r.hierarchy.declaresField a key = true ∨ (r.listedField? a key).isSome

-- ---------------------------------------------------------------------------
-- What the entries say
-- ---------------------------------------------------------------------------

section Entries

variable {declares : String → MemberKey → Prop} {owner : String} {key : MemberKey}

/-- A method of a class is declared or stands in the table. -/
theorem MethodOf.exists_entry {P : String → MemberKey → Prop} (h : r.MethodOf declares owner key)
    (hDeclares : ∀ c k, declares c k → P c k)
    (hListed : ∀ e ∈ r.mappings.classes.entries, ∀ f ∈ e.2.methods.entries,
      P e.1 ⟨f.1.name, f.1.descriptor⟩) :
    ∃ a ∈ r.hierarchy.lineage owner, P a key := by
  obtain ⟨a, ha, hDeclared | hSome⟩ := h
  · exact ⟨a, ha, hDeclares a key hDeclared⟩
  · obtain ⟨named, hNamed⟩ := Option.isSome_iff_exists.1 hSome
    exact ⟨a, ha, of_listedMethod? (P := fun c k _ => P c k) hListed hNamed⟩

/-- A field of a class is declared or stands in the table. -/
theorem FieldOf.of_entries {P : MemberKey → Prop} (h : r.FieldOf owner key)
    (hDeclared : ∀ e ∈ r.hierarchy.classes.entries, ∀ k ∈ e.2.fields, P k)
    (hListed : ∀ e ∈ r.mappings.classes.entries, ∀ f ∈ e.2.fields.entries,
      f.1.descriptor ≠ none ∧ ∀ d, f.1.descriptor = some d → P ⟨f.1.name, d⟩) : P key := by
  obtain ⟨a, -, hDeclares | hSome⟩ := h
  · obtain ⟨node, hNode, hMem⟩ := ClassHierarchy.declaresField_eq_true.1 hDeclares
    exact hDeclared _ hNode key hMem
  · obtain ⟨named, hNamed⟩ := Option.isSome_iff_exists.1 hSome
    obtain ⟨m, k, f, hClass, hField, hName, hDescriptor⟩ := exists_of_listedField? hNamed
    obtain ⟨hSome, hHolds⟩ := hListed _ hClass _ hField
    have hKey := hHolds key.descriptor (hDescriptor.resolve_right hSome)
    rw [hName] at hKey
    exact hKey

theorem Mentions.of_entries {P : String → Prop} {d : String} (h : r.Mentions declares d)
    (hDeclares : ∀ c k, declares c k → P k.descriptor)
    (hDeclared : ∀ e ∈ r.hierarchy.classes.entries, ∀ k ∈ e.2.fields, P k.descriptor)
    (hMethods : ∀ e ∈ r.mappings.classes.entries, ∀ f ∈ e.2.methods.entries, P f.1.descriptor)
    (hFields : ∀ e ∈ r.mappings.classes.entries, ∀ f ∈ e.2.fields.entries,
      f.1.descriptor ≠ none ∧ ∀ d, f.1.descriptor = some d → P d) : P d := by
  cases h with
  | method hMethod => exact hDeclares _ _ hMethod
  | field hField =>
    obtain ⟨node, hNode, hMem⟩ := ClassHierarchy.declaresField_eq_true.1 hField
    exact hDeclared _ hNode _ hMem
  | listedMethod hSome =>
    obtain ⟨named, hNamed⟩ := Option.isSome_iff_exists.1 hSome
    exact of_listedMethod? (P := fun _ k _ => P k.descriptor) hMethods hNamed
  | listedField hSome =>
    obtain ⟨named, hNamed⟩ := Option.isSome_iff_exists.1 hSome
    obtain ⟨m, k, f, hClass, hField, -, hDescriptor⟩ := exists_of_listedField? hNamed
    obtain ⟨hSome, hHolds⟩ := hFields _ hClass _ hField
    exact hHolds _ (hDescriptor.resolve_right hSome)

theorem Occurs.of_entries {S : String → Prop} {x : String} (h : r.Occurs declares x)
    (hKnown : ∀ e ∈ r.hierarchy.classes.entries, S e.1 ∧ ∀ p ∈ e.2.parents, S p)
    (hListed : ∀ e ∈ r.mappings.classes.entries, S e.1)
    (hMentioned : ∀ d, r.Mentions declares d → ∀ x ∈ Descriptor.classNames d, S x) : S x := by
  cases h with
  | known hNode => exact (hKnown _ (OrderedMap.get?_eq_some.1 hNode)).1
  | parent hNode hParent => exact (hKnown _ (OrderedMap.get?_eq_some.1 hNode)).2 _ hParent
  | listed hClass => exact hListed _ (OrderedMap.get?_eq_some.1 hClass)
  | mentioned hd hx => exact hMentioned _ hd _ hx

end Entries

/-- A table and a hierarchy on which classes, methods and fields do not fall together. -/
structure Reversible (r : MappingRemapper) (declares : String → MemberKey → Prop) : Prop where
  /-- Every field is listed with a descriptor. -/
  described : ∀ e ∈ r.mappings.classes.entries, ∀ f ∈ e.2.fields.entries, f.1.descriptor ≠ none
  /-- No new name is that of an initializer. -/
  plain : ∀ e ∈ r.mappings.classes.entries, Text.startsWith e.2.named "<" = false ∧
    (∀ f ∈ e.2.fields.entries, Text.startsWith f.2.named "<" = false) ∧
    ∀ f ∈ e.2.methods.entries, Text.startsWith f.2.named "<" = false
  /-- The reversed table undoes the renaming of classes. -/
  inverse : ∀ x, r.Occurs declares x →
    r.mappings.reverse.className (r.mappings.className x) = x
  /-- The entries of a lineage for a method that is not private give it one name. -/
  inherited : ∀ owner key, ∀ a ∈ r.hierarchy.lineage owner, ∀ b ∈ r.hierarchy.lineage owner,
    r.hierarchy.isPrivateMethod a key = false → r.hierarchy.isPrivateMethod b key = false →
    ∀ x y, r.listedMethod? a key = some x → r.listedMethod? b key = some y → x = y
  /-- The private methods are declared. -/
  privateDeclared : ∀ c key, r.hierarchy.isPrivateMethod c key = true → declares c key
  /-- No two methods fall together in a class. -/
  methods : ∀ owner k₁ k₂, r.MethodOf declares owner k₁ → r.MethodOf declares owner k₂ →
    r.toRemapper.methodKey owner k₁ = r.toRemapper.methodKey owner k₂ → k₁ = k₂
  /-- No two fields fall together in a class. -/
  fields : ∀ owner k₁ k₂, r.FieldOf owner k₁ → r.FieldOf owner k₂ →
    r.toRemapper.fieldKey owner k₁ = r.toRemapper.fieldKey owner k₂ → k₁ = k₂

/-- A table whose renaming of a hierarchy can be undone by the reversed table. -/
structure Invertible (r : MappingRemapper) (declares : String → MemberKey → Prop) : Prop
    extends r.Reversible declares where
  /-- No class gets a name that would end early in a descriptor. -/
  closed : ∀ e ∈ r.mappings.classes.entries, ';' ∉ e.2.named.toList
  /-- No initializer is listed. -/
  sources : ∀ e ∈ r.mappings.classes.entries, ∀ f ∈ e.2.methods.entries,
    Text.startsWith f.1.name "<" = false
  /-- The own entry of a class for a method agrees with those that it inherits, even if the method is
  private. -/
  agree : ∀ owner key, Text.startsWith key.name "<" = false → r.MethodsAgree owner key

/-- The reversed table gives the old names back: each class gets its own, and every declared member,
under the new names of its owner, its descriptor and itself, gets its own or none if its name did
not change. The names of initializers are fixed anyway. -/
structure Restores (r : MappingRemapper) (declares : String → MemberKey → Prop) : Prop where
  className : ∀ c node, r.hierarchy.node? c = some node →
    r.back.toRemapper.className (r.toRemapper.className c) = c
  method : ∀ c node key, r.hierarchy.node? c = some node → declares c key →
    Text.startsWith key.name "<" = false →
    r.back.method? (r.toRemapper.className c) (r.toRemapper.methodKey c key) =
      if (r.toRemapper.methodKey c key).name = key.name then none else some key.name
  methodDescriptor : ∀ c node key, r.hierarchy.node? c = some node → declares c key →
    r.back.toRemapper.descriptor (r.toRemapper.methodKey c key).descriptor = key.descriptor
  field : ∀ c node key, r.hierarchy.node? c = some node →
    r.hierarchy.declaresField c key = true →
    r.back.field? (r.toRemapper.className c) (r.toRemapper.fieldKey c key) =
      if (r.toRemapper.fieldKey c key).name = key.name then none else some key.name
  fieldDescriptor : ∀ c node key, r.hierarchy.node? c = some node →
    r.hierarchy.declaresField c key = true →
    r.back.toRemapper.descriptor (r.toRemapper.fieldKey c key).descriptor = key.descriptor

namespace Invertible

variable {declares : String → MemberKey → Prop} {a c x d : String} {key : MemberKey}

-- ---------------------------------------------------------------------------
-- Classes and descriptors
-- ---------------------------------------------------------------------------

theorem className_injective (hInv : r.Invertible declares) (ha : r.Occurs declares a)
    (hc : r.Occurs declares c) (hEq : r.mappings.className a = r.mappings.className c) : a = c := by
  rw [← hInv.inverse a ha, hEq, hInv.inverse c hc]

theorem mapDescriptor_back (hInv : r.Invertible declares) (hd : r.Mentions declares d) :
    r.mappings.reverse.mapDescriptor (r.mappings.mapDescriptor d) = d := by
  unfold MappingSet.mapDescriptor
  rw [Descriptor.rename_rename]
  · exact Descriptor.rename_of_fixed fun x hx => hInv.inverse x (.mentioned hd hx)
  · intro x hx
    refine MappingSet.not_mem_className (fun n c hClass => ?_)
      (Descriptor.not_mem_of_mem_classNames hx)
    exact hInv.closed (n, c) (OrderedMap.get?_eq_some.1 hClass)

/-- The classes of a lineage have to do with the table, if its first one does. -/
theorem occurs_of_mem_lineage (hc : r.Occurs declares c) (ha : a ∈ r.hierarchy.lineage c) :
    r.Occurs declares a :=
  ClassHierarchy.forall_mem_lineage (fun _ _ _ hNode _ hp => .parent hNode hp) hc a ha

-- ---------------------------------------------------------------------------
-- The renamed hierarchy
-- ---------------------------------------------------------------------------

theorem node?_back (hInv : r.Invertible declares) (ha : r.Occurs declares a) :
    r.back.hierarchy.node? (r.mappings.className a) =
      (r.hierarchy.node? a).map (ClassNode.rename r.toRemapper a) := by
  have hInjective : ∀ {i j : String}, r.Occurs declares i → r.Occurs declares j →
      r.toRemapper.className i = r.toRemapper.className j → i = j := by
    rw [className_toRemapper]
    exact hInv.className_injective
  rw [← className_toRemapper]
  refine OrderedMap.get?_ofList_map_of_unique (f := fun i _ => r.toRemapper.className i) ?_ ?_
  · exact fun i _ j _ hi hj => hInjective (.known hi) (.known hj)
  · exact fun i _ hi => ⟨hInjective (.known hi) ha, fun hEq => by rw [hEq]⟩

theorem renamed (hInv : r.Invertible declares) :
    ClassHierarchy.Renamed r.mappings.className (r.Occurs declares) r.hierarchy
      r.back.hierarchy where
  injective := hInv.className_injective
  closed _ _ _ hNode _ hp := .parent hNode hp
  parents {a} ha := by
    rw [hInv.node?_back ha, Option.map_map]
    congr 1
    funext node
    rw [← className_toRemapper]
    exact node.parents_rename r.toRemapper a

/-- A method of a renamed class is private if it is the renamed form of a private one. -/
theorem isPrivateMethod_back (hInv : r.Invertible declares) (ha : r.Occurs declares a) :
    r.back.hierarchy.isPrivateMethod (r.mappings.className a) key = true ↔
      ∃ k, r.hierarchy.isPrivateMethod a k = true ∧ r.toRemapper.methodKey a k = key := by
  unfold ClassHierarchy.isPrivateMethod
  rw [hInv.node?_back ha]
  cases r.hierarchy.node? a with
  | none => simp
  | some node => simp [ClassNode.rename]

/-- A field of a renamed class is declared if it is the renamed form of a declared one. -/
theorem declaresField_back (hInv : r.Invertible declares) (ha : r.Occurs declares a) :
    r.back.hierarchy.declaresField (r.mappings.className a) key = true ↔
      ∃ k, r.hierarchy.declaresField a k = true ∧ r.toRemapper.fieldKey a k = key := by
  unfold ClassHierarchy.declaresField
  rw [hInv.node?_back ha]
  cases r.hierarchy.node? a with
  | none => simp
  | some node => simp [ClassNode.rename]

-- ---------------------------------------------------------------------------
-- The reversed table
-- ---------------------------------------------------------------------------

/-- The entry of a renamed class is the reversed entry of the class. -/
theorem class?_back (hInv : r.Invertible declares) (ha : r.Occurs declares a) :
    r.back.mappings.class? (r.mappings.className a) =
      (r.mappings.class? a).map (r.mappings.reversed a) := by
  have hInjective : ∀ i m, r.mappings.class? i = some m → ∀ {j}, r.Occurs declares j →
      m.named = r.mappings.className j → i = j := by
    intro i m hClass j hj hEq
    rw [← MappingSet.className_of_class? hClass] at hEq
    exact hInv.className_injective (.listed hClass) hj hEq
  have hDistinct : ∀ i m j n, r.mappings.class? i = some m → r.mappings.class? j = some n →
      m.named = n.named → i = j := by
    intro i m j n hi hj hEq
    rw [← MappingSet.className_of_class? hj] at hEq
    exact hInjective i m hi (.listed hj) hEq
  have hNodup : (r.mappings.classes.entries.map fun e => e.2.named).Nodup :=
    OrderedMap.nodup_map_entries (f := fun _ m => ClassMapping.named m) hDistinct
  show r.mappings.reverse.classes.get? _ = _
  rw [MappingSet.classes_reverse hNodup]
  refine OrderedMap.get?_ofList_map_of_unique (f := fun _ m => ClassMapping.named m) hDistinct
    fun i m hi => ?_
  refine ⟨hInjective i m hi ha, ?_⟩
  rintro rfl
  exact (MappingSet.className_of_class? hi).symm

end Invertible

end MappingRemapper

end Jarsmith
