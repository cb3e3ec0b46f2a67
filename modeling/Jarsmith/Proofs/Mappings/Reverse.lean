import Jarsmith.Mappings.Basic
import Jarsmith.Proofs.ClassFile.Descriptor
import Jarsmith.Proofs.OrderedMap
import Jarsmith.Proofs.Text.Split
import Mathlib.Data.List.Nodup

/-!
# Class names and reversed tables

What a table says about a class that it lists or not, and what the table in the other direction
lists, if no two classes fall together.

* `mapClass_of_class?`, `not_mem_className` — the target name of a class.
* `classes_reverse` — the classes of a reversed table.
* `methods_reversed`, `fields_reversed` — the members of a reversed class.

On the way to the target names every key of a table changes: the classes, the members and the
descriptors of the members. A table in which no two keys fall together, and whose class names find
their way back, is the reverse of its reverse.

* `MappingSet.KeepsApart` — no two entries of the table have one target.
* `KeepsApart.reversed_reversed` — a single class, there and back.
* `MappingSet.reverse_reverse` — the whole table.
-/

namespace Jarsmith

namespace MappingSet

variable {m : MappingSet} {name : String} {c : ClassMapping}

-- ---------------------------------------------------------------------------
-- Class names
-- ---------------------------------------------------------------------------

theorem append_of_mem_outerNames {outer rest : String} (h : (outer, rest) ∈ outerNames name) :
    outer ++ rest = name := by
  rcases List.mem_cons.1 h with hSelf | hCut
  · cases hSelf
    exact String.append_empty
  · obtain ⟨⟨before, after⟩, hMem, hEq⟩ := List.mem_map.1 hCut
    cases hEq
    rw [← String.ofList_append, Text.append_of_mem_cutsBefore hMem, String.ofList_toList]

/-- A class that is listed gets the name of its entry. -/
theorem mapClass_of_class? (hClass : m.class? name = some c) : m.mapClass name = some c.named := by
  rw [mapClass, outerNames, List.findSome?_cons]
  dsimp only
  rw [hClass]
  exact congrArg some String.append_empty

theorem className_of_class? (hClass : m.class? name = some c) : m.className name = c.named := by
  rw [className, mapClass_of_class? hClass, Option.getD_some]

/-- A character that is in no target name is in the new name of a class only if it was in the old
one. -/
theorem not_mem_className {d : Char} (hTargets : ∀ n c, m.class? n = some c → d ∉ c.named.toList)
    (hName : d ∉ name.toList) : d ∉ (m.className name).toList := by
  rw [className]
  cases hMap : m.mapClass name with
  | none => exact hName
  | some new =>
    obtain ⟨⟨outer, rest⟩, hMem, hEntry⟩ := List.exists_of_findSome?_eq_some hMap
    obtain ⟨c, hClass, rfl⟩ := Option.map_eq_some_iff.1 hEntry
    rw [← append_of_mem_outerNames hMem, String.toList_append, List.mem_append, not_or] at hName
    rw [Option.getD_some, String.toList_append, List.mem_append, not_or]
    exact ⟨hTargets outer c hClass, hName.2⟩

/-- A table in which every class keeps its name renames no class. -/
theorem className_of_identity (hNames : ∀ e ∈ m.classes.entries, e.2.named = e.1) :
    m.className name = name := by
  rw [className]
  cases hMap : m.mapClass name with
  | none => rfl
  | some new =>
    obtain ⟨⟨outer, rest⟩, hMem, hEntry⟩ := List.exists_of_findSome?_eq_some hMap
    obtain ⟨c, hClass, rfl⟩ := Option.map_eq_some_iff.1 hEntry
    have hName : c.named = outer := hNames (outer, c) (OrderedMap.get?_eq_some.1 hClass)
    rw [Option.getD_some, hName, append_of_mem_outerNames hMem]

-- ---------------------------------------------------------------------------
-- Reversed tables
-- ---------------------------------------------------------------------------

/-- The entry for a class in the other direction, if no other class has its target name. -/
def reversed (m : MappingSet) (name : String) (c : ClassMapping) : ClassMapping :=
  m.reverseMembers c { ClassMapping.new name with javadoc := c.javadoc }

/-- A class that is listed and then filled stands behind the others if it is new. -/
theorem entries_fillClass {named : String} {f : ClassMapping → ClassMapping}
    (hNew : name ∉ m.classes.keys) :
    ((m.addClass name named).editClass name f).classes.entries =
      m.classes.entries ++ [(name, f (.new named))] := by
  have hAdd : (m.addClass name named).classes = m.classes.insert name (.new named) := by
    rw [addClass, OrderedMap.update_of_not_mem hNew]
    rfl
  rw [editClass, hAdd, OrderedMap.update_insert, OrderedMap.entries_insert_of_not_mem hNew]

/-- **The classes of a reversed table** stand in the same order, if no two have one target name. -/
theorem classes_reverse (hNodup : (m.classes.entries.map fun e => e.2.named).Nodup) :
    m.reverse.classes =
      OrderedMap.ofList (m.classes.entries.map fun e => (e.2.named, m.reversed e.1 e.2)) := by
  have hEntries : m.reverse.classes.entries =
      m.classes.entries.map fun e => (e.2.named, m.reversed e.1 e.2) :=
    OrderedMap.entries_foldl_of_step (s := (∅ : MappingSet)) classes
      (fun _ _ hNew => entries_fillClass hNew) hNodup
  ext1
  rw [OrderedMap.entries_ofList]
  · exact hEntries
  · rw [List.map_map]
    exact hNodup

/-- The methods of a reversed class go under their target names and translated descriptors. -/
theorem methods_reversed : (m.reversed name c).methods =
    OrderedMap.ofList (c.methods.entries.map fun e =>
      (⟨e.2.named, m.mapDescriptor e.1.descriptor⟩,
        ⟨e.1.name, e.2.parameters, e.2.javadoc⟩)) := by
  rw [OrderedMap.ofList, List.foldl_map]
  rfl

/-- So do the fields; a descriptor that was missing is still missing. -/
theorem fields_reversed : (m.reversed name c).fields =
    OrderedMap.ofList (c.fields.entries.map fun e =>
      (⟨e.2.named, e.1.descriptor.map m.mapDescriptor⟩, ⟨e.1.name, e.2.javadoc⟩)) := by
  rw [OrderedMap.ofList, List.foldl_map]
  rfl

end MappingSet

-- ---------------------------------------------------------------------------
-- Reversing twice
-- ---------------------------------------------------------------------------

namespace ClassMapping

/-- The descriptors of the listed members. A field may have none. -/
def descriptors (c : ClassMapping) : List String :=
  c.fields.entries.filterMap (·.1.descriptor) ++ c.methods.entries.map (·.1.descriptor)

theorem mem_descriptors_of_field {c : ClassMapping} {e : FieldKey × FieldMapping} {d : String}
    (hField : e ∈ c.fields.entries) (hDescriptor : e.1.descriptor = some d) : d ∈ c.descriptors :=
  List.mem_append_left _ (List.mem_filterMap.2 ⟨e, hField, hDescriptor⟩)

theorem mem_descriptors_of_method {c : ClassMapping} {e : MethodKey × MethodMapping}
    (hMethod : e ∈ c.methods.entries) : e.1.descriptor ∈ c.descriptors :=
  List.mem_append_right _ (List.mem_map_of_mem hMethod)

end ClassMapping

namespace MappingSet

variable {m : MappingSet} {name d : String} {c : ClassMapping}

/-- No two classes have one target name, and no two fields or methods of a class have one target
name and one translated descriptor. A class name ends at a `;` in a descriptor, so that no target
name may hold one. -/
structure KeepsApart (m : MappingSet) : Prop where
  classes : (m.classes.entries.map fun e => e.2.named).Nodup
  plain : ∀ e ∈ m.classes.entries, ';' ∉ e.2.named.toList
  fields : ∀ e ∈ m.classes.entries, (e.2.fields.entries.map fun f =>
    FieldKey.mk f.2.named (f.1.descriptor.map m.mapDescriptor)).Nodup
  methods : ∀ e ∈ m.classes.entries, (e.2.methods.entries.map fun f =>
    MethodKey.mk f.2.named (m.mapDescriptor f.1.descriptor)).Nodup

/-- The reversed table leads a class back to its old name. -/
def LeadsBack (m : MappingSet) (name : String) : Prop :=
  m.reverse.className (m.className name) = name

instance (m : MappingSet) (name : String) : Decidable (m.LeadsBack name) :=
  inferInstanceAs (Decidable (_ = _))

/-- A descriptor comes back if its classes do; a text that is no descriptor does not change. -/
theorem mapDescriptor_reverse (hPlain : ∀ e ∈ m.classes.entries, ';' ∉ e.2.named.toList)
    (hBack : ∀ x ∈ Descriptor.classNames d, m.LeadsBack x) :
    m.reverse.mapDescriptor (m.mapDescriptor d) = d := by
  have hTargets : ∀ x ∈ Descriptor.classNames d, ';' ∉ (m.className x).toList := fun x hx =>
    not_mem_className (fun n c hClass => hPlain (n, c) (OrderedMap.get?_eq_some.1 hClass))
      (Descriptor.not_mem_of_mem_classNames hx)
  unfold mapDescriptor
  rw [Descriptor.rename_rename hTargets]
  exact Descriptor.rename_of_fixed hBack

/-- A class that is reversed and reversed again is the same class. -/
theorem KeepsApart.reversed_reversed (hApart : m.KeepsApart)
    (hClass : (name, c) ∈ m.classes.entries)
    (hBack : ∀ d ∈ c.descriptors, ∀ x ∈ Descriptor.classNames d, m.LeadsBack x) :
    m.reverse.reversed c.named (m.reversed name c) = c := by
  have hDescriptor : ∀ d ∈ c.descriptors, m.reverse.mapDescriptor (m.mapDescriptor d) = d :=
    fun d hd => mapDescriptor_reverse hApart.plain (hBack d hd)
  have hFields : (m.reverse.reversed c.named (m.reversed name c)).fields = c.fields := by
    rw [fields_reversed, fields_reversed]
    refine OrderedMap.ofList_map_back ?_ fun e hField => ?_
    · rw [List.map_map]
      exact hApart.fields _ hClass
    · obtain ⟨⟨field, descriptor⟩, f⟩ := e
      cases descriptor with
      | none => rfl
      | some d =>
        have hSame := hDescriptor d (ClassMapping.mem_descriptors_of_field hField rfl)
        rw [Option.map_some, Option.map_some, hSame]
  have hMethods : (m.reverse.reversed c.named (m.reversed name c)).methods = c.methods := by
    rw [methods_reversed, methods_reversed]
    refine OrderedMap.ofList_map_back ?_ fun e hMethod => ?_
    · rw [List.map_map]
      exact hApart.methods _ hClass
    · obtain ⟨⟨method, descriptor⟩, f⟩ := e
      have hSame := hDescriptor _ (ClassMapping.mem_descriptors_of_method hMethod)
      rw [hSame]
  cases c with
  | mk named javadoc fields methods =>
    rw [ClassMapping.mk.injEq]
    exact ⟨rfl, rfl, hFields, hMethods⟩

/-- **A reversed table that is reversed again is the table**, with its order, its descriptors, the
fields without one, its parameters and its documentation: if the table keeps its entries apart, and
the classes in its descriptors are led back to their names. -/
theorem reverse_reverse (hApart : m.KeepsApart)
    (hBack : ∀ e ∈ m.classes.entries, ∀ d ∈ e.2.descriptors,
      ∀ x ∈ Descriptor.classNames d, m.LeadsBack x) :
    m.reverse.reverse = m := by
  have hForth := classes_reverse hApart.classes
  have hTargets : ((m.classes.entries.map fun e => (e.2.named, m.reversed e.1 e.2)).map
      Prod.fst).Nodup := by
    rw [List.map_map]
    exact hApart.classes
  -- the target names of the reversed table are the keys of the table
  have hNames : (m.reverse.classes.entries.map fun e => e.2.named).Nodup := by
    rw [hForth, OrderedMap.entries_ofList hTargets, List.map_map]
    exact m.classes.nodup
  have hClasses : m.reverse.reverse.classes = m.classes := by
    rw [classes_reverse hNames, hForth]
    exact OrderedMap.ofList_map_back hTargets fun e hClass =>
      congrArg (Prod.mk e.1) (hApart.reversed_reversed hClass (hBack e hClass))
  exact congrArg MappingSet.mk hClasses

/-- The class `a` takes the name of the class `b`, which moves away. The class `a$1` follows `a`, and
one method has no descriptor. -/
def movedUp : MappingSet :=
  (((∅ : MappingSet).addClass "a" "b").addClass "b" "x/C").documentClass "a" "The first one."
    |>.addField "a" "f" none "g" |>.documentField "a" "f" none "Any f."
    |>.addField "a" "k" (some "[La$1;") "f"
    |>.addMethod "a" "m" "(La$1;Lb;I)Lc;" "run"
    |>.addParameter "a" "m" "(La$1;Lb;I)Lc;" 3 "count"
    |>.documentMethod "a" "m" "(La$1;Lb;I)Lc;" "Runs."
    |>.addMethod "a" "n" "(La" "run"
    |>.addField "b" "v" (some "La;") "value"

theorem reverse_reverse_movedUp :
    movedUp.reverse.mapDescriptor "(Lb$1;Lx/C;I)Lc;" = "(La$1;Lb;I)Lc;" ∧
      movedUp.mapDescriptor "(La$1;Lb;I)Lc;" = "(Lb$1;Lx/C;I)Lc;" ∧
      movedUp.reverse.reverse = movedUp := by
  have hApart : movedUp.KeepsApart := by
    constructor <;> decide +kernel
  exact ⟨by decide +kernel, by decide +kernel, reverse_reverse hApart (by decide +kernel)⟩

end MappingSet

end Jarsmith
