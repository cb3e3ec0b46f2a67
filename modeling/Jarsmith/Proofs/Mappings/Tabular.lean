import Jarsmith.Proofs.ClassFile.Descriptor
import Jarsmith.Proofs.Mappings.Lines
import Jarsmith.Proofs.Mappings.Reverse
import Jarsmith.Proofs.Mappings.Rows

/-!
# Tables that the line formats can write

A line is cut at its blanks and ends where a comment starts, and a path is cut at its last slash.
The names of a table must not get in the way of that.

* `MappingSet.Tabular` — the tables that all line formats can write.
* `MappingSet.isColumn_mapDescriptor` — translating a descriptor keeps it in its column.
-/

namespace Jarsmith

-- ---------------------------------------------------------------------------
-- Rows
-- ---------------------------------------------------------------------------

/-- The name of a member that can stand behind its class in a path. -/
def IsMemberName (text : String) : Prop := IsColumn text ∧ '/' ∉ text.toList

instance (text : String) : Decidable (IsMemberName text) := inferInstanceAs (Decidable (_ ∧ _))

/-- The names and the descriptor of a member stand in columns, and only the descriptor of a method
opens with a parenthesis. -/
def MemberRow.IsTabular : MemberRow → Prop
  | field key named => (IsMemberName key.name ∧ IsMemberName named) ∧
      ∀ d ∈ key.descriptor, IsColumn d ∧ ¬ Text.startsWith d "(" = true
  | method key named => (IsMemberName key.name ∧ IsMemberName named) ∧
      IsColumn key.descriptor ∧ Text.startsWith key.descriptor "(" = true

/-- The names of a class stand in columns; its source name does not look like a package or a
header. -/
def Row.IsTabular : Row → Prop
  | ofClass name named => (IsColumn name ∧ IsColumn named) ∧
      ¬ Text.endsWith name "/" = true ∧ name ≠ "tsrg2"
  | ofMember owner member => IsColumn owner ∧ member.IsTabular

instance : DecidablePred MemberRow.IsTabular
  | .field _ _ => inferInstanceAs (Decidable (_ ∧ _))
  | .method _ _ => inferInstanceAs (Decidable (_ ∧ _))

instance : DecidablePred Row.IsTabular
  | .ofClass _ _ => inferInstanceAs (Decidable (_ ∧ _))
  | .ofMember _ _ => inferInstanceAs (Decidable (_ ∧ _))

theorem Row.IsTabular.loosely {r : Row} (hRow : r.IsTabular) : r.loosely.IsTabular := by
  cases r with
  | ofClass name named => exact hRow
  | ofMember owner member =>
    cases member with
    | field key named => exact ⟨hRow.1, hRow.2.1, nofun⟩
    | method key named => exact hRow

/-- The row gives a descriptor if it is a field. -/
def Row.IsDescribed : Row → Prop
  | ofMember _ (.field key _) => key.descriptor ≠ none
  | _ => True

instance : DecidablePred Row.IsDescribed
  | .ofClass _ _ => inferInstanceAs (Decidable True)
  | .ofMember _ (.field _ _) => inferInstanceAs (Decidable (_ ≠ _))
  | .ofMember _ (.method _ _) => inferInstanceAs (Decidable True)

/-- A table of names, with descriptors for all members, that every line format can write. -/
structure MappingSet.Tabular (m : MappingSet) : Prop where
  namesOnly : m.NamesOnly
  described : ∀ r ∈ m.rows, r.IsDescribed
  rows : ∀ r ∈ m.rows, r.IsTabular

instance (m : MappingSet) : Decidable m.Tabular :=
  decidable_of_iff (m.NamesOnly ∧ (∀ r ∈ m.rows, r.IsDescribed) ∧ ∀ r ∈ m.rows, r.IsTabular)
    ⟨fun ⟨hNames, hDescribed, hRows⟩ => ⟨hNames, hDescribed, hRows⟩,
      fun ⟨hNames, hDescribed, hRows⟩ => ⟨hNames, hDescribed, hRows⟩⟩

-- ---------------------------------------------------------------------------
-- Translated names
-- ---------------------------------------------------------------------------

/-- A class name stands in the written form of its type. -/
theorem FieldType.subset_toChars {t : FieldType} {x : String} (hx : x ∈ t.classNames) :
    x.toList ⊆ t.toChars := by
  obtain ⟨dimensions, element⟩ := t
  cases element with
  | primitive p => cases hx
  | object name =>
    rw [List.mem_singleton.1 hx]
    intro c hc
    exact List.mem_append_right _ (List.mem_cons_of_mem _ (List.mem_append_left _ hc))

theorem MethodType.subset_toChars {t : MethodType} {x : String} (hx : x ∈ t.classNames) :
    x.toList ⊆ t.toChars := by
  intro c hc
  obtain hParameter | hReturns := List.mem_append.1 hx
  · obtain ⟨p, hp, hx⟩ := List.mem_flatMap.1 hParameter
    exact List.mem_cons_of_mem _
      (List.mem_append_left _ (List.mem_flatMap.2 ⟨p, hp, FieldType.subset_toChars hx hc⟩))
  · exact List.mem_cons_of_mem _
      (List.mem_append_right _ (List.mem_cons_of_mem _ (FieldType.subset_toChars hReturns hc)))

theorem FieldType.not_mem_rename {t : FieldType} {f : String → String} {c : Char}
    (hText : c ∉ t.toChars) (hNames : ∀ x ∈ t.classNames, c ∉ (f x).toList) :
    c ∉ (t.rename f).toChars := by
  obtain ⟨dimensions, element⟩ := t
  cases element with
  | primitive p => exact hText
  | object name =>
    have hName := hNames name List.mem_cons_self
    simp only [toChars, ElementType.toChars, rename, ElementType.rename, List.mem_append,
      List.mem_cons, List.not_mem_nil, or_false, not_or] at hText ⊢
    exact ⟨hText.1, hText.2.1, hName, hText.2.2.2⟩

theorem MethodType.not_mem_rename {t : MethodType} {f : String → String} {c : Char}
    (hText : c ∉ t.toChars) (hNames : ∀ x ∈ t.classNames, c ∉ (f x).toList) :
    c ∉ (t.rename f).toChars := by
  obtain ⟨hParameters, hReturns⟩ := List.forall_mem_append.1 hNames
  simp only [toChars, List.mem_cons, List.mem_append, List.mem_flatMap, not_or, not_exists,
    not_and] at hText ⊢
  obtain ⟨hOpen, hTypes, hClose, hLast⟩ := hText
  refine ⟨hOpen, fun renamed hMem => ?_, hClose, FieldType.not_mem_rename hLast hReturns⟩
  obtain ⟨p, hp, rfl⟩ := List.mem_map.1 hMem
  exact FieldType.not_mem_rename (hTypes p hp)
    fun x hx => hParameters x (List.mem_flatMap.2 ⟨p, hp, hx⟩)

namespace Descriptor

variable {f : String → String} {text : String} {c : Char}

theorem subset_of_mem_classNames {x : String} (hx : x ∈ classNames text) :
    x.toList ⊆ text.toList := by
  rcases rename_cases text with ⟨t, hParse, hClasses, -⟩ | ⟨t, hParse, hClasses, -⟩ | ⟨hClasses, -⟩
  · rw [hClasses] at hx
    rw [← (MethodType.parse_eq_ok.1 hParse).2]
    exact MethodType.subset_toChars hx
  · rw [hClasses] at hx
    rw [← (FieldType.parse_eq_ok.1 hParse).2]
    exact FieldType.subset_toChars hx
  · rw [hClasses] at hx
    cases hx

/-- A character of a renamed descriptor was there before or came with a name. -/
theorem not_mem_rename (hText : c ∉ text.toList)
    (hNames : ∀ x ∈ classNames text, c ∉ (f x).toList) : c ∉ (rename f text).toList := by
  rcases rename_cases text with ⟨t, hParse, hClasses, hRename⟩ | ⟨t, hParse, hClasses, hRename⟩ |
    ⟨-, hRename⟩
  · rw [hClasses] at hNames
    rw [← (MethodType.parse_eq_ok.1 hParse).2] at hText
    rw [hRename]
    show c ∉ (String.ofList (t.rename f).toChars).toList
    rw [String.toList_ofList]
    exact MethodType.not_mem_rename hText hNames
  · rw [hClasses] at hNames
    rw [← (FieldType.parse_eq_ok.1 hParse).2] at hText
    rw [hRename]
    show c ∉ (String.ofList (t.rename f).toChars).toList
    rw [String.toList_ofList]
    exact FieldType.not_mem_rename hText hNames
  · rw [hRename]
    exact hText

theorem rename_ne_empty (hText : text ≠ "") : rename f text ≠ "" := by
  rcases rename_cases text with ⟨t, -, -, hRename⟩ | ⟨t, -, -, hRename⟩ | ⟨-, hRename⟩
  · rw [hRename]
    intro hEmpty
    cases (congrArg String.toList hEmpty).symm.trans String.toList_ofList
  · rw [hRename]
    intro hEmpty
    obtain ⟨first, more, hChars, -⟩ := (t.rename f).toChars_eq_cons
    cases ((congrArg String.toList hEmpty).symm.trans String.toList_ofList).trans hChars
  · rw [hRename]
    exact hText

end Descriptor

namespace MappingSet

variable {m : MappingSet} {name d : String} {c : ClassMapping}

namespace Tabular

theorem isColumn_named (hTable : m.Tabular) (hClass : m.class? name = some c) :
    IsColumn c.named :=
  (hTable.rows _ (mem_rows_ofClass (OrderedMap.get?_eq_some.1 hClass))).1.2

theorem isInk_className (hTable : m.Tabular) (hName : ∀ x ∈ name.toList, IsInk x) :
    ∀ x ∈ (m.className name).toList, IsInk x :=
  fun x hx => by_contra fun hNot => not_mem_className
    (fun _ _ hClass => (hTable.isColumn_named hClass).not_mem hNot)
    (fun hMem => hNot (hName x hMem)) hx

/-- The translation of a descriptor fits into a column if the descriptor does. -/
theorem isColumn_mapDescriptor (hTable : m.Tabular) (hd : IsColumn d) :
    IsColumn (m.mapDescriptor d) := by
  refine .of_not_mem (Descriptor.rename_ne_empty hd.1) fun x hNot => ?_
  refine Descriptor.not_mem_rename (hd.not_mem hNot) fun name hName hx => ?_
  refine hNot (hTable.isInk_className (fun y hy => ?_) x hx)
  exact hd.2 y (Descriptor.subset_of_mem_classNames hName hy)

end Tabular

end MappingSet

end Jarsmith
