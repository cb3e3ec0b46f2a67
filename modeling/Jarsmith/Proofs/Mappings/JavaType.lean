import Jarsmith.Mappings.ProGuard
import Jarsmith.Proofs.ClassFile.Descriptor
import Jarsmith.Proofs.Mappings.Lines

/-!
# Writing types in source form

The source form of a type of a descriptor: a keyword or a dotted name, and a pair of brackets for
each dimension.

* `IsName`, `IsTypeName` — names that do not get in the way of the cuts, and the names among them
  that are taken for classes.
* `FieldType.descriptor_source` — the descriptor of the source form.
-/

namespace Jarsmith

-- ---------------------------------------------------------------------------
-- Names
-- ---------------------------------------------------------------------------

/-- A character that is neither a blank nor a sign of the source form. -/
def IsPlain (c : Char) : Prop := Text.isBlank c = false ∧ c ∉ ".,()[]:;#".toList

instance (c : Char) : Decidable (IsPlain c) := inferInstanceAs (Decidable (_ ∧ _))

/-- A name of plain characters. -/
def IsName (text : String) : Prop := text ≠ "" ∧ ∀ c ∈ text.toList, IsPlain c

instance (text : String) : Decidable (IsName text) := inferInstanceAs (Decidable (_ ∧ _))

/-- The keyword of a primitive type. -/
def Primitive.keyword : Primitive → String
  | boolean => "boolean"
  | byte => "byte"
  | char => "char"
  | short => "short"
  | int => "int"
  | long => "long"
  | float => "float"
  | double => "double"
  | void => "void"

/-- The keywords of all primitive types. -/
def keywords : List String :=
  [.boolean, .byte, .char, .short, .int, .long, .float, .double, .void].map Primitive.keyword

/-- A name that is taken for a class where a type is expected. -/
def IsTypeName (text : String) : Prop :=
  IsName text ∧ text ∉ keywords ∧ ∀ c ∈ text.toList.head?, c.isDigit = false

instance (text : String) : Decidable (IsTypeName text) := inferInstanceAs (Decidable (_ ∧ _))

theorem IsPlain.isInk {c : Char} (hc : IsPlain c) : IsInk c :=
  ⟨hc.1, fun hHash => hc.2 (hHash ▸ by decide)⟩

theorem IsName.isColumn {text : String} (hName : IsName text) : IsColumn text :=
  ⟨hName.1, fun c hc => (hName.2 c hc).isInk⟩

theorem IsName.not_mem {text : String} {c : Char} (hName : IsName text) (hc : ¬ IsPlain c) :
    c ∉ text.toList :=
  fun hMem => hc (hName.2 c hMem)

theorem isName_keyword (p : Primitive) :
    IsName p.keyword ∧ ∀ c ∈ p.keyword.toList.head?, c.isDigit = false := by
  cases p <;> decide

-- ---------------------------------------------------------------------------
-- Source forms
-- ---------------------------------------------------------------------------

/-- The dotted form of a class name. -/
def dotted (name : String) : String := Text.replace '/' '.' name

/-- The source form of a type that is no array. -/
def ElementType.source : ElementType → String
  | primitive p => p.keyword
  | object name => dotted name

/-- The source form of a type. -/
def FieldType.source (t : FieldType) : String :=
  String.ofList (t.element.source.toList ++ (List.replicate t.dimensions ['[', ']']).flatten)

/-- The classes of a type are taken for classes in source form. -/
def FieldType.HasTypeNames (t : FieldType) : Prop := ∀ x ∈ t.classNames, IsTypeName x

/-- The classes of a type are taken for classes in source form. -/
def MethodType.HasTypeNames (t : MethodType) : Prop := ∀ x ∈ t.classNames, IsTypeName x

theorem MethodType.HasTypeNames.parameters {t : MethodType} (hNames : t.HasTypeNames) :
    ∀ u ∈ t.parameters, u.HasTypeNames :=
  fun u hu x hx => hNames x (List.mem_append_left _ (List.mem_flatMap.2 ⟨u, hu, hx⟩))

theorem MethodType.HasTypeNames.returns {t : MethodType} (hNames : t.HasTypeNames) :
    t.returns.HasTypeNames :=
  fun x hx => hNames x (List.mem_append_right _ hx)

instance (t : FieldType) : Decidable t.HasTypeNames := inferInstanceAs (Decidable (∀ _ ∈ _, _))

instance (t : MethodType) : Decidable t.HasTypeNames := inferInstanceAs (Decidable (∀ _ ∈ _, _))

/-- A character of a source form. -/
def IsSourceChar (c : Char) : Prop := IsPlain c ∨ c ∈ ".[]".toList

instance (c : Char) : Decidable (IsSourceChar c) := inferInstanceAs (Decidable (_ ∨ _))

theorem mem_dotted {name : String} {c : Char} (hMem : c ∈ (dotted name).toList) :
    c = '.' ∨ c ∈ name.toList := by
  rw [dotted, Text.replace, String.toList_ofList, Text.swap] at hMem
  obtain ⟨d, hd, rfl⟩ := List.mem_map.1 hMem
  split
  · exact .inl rfl
  · exact .inr hd

theorem dotted_eq_self {name : String} (hDots : '.' ∉ (dotted name).toList) :
    dotted name = name := by
  have hSlash : ∀ c ∈ name.toList, c ≠ '/' := by
    rintro c hc rfl
    refine hDots ?_
    rw [dotted, Text.replace, String.toList_ofList]
    exact List.mem_map.2 ⟨'/', hc, rfl⟩
  have hSwap : Text.swap '/' '.' name.toList = name.toList :=
    (List.map_congr_left fun c hc => if_neg (hSlash c hc)).trans (List.map_id _)
  rw [dotted, Text.replace, hSwap, String.ofList_toList]

/-- The internal form of a dotted name is the name. -/
theorem replace_dotted {name : String} (hName : IsName name) :
    Text.replace '.' '/' (dotted name) = name :=
  Text.replace_replace (hName.not_mem (by decide))

theorem dotted_ne_empty {name : String} (hName : name ≠ "") : dotted name ≠ "" := by
  intro hEmpty
  rw [dotted_eq_self (by simp [hEmpty])] at hEmpty
  exact hName hEmpty

theorem isColumn_dotted {name : String} (hName : IsName name) : IsColumn (dotted name) := by
  refine ⟨dotted_ne_empty hName.1, fun c hc => ?_⟩
  obtain rfl | hMem := mem_dotted hc
  · decide
  · exact (hName.2 c hMem).isInk

/-- A class name is dotted to no keyword. -/
theorem dotted_not_mem_keywords {name : String} (hName : IsTypeName name) :
    dotted name ∉ keywords := by
  intro hMem
  have hDots : ∀ word ∈ keywords, '.' ∉ word.toList := by decide
  rw [dotted_eq_self (hDots _ hMem)] at hMem
  exact hName.2.1 hMem

namespace ElementType

variable {t : ElementType}

theorem source_chars (hNames : ∀ x ∈ t.classNames, IsTypeName x) :
    t.source ≠ "" ∧ ∀ c ∈ t.source.toList, IsPlain c ∨ c = '.' := by
  cases t with
  | primitive p =>
    obtain ⟨hName, -⟩ := isName_keyword p
    exact ⟨hName.1, fun c hc => .inl (hName.2 c hc)⟩
  | object name =>
    have hName := (hNames name List.mem_cons_self).1
    exact ⟨dotted_ne_empty hName.1, fun c hc => (mem_dotted hc).symm.imp (hName.2 c) id⟩

/-- A source form starts with no digit. -/
theorem isDigit_source (hNames : ∀ x ∈ t.classNames, IsTypeName x) :
    ∀ c ∈ t.source.toList.head?, c.isDigit = false := by
  cases t with
  | primitive p => exact (isName_keyword p).2
  | object name =>
    intro c hc
    rw [source, dotted, Text.replace, String.toList_ofList, Text.swap, List.head?_map] at hc
    obtain ⟨d, hd, rfl⟩ := Option.map_eq_some_iff.1 hc
    split
    · rfl
    · exact (hNames name List.mem_cons_self).2.2 d hd

theorem element_of_not_mem {name : String} (hName : name ∉ keywords) :
    JavaType.element name = "L" ++ Text.replace '.' '/' name ++ ";" := by
  simp only [keywords, List.map_cons, List.map_nil, Primitive.keyword, List.mem_cons,
    List.not_mem_nil, or_false, not_or] at hName
  unfold JavaType.element
  split <;> simp_all

theorem element_source (hNames : ∀ x ∈ t.classNames, IsTypeName x) :
    (JavaType.element t.source).toList = t.toChars := by
  cases t with
  | primitive p => cases p <;> decide
  | object name =>
    have hName := hNames name List.mem_cons_self
    rw [source, element_of_not_mem (dotted_not_mem_keywords hName), replace_dotted hName.1,
      String.toList_append, String.toList_append]
    rfl

end ElementType

namespace JavaType

theorem stripBrackets_append {n : Nat} {text : List Char} (hText : ']' ∉ text) :
    stripBrackets ((List.replicate n [']', '[']).flatten ++ text) = (text, n) := by
  induction n with
  | zero =>
    rw [List.replicate_zero, List.flatten_nil, List.nil_append, stripBrackets.eq_def]
    split
    · exact absurd List.mem_cons_self hText
    · rfl
  | succ n ih =>
    rw [List.replicate_succ, List.flatten_cons, List.append_assoc, List.cons_append,
      List.cons_append, List.nil_append, stripBrackets, ih]

end JavaType

namespace FieldType

variable {t : FieldType}

theorem toList_source : t.source.toList =
    t.element.source.toList ++ (List.replicate t.dimensions ['[', ']']).flatten :=
  String.toList_ofList

theorem mem_brackets {n : Nat} {c : Char} (hMem : c ∈ (List.replicate n ['[', ']']).flatten) :
    c = '[' ∨ c = ']' := by
  obtain ⟨pair, hPair, hc⟩ := List.mem_flatten.1 hMem
  rw [List.eq_of_mem_replicate hPair] at hc
  simpa using hc

/-- A source form is made of plain characters, dots and brackets. -/
theorem isSourceChar_of_mem (hNames : t.HasTypeNames) : ∀ c ∈ t.source.toList, IsSourceChar c := by
  intro c hMem
  rw [toList_source] at hMem
  obtain hElement | hBrackets := List.mem_append.1 hMem
  · obtain hPlain | rfl := (ElementType.source_chars hNames).2 c hElement
    · exact .inl hPlain
    · exact .inr (by decide)
  · obtain rfl | rfl := mem_brackets hBrackets <;> exact .inr (by decide)

theorem isColumn_source (hNames : t.HasTypeNames) : IsColumn t.source := by
  constructor
  · intro hEmpty
    have hNil := String.toList_eq_nil_iff.2 hEmpty
    rw [toList_source] at hNil
    exact (ElementType.source_chars hNames).1
      (String.toList_eq_nil_iff.1 (List.append_eq_nil_iff.1 hNil).1)
  · intro c hc
    obtain hPlain | hSign := isSourceChar_of_mem hNames c hc
    · exact hPlain.isInk
    · have hSigns : ∀ d ∈ ".[]".toList, IsInk d := by decide
      exact hSigns c hSign

/-- A source form starts with no digit. -/
theorem isDigit_source (hNames : t.HasTypeNames) :
    ∀ c ∈ t.source.toList.head?, c.isDigit = false := by
  have hSome : t.element.source.toList ≠ [] := fun hNil =>
    (ElementType.source_chars hNames).1 (String.toList_eq_nil_iff.1 hNil)
  obtain ⟨first, more, hChars⟩ := List.exists_cons_of_ne_nil hSome
  have hFirst := ElementType.isDigit_source hNames
  rw [hChars] at hFirst
  rw [toList_source, hChars]
  exact hFirst

/-- **The descriptor of a source form** is the written form of the type. -/
theorem descriptor_source (hNames : t.HasTypeNames) :
    JavaType.descriptor t.source = toString t := by
  have hElement : ']' ∉ t.element.source.toList.reverse := by
    intro hMem
    obtain hPlain | hDot := (ElementType.source_chars hNames).2 _ (List.mem_reverse.1 hMem)
    · exact hPlain.2 (by decide)
    · exact absurd hDot (by decide)
  have hReverse : t.source.toList.reverse =
      (List.replicate t.dimensions [']', '[']).flatten ++ t.element.source.toList.reverse := by
    rw [toList_source, List.reverse_append, List.reverse_flatten, List.map_replicate,
      List.reverse_replicate]
    rfl
  have hStrip : JavaType.stripBrackets (Text.trim t.source).toList.reverse =
      (t.element.source.toList.reverse, t.dimensions) := by
    rw [(isColumn_source hNames).isWord.trim_eq, hReverse, JavaType.stripBrackets_append hElement]
  rw [JavaType.descriptor, hStrip, ← String.toList_inj]
  dsimp only
  rw [List.reverse_reverse, String.ofList_toList, String.toList_append, String.toList_ofList,
    ElementType.element_source hNames]
  exact String.toList_ofList.symm

end FieldType

end Jarsmith
