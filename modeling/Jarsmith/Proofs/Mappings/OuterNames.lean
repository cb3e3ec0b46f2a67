import Jarsmith.Proofs.Mappings.Reverse

/-!
# Classes around a class

A class that a table does not list follows the nearest class around it that is listed: the name is
cut at its last `$` until an entry is found, and what was cut off is put back behind the target name.

* `MappingSet.mapClass_inner` — one cut: an inner class follows the class in front of its last `$`.
* `MappingSet.Nearest` — the longest listed name around a class.
* `MappingSet.mapClass_cases` — a class follows the nearest one, or there is none.
* `Descriptor.exists_pieces` — a renaming changes the names of a descriptor and nothing between them.
* `MappingSet.classes_follow_nearest` — the target names of classes, alone and in descriptors.
-/

namespace Jarsmith

-- ---------------------------------------------------------------------------
-- Cuts in front of a character
-- ---------------------------------------------------------------------------

namespace Text

theorem cutsBefore_of_not_mem {c : Char} {text : List Char} (hText : c ∉ text) :
    cutsBefore c text = [] := by
  induction text with
  | nil => rfl
  | cons d rest ih =>
    rw [List.mem_cons, not_or] at hText
    rw [cutsBefore, ih hText.2, if_neg (Ne.symm hText.1)]
    rfl

/-- The cut in front of the last `c` comes first, and the others are those of the text before it. -/
theorem cutsBefore_append {c : Char} {before after : List Char} (hAfter : c ∉ after) :
    cutsBefore c (before ++ c :: after) =
      (before, c :: after) :: (cutsBefore c before).map fun e => (e.1, e.2 ++ c :: after) := by
  induction before with
  | nil =>
    simp [cutsBefore, cutsBefore_of_not_mem hAfter]
  | cons d rest ih =>
    rw [List.cons_append, cutsBefore, cutsBefore, ih]
    split <;> simp

end Text

namespace MappingSet

variable {m : MappingSet} {name outer inner front rest : String} {c : ClassMapping}

theorem outerNames_eq (name : String) : outerNames name = (name, "") ::
    (Text.cutsBefore '$' name.toList).map fun e => (String.ofList e.1, String.ofList e.2) := rfl

theorem outerNames_of_splitLast?_eq_none (hSplit : Text.splitLast? '$' name = none) :
    outerNames name = [(name, "")] := by
  rw [outerNames_eq, Text.cutsBefore_of_not_mem (Text.splitLast?_eq_none.1 hSplit), List.map_nil]

theorem outerNames_of_splitLast? (hSplit : Text.splitLast? '$' name = some (front, inner)) :
    outerNames name =
      (name, "") :: (outerNames front).map fun e => (e.1, e.2 ++ ("$" ++ inner)) := by
  obtain ⟨hInner, hName⟩ := Text.splitLast?_eq_some.1 hSplit
  have hRest : String.ofList ('$' :: inner.toList) = "$" ++ inner := by
    rw [← String.toList_inj, String.toList_ofList, String.toList_append]
    rfl
  rw [outerNames_eq, hName, Text.cutsBefore_append hInner, outerNames_eq, List.map_cons,
    List.map_cons, List.map_map, List.map_map]
  simp only [hRest, String.ofList_toList, String.empty_append, Function.comp_def,
    String.ofList_append]

/-- A class that is not listed follows the class in front of the last `$` of its name, and has no
target name if that one has none or if there is no `$`. -/
theorem mapClass_inner (hNone : m.class? name = none) : m.mapClass name =
    (Text.splitLast? '$' name).bind fun e => (m.mapClass e.1).map (· ++ ("$" ++ e.2)) := by
  have hMap : ∀ name, m.mapClass name =
      (outerNames name).findSome? fun e => (m.class? e.1).map (·.named ++ e.2) := fun _ => rfl
  cases hSplit : Text.splitLast? '$' name with
  | none =>
    rw [hMap, outerNames_of_splitLast?_eq_none hSplit, List.findSome?_singleton, hNone]
    rfl
  | some e =>
    rw [hMap, outerNames_of_splitLast? hSplit, List.findSome?_cons, hNone, Option.map_none,
      Option.bind_some, hMap, List.findSome?_map, List.map_findSome?]
    simp only [Function.comp_def, Option.map_map, String.append_assoc]

-- ---------------------------------------------------------------------------
-- Names around a name
-- ---------------------------------------------------------------------------

/-- `name` is the class `outer`, or it is a class inside it and `rest` is how it goes on. -/
def Around (name outer rest : String) : Prop :=
  name = outer ++ rest ∧ (rest = "" ∨ ∃ inner, rest = "$" ++ inner)

/-- `outer` is the longest listed name around `name`, and `c` is its entry. -/
structure Nearest (m : MappingSet) (name outer rest : String) (c : ClassMapping) : Prop where
  around : Around name outer rest
  listed : m.class? outer = some c
  longest : ∀ other more, Around name other more → m.class? other ≠ none →
    other.length ≤ outer.length

theorem Around.refl (name : String) : Around name name "" := ⟨String.append_empty.symm, .inl rfl⟩

theorem Around.length_le (hAround : Around name outer rest) : outer.length ≤ name.length := by
  rw [hAround.1, String.length_append]
  exact Nat.le_add_right ..

/-- A name without `$` is around itself only. -/
theorem around_of_splitLast?_eq_none (hSplit : Text.splitLast? '$' name = none) :
    Around name outer rest ↔ outer = name ∧ rest = "" := by
  constructor
  · rintro ⟨rfl, rfl | ⟨inner, rfl⟩⟩
    · exact ⟨String.append_empty.symm, rfl⟩
    · rw [Text.splitLast?_eq_none, String.toList_append, String.toList_append] at hSplit
      exact absurd (List.mem_append_right _ (List.mem_append_left _ List.mem_cons_self)) hSplit
  · rintro ⟨rfl, rfl⟩
    exact Around.refl outer

/-- The other names around a name are those around the part in front of its last `$`. -/
theorem around_of_splitLast? (hSplit : Text.splitLast? '$' name = some (front, inner)) :
    Around name outer rest ↔ (outer = name ∧ rest = "") ∨
      ∃ more, Around front outer more ∧ rest = more ++ ("$" ++ inner) := by
  obtain ⟨hInner, hName⟩ := Text.splitLast?_eq_some.1 hSplit
  have hFront : name = front ++ ("$" ++ inner) := by
    rw [← String.toList_inj, hName, String.toList_append, String.toList_append]
    rfl
  constructor
  · rintro ⟨hWhole, rfl | ⟨after, rfl⟩⟩
    · exact .inl ⟨by rw [hWhole, String.append_empty], rfl⟩
    · refine .inr ?_
      -- the last `$` is the one behind `outer`, or it is further back
      cases hAfter : Text.splitLast? '$' after with
      | none =>
        have hLast : Text.splitLast? '$' name = some (outer, after) := by
          refine Text.splitLast?_eq_some.2 ⟨Text.splitLast?_eq_none.1 hAfter, ?_⟩
          rw [hWhole, String.toList_append, String.toList_append]
          rfl
        cases hSplit.symm.trans hLast
        exact ⟨"", Around.refl outer, String.empty_append.symm⟩
      | some e =>
        obtain ⟨middle, last⟩ := e
        obtain ⟨hLast, hAfter⟩ := Text.splitLast?_eq_some.1 hAfter
        have hLast : Text.splitLast? '$' name = some (outer ++ ("$" ++ middle), last) := by
          refine Text.splitLast?_eq_some.2 ⟨hLast, ?_⟩
          simp only [hWhole, String.toList_append, hAfter, List.append_assoc]
        cases hSplit.symm.trans hLast
        refine ⟨"$" ++ middle, ⟨rfl, .inr ⟨middle, rfl⟩⟩, ?_⟩
        rw [← String.toList_inj]
        simp only [String.toList_append, hAfter, List.append_assoc]
        rfl
  · rintro (⟨rfl, rfl⟩ | ⟨more, ⟨hWhole, hMore⟩, rfl⟩)
    · exact Around.refl outer
    · refine ⟨by rw [hFront, hWhole, String.append_assoc], .inr ?_⟩
      rcases hMore with rfl | ⟨middle, rfl⟩
      · exact ⟨inner, String.empty_append⟩
      · exact ⟨middle ++ ("$" ++ inner), String.append_assoc ..⟩

theorem length_of_splitLast? (hSplit : Text.splitLast? '$' name = some (front, inner)) :
    front.length < name.length := by
  rw [← String.length_toList, ← String.length_toList, (Text.splitLast?_eq_some.1 hSplit).2,
    List.length_append, List.length_cons]
  omega

-- ---------------------------------------------------------------------------
-- The nearest listed class
-- ---------------------------------------------------------------------------

theorem nearest_self (hClass : m.class? name = some c) : m.Nearest name name "" c where
  around := Around.refl name
  listed := hClass
  longest _ _ hAround _ := hAround.length_le

/-- What is nearest to the part in front of the last `$` is nearest to a name that is not listed. -/
theorem Nearest.of_front (hNearest : m.Nearest front outer rest c)
    (hSplit : Text.splitLast? '$' name = some (front, inner)) (hNone : m.class? name = none) :
    m.Nearest name outer (rest ++ ("$" ++ inner)) c where
  around := (around_of_splitLast? hSplit).2 (.inr ⟨rest, hNearest.around, rfl⟩)
  listed := hNearest.listed
  longest other more hAround hListed := by
    rcases (around_of_splitLast? hSplit).1 hAround with ⟨rfl, -⟩ | ⟨_, hFront, -⟩
    · exact absurd hNone hListed
    · exact hNearest.longest _ _ hFront hListed

/-- Names around a name are told apart by their lengths, so there is one nearest class. -/
theorem Nearest.unique {outer' rest' : String} {c' : ClassMapping}
    (hNearest : m.Nearest name outer rest c) (hOther : m.Nearest name outer' rest' c') :
    outer = outer' ∧ rest = rest' ∧ c = c' := by
  have hLength : outer.length = outer'.length := Nat.le_antisymm
    (hOther.longest _ _ hNearest.around (hNearest.listed ▸ Option.some_ne_none c))
    (hNearest.longest _ _ hOther.around (hOther.listed ▸ Option.some_ne_none c'))
  have hName := hNearest.around.1.symm.trans hOther.around.1
  rw [← String.toList_inj, String.toList_append, String.toList_append] at hName
  obtain ⟨hOuter, hRest⟩ := List.append_inj hName
    (by rwa [String.length_toList, String.length_toList])
  rw [String.toList_inj] at hOuter hRest
  subst hOuter hRest
  exact ⟨rfl, rfl, Option.some.inj (hNearest.listed.symm.trans hOther.listed)⟩

/-- **A class follows the nearest listed class around it**, if there is one. -/
theorem mapClass_cases (m : MappingSet) (name : String) :
    (∃ outer rest c, m.Nearest name outer rest c ∧ m.mapClass name = some (c.named ++ rest)) ∨
      ((∀ outer rest, Around name outer rest → m.class? outer = none) ∧ m.mapClass name = none) := by
  induction hLength : name.length using Nat.strongRecOn generalizing name with
  | ind length ih =>
    subst hLength
    cases hClass : m.class? name with
    | some c =>
      exact .inl ⟨name, "", c, nearest_self hClass,
        by rw [mapClass_of_class? hClass, String.append_empty]⟩
    | none =>
      rw [mapClass_inner hClass]
      cases hSplit : Text.splitLast? '$' name with
      | none =>
        refine .inr ⟨fun outer rest hAround => ?_, rfl⟩
        rwa [((around_of_splitLast?_eq_none hSplit).1 hAround).1]
      | some e =>
        obtain ⟨front, inner⟩ := e
        rw [Option.bind_some]
        rcases ih front.length (length_of_splitLast? hSplit) front rfl with
          ⟨outer, rest, c, hNearest, hMap⟩ | ⟨hNone, hMap⟩
        · refine .inl ⟨outer, _, c, hNearest.of_front hSplit hClass, ?_⟩
          rw [hMap, Option.map_some, String.append_assoc]
        · refine .inr ⟨fun outer rest hAround => ?_, by rw [hMap, Option.map_none]⟩
          rcases (around_of_splitLast? hSplit).1 hAround with ⟨rfl, -⟩ | ⟨_, hFront, -⟩
          · exact hClass
          · exact hNone _ _ hFront

theorem mapClass_eq_some {target : String} : m.mapClass name = some target ↔
    ∃ outer rest c, m.Nearest name outer rest c ∧ target = c.named ++ rest := by
  rcases m.mapClass_cases name with ⟨outer, rest, c, hNearest, hMap⟩ | ⟨hNone, hMap⟩
  · rw [hMap, Option.some.injEq]
    constructor
    · rintro rfl
      exact ⟨outer, rest, c, hNearest, rfl⟩
    · rintro ⟨outer', rest', c', hOther, rfl⟩
      obtain ⟨rfl, rfl, rfl⟩ := hNearest.unique hOther
      rfl
  · rw [hMap]
    refine iff_of_false nofun ?_
    rintro ⟨outer, rest, c, hNearest, -⟩
    cases hNearest.listed.symm.trans (hNone _ _ hNearest.around)

theorem mapClass_eq_none : m.mapClass name = none ↔
    ∀ outer rest, Around name outer rest → m.class? outer = none := by
  rcases m.mapClass_cases name with ⟨outer, rest, c, hNearest, hMap⟩ | ⟨hNone, hMap⟩
  · rw [hMap]
    refine iff_of_false nofun fun hNone => ?_
    cases hNearest.listed.symm.trans (hNone _ _ hNearest.around)
  · exact iff_of_true hMap hNone

end MappingSet

-- ---------------------------------------------------------------------------
-- Names in descriptors
-- ---------------------------------------------------------------------------

namespace Descriptor

/-- A part of a descriptor: the name of a class, or characters between such names. -/
inductive Piece where
  | className (name : String)
  | plain (chars : List Char)
  deriving DecidableEq

namespace Piece

/-- The name of the class, if the part is one. -/
def name? : Piece → Option String
  | className name => some name
  | plain _ => none

/-- The written form under new names of the classes. -/
def toChars (f : String → String) : Piece → List Char
  | className name => 'L' :: ((f name).toList ++ [';'])
  | plain chars => chars

end Piece

/-- A text is made of parts that name some classes, and keeps the other parts when it is renamed. -/
structure Pieces (pieces : List Piece) (names : List String)
    (written : (String → String) → List Char) : Prop where
  names : pieces.filterMap Piece.name? = names
  written : ∀ f, written f = pieces.flatMap (Piece.toChars f)

namespace Pieces

variable {pieces more : List Piece} {names others : List String}
  {written after : (String → String) → List Char}

theorem plain (chars : List Char) : Pieces [.plain chars] [] fun _ => chars :=
  ⟨rfl, fun _ => List.append_nil chars |>.symm⟩

theorem append (hFront : Pieces pieces names written) (hBack : Pieces more others after) :
    Pieces (pieces ++ more) (names ++ others) fun f => written f ++ after f where
  names := by rw [List.filterMap_append, hFront.names, hBack.names]
  written f := by rw [List.flatMap_append, ← hFront.written, ← hBack.written]

end Pieces

theorem exists_pieces_element (t : ElementType) :
    ∃ pieces, Pieces pieces t.classNames fun f => (t.rename f).toChars := by
  cases t with
  | primitive p => exact ⟨_, .plain [p.letter]⟩
  | object name => exact ⟨[.className name], rfl, fun f => (List.append_nil _).symm⟩

theorem exists_pieces_field (t : FieldType) :
    ∃ pieces, Pieces pieces t.classNames fun f => (t.rename f).toChars := by
  obtain ⟨pieces, hPieces⟩ := exists_pieces_element t.element
  exact ⟨_, (Pieces.plain (List.replicate t.dimensions '[')).append hPieces⟩

theorem exists_pieces_parameters (l : List FieldType) :
    ∃ pieces, Pieces pieces (l.flatMap FieldType.classNames)
      fun f => (l.map (·.rename f)).flatMap FieldType.toChars := by
  induction l with
  | nil => exact ⟨[], rfl, fun _ => rfl⟩
  | cons t rest ih =>
    obtain ⟨first, hFirst⟩ := exists_pieces_field t
    obtain ⟨pieces, hPieces⟩ := ih
    exact ⟨_, hFirst.append hPieces⟩

theorem exists_pieces_method (t : MethodType) :
    ∃ pieces, Pieces pieces t.classNames fun f => (t.rename f).toChars := by
  obtain ⟨parameters, hParameters⟩ := exists_pieces_parameters t.parameters
  obtain ⟨returns, hReturns⟩ := exists_pieces_field t.returns
  exact ⟨_, (Pieces.plain ['(']).append (hParameters.append ((Pieces.plain [')']).append hReturns))⟩

/-- **A renaming changes the names of a descriptor in place.** What stands between them stays, and a
text that is no descriptor is one part without names. -/
theorem exists_pieces (text : String) :
    ∃ pieces, Pieces pieces (classNames text) fun f => (rename f text).toList := by
  rcases rename_cases text with ⟨t, -, hNames, hRename⟩ | ⟨t, -, hNames, hRename⟩ | ⟨hNames, hRename⟩
  · obtain ⟨pieces, hPieces⟩ := exists_pieces_method t
    refine ⟨pieces, hPieces.names.trans hNames.symm, fun f => ?_⟩
    rw [hRename, ← hPieces.written]
    exact String.toList_ofList
  · obtain ⟨pieces, hPieces⟩ := exists_pieces_field t
    refine ⟨pieces, hPieces.names.trans hNames.symm, fun f => ?_⟩
    rw [hRename, ← hPieces.written]
    exact String.toList_ofList
  · refine ⟨[.plain text.toList], hNames.symm, fun f => ?_⟩
    rw [hRename]
    exact (List.append_nil _).symm

end Descriptor

namespace MappingSet

variable {m : MappingSet} {name outer inner front rest : String} {c : ClassMapping}

/-- What becomes of a name: it follows the nearest listed class around it, or stays. -/
def Sends (m : MappingSet) (name new : String) : Prop :=
  (∃ outer rest c, m.Nearest name outer rest c ∧ new = c.named ++ rest) ∨
    ((∀ outer rest, Around name outer rest → m.class? outer = none) ∧ new = name)

theorem sends_className (m : MappingSet) (name : String) : m.Sends name (m.className name) := by
  rw [className]
  rcases m.mapClass_cases name with ⟨outer, rest, c, hNearest, hMap⟩ | ⟨hNone, hMap⟩
  · exact .inl ⟨outer, rest, c, hNearest, by rw [hMap, Option.getD_some]⟩
  · exact .inr ⟨hNone, by rw [hMap, Option.getD_none]⟩

/-- **A class is called after the longest listed name around it**, and has no target name if there is
none. A descriptor is rewritten name by name: every class in it is called so, or keeps its name. -/
theorem classes_follow_nearest (m : MappingSet) :
    (∀ name target, m.mapClass name = some target ↔
      ∃ outer rest c, m.Nearest name outer rest c ∧ target = c.named ++ rest) ∧
    (∀ name, m.mapClass name = none ↔
      ∀ outer rest, Around name outer rest → m.class? outer = none) ∧
    ∀ text, ∃ pieces : List Descriptor.Piece,
      pieces.filterMap Descriptor.Piece.name? = Descriptor.classNames text ∧
      text.toList = pieces.flatMap (Descriptor.Piece.toChars id) ∧
      (m.mapDescriptor text).toList = pieces.flatMap (Descriptor.Piece.toChars m.className) ∧
      ∀ name ∈ Descriptor.classNames text, m.Sends name (m.className name) := by
  refine ⟨fun _ _ => mapClass_eq_some, fun _ => mapClass_eq_none, fun text => ?_⟩
  obtain ⟨pieces, hPieces⟩ := Descriptor.exists_pieces text
  refine ⟨pieces, hPieces.names, ?_, hPieces.written m.className, fun name _ => m.sends_className name⟩
  rw [← hPieces.written, Descriptor.rename_of_fixed (f := id) fun _ _ => rfl]

/-- Names with a `$` at either end or twice in a row, and a listed name that holds a `$` itself. -/
example : let m : MappingSet := ⟨.ofList [("a", .new "x/A"), ("a$b", .new "y/B"), ("", .new "z")]⟩
    m.mapClass "a$b$1" = some "y/B$1" ∧ m.mapClass "a$$b$" = some "x/A$$b$" ∧
      m.mapClass "$a" = some "z$a" ∧ m.mapClass "ab$1" = none := by
  decide

end MappingSet

end Jarsmith
