import Jarsmith.ClassFile.Descriptor
import Jarsmith.Proofs.Outcome
import Jarsmith.Proofs.Text.Split
import Mathlib.Data.List.TakeWhile

/-!
# What descriptors write

A reader of types accepts exactly the written forms of well-formed types, and gives the type back
that a text writes. What a renaming does to a descriptor follows from what it does to the type.

* `FieldType.scan_eq_ok`, `MethodType.scanParameters_eq_ok` — a scan takes a written form off.
* `FieldType.parse_eq_ok`, `MethodType.parse_eq_ok` — a parser is the inverse of the written form.
* `Descriptor.rename_rename` — renaming twice is renaming once.
* `Descriptor.rename_of_fixed` — a renaming that keeps the classes of a descriptor keeps it.
* `Descriptor.rename_eq_rename_iff` — renamings that differ on a class write different descriptors.
-/

namespace Jarsmith

open Outcome

-- ---------------------------------------------------------------------------
-- Types without dimensions
-- ---------------------------------------------------------------------------

theorem Primitive.ofLetter?_eq_some {c : Char} {p : Primitive} :
    ofLetter? c = some p ↔ c = p.letter := by
  constructor
  · intro h
    unfold ofLetter? at h
    split at h <;> cases h <;> rfl
  · rintro rfl
    exact ofLetter?_letter p

theorem Primitive.letter_ne (p : Primitive) :
    p.letter ≠ 'L' ∧ p.letter ≠ '[' ∧ p.letter ≠ ')' ∧ p.letter ≠ '(' := by
  cases p <;> decide

namespace ElementType

variable {text rest : List Char} {t : ElementType}

/-- The name of a class ends at the first `;`. -/
def WellFormed : ElementType → Prop
  | primitive _ => True
  | object name => ';' ∉ name.toList

instance : DecidablePred WellFormed
  | primitive _ => inferInstanceAs (Decidable True)
  | object name => inferInstanceAs (Decidable (';' ∉ name.toList))

/-- The name of the class, if the type is one. -/
def classNames : ElementType → List String
  | primitive _ => []
  | object name => [name]

theorem toChars_eq_cons (t : ElementType) :
    ∃ c more, t.toChars = c :: more ∧ c ≠ '[' ∧ c ≠ ')' ∧ c ≠ '(' := by
  cases t with
  | primitive p => exact ⟨p.letter, [], rfl, p.letter_ne.2⟩
  | object name => exact ⟨'L', name.toList ++ [';'], rfl, by decide, by decide, by decide⟩

/-- A scan takes the written form of a well-formed type off the text. -/
theorem scan_eq_ok : scan text = .ok (t, rest) ↔ t.WellFormed ∧ text = t.toChars ++ rest := by
  unfold scan
  split
  · obtain ⟨c, more, hChars, -⟩ := t.toChars_eq_cons
    rw [hChars]
    simp
  · rename_i tail
    cases t with
    | primitive p =>
      have hLetter : 'L' :: tail ≠ (primitive p).toChars ++ rest :=
        fun h => p.letter_ne.1 (List.cons.inj h).1.symm
      simp only [hLetter, and_false, iff_false]
      split <;> simp
    | object name =>
      have hText : 'L' :: tail = (object name).toChars ++ rest ↔
          tail = name.toList ++ ';' :: rest := by
        simp [toChars]
      rw [hText]
      show _ ↔ ';' ∉ name.toList ∧ _
      rw [← Text.cutFirst?_eq_some]
      split
      · rename_i before after hCut
        simp only [hCut, Except.ok.injEq, Option.some.injEq, Prod.mk.injEq, object.injEq,
          ← String.toList_inj, String.toList_ofList]
      · rename_i hCut
        simp [hCut]
  · rename_i c tail hNotObject
    cases t with
    | primitive p =>
      show _ ↔ True ∧ c :: tail = p.letter :: rest
      rw [true_and, List.cons.injEq, ← Primitive.ofLetter?_eq_some]
      split
      · rename_i found hLetter
        simp [hLetter]
      · rename_i hLetter
        simp [hLetter]
    | object name =>
      have hText : c :: tail ≠ (object name).toChars ++ rest :=
        fun h => hNotObject (List.cons.inj h).1
      simp only [hText, and_false, iff_false]
      split <;> simp

end ElementType

-- ---------------------------------------------------------------------------
-- Types of fields
-- ---------------------------------------------------------------------------

namespace FieldType

variable {text rest : List Char} {t : FieldType}

/-- An array has 255 dimensions at most. -/
def WellFormed (t : FieldType) : Prop :=
  t.dimensions ≤ maxDimensions ∧ t.element.WellFormed

instance (t : FieldType) : Decidable t.WellFormed := inferInstanceAs (Decidable (_ ∧ _))

/-- The name of the class of the element, if it is one. -/
def classNames (t : FieldType) : List String := t.element.classNames

theorem toChars_eq_cons (t : FieldType) :
    ∃ c more, t.toChars = c :: more ∧ c ≠ ')' ∧ c ≠ '(' := by
  obtain ⟨c, more, hChars, -, hParentheses⟩ := t.element.toChars_eq_cons
  unfold toChars
  cases t.dimensions with
  | zero => exact ⟨c, more, hChars, hParentheses⟩
  | succ n => exact ⟨'[', _, rfl, by decide, by decide⟩

/-- The dimensions are the brackets at the front, and the element does not start with one. -/
theorem toChars_append (t : FieldType) (rest : List Char) :
    (t.toChars ++ rest).takeWhile (· == '[') = List.replicate t.dimensions '[' ∧
      (t.toChars ++ rest).dropWhile (· == '[') = t.element.toChars ++ rest := by
  obtain ⟨c, more, hChars, hBracket, -⟩ := t.element.toChars_eq_cons
  have hAll : ∀ d ∈ List.replicate t.dimensions '[', (d == '[') = true := by
    intro d hd
    rw [List.eq_of_mem_replicate hd]
    rfl
  have hHead : (c == '[') = false := by simpa using hBracket
  rw [toChars, List.append_assoc, List.takeWhile_append_of_pos hAll,
    List.dropWhile_append_of_pos hAll, hChars, List.cons_append, List.takeWhile_cons,
    List.dropWhile_cons, hHead]
  exact ⟨List.append_nil _, rfl⟩

/-- A scan takes the written form of a well-formed type off the text. -/
theorem scan_eq_ok : scan text = .ok (t, rest) ↔ t.WellFormed ∧ text = t.toChars ++ rest := by
  constructor
  · intro h
    unfold scan at h
    extract_lets dimensions at h
    split at h
    · cases h
    rename_i hDimensions
    split at h
    · cases h
    obtain ⟨⟨element, _⟩, hScan, hEq⟩ := map_ok_iff.1 h
    cases hEq
    obtain ⟨hElement, hText⟩ := ElementType.scan_eq_ok.1 hScan
    refine ⟨⟨Nat.le_of_not_lt hDimensions, hElement⟩, ?_⟩
    have hBrackets : text.takeWhile (· == '[') = List.replicate dimensions '[' := by
      refine List.eq_replicate_iff.2 ⟨rfl, fun d hd => ?_⟩
      exact eq_of_beq (List.mem_takeWhile_imp (p := (· == '[')) hd)
    rw [toChars, List.append_assoc, ← hText, ← hBrackets, List.takeWhile_append_dropWhile]
  · rintro ⟨⟨hDimensions, hElement⟩, rfl⟩
    obtain ⟨hTake, hDrop⟩ := t.toChars_append rest
    obtain ⟨c, more, hChars, -, hClose, -⟩ := t.element.toChars_eq_cons
    have hScan := ElementType.scan_eq_ok.2 ⟨hElement, rfl (a := t.element.toChars ++ rest)⟩
    unfold scan
    rw [hTake, hDrop, List.length_replicate, if_neg (Nat.not_lt.2 hDimensions)]
    rw [hChars] at hScan ⊢
    split
    · rename_i hEq
      exact absurd (List.cons.inj hEq).1 hClose
    · rw [hScan]
      rfl

/-- A parser is the inverse of the written form. -/
theorem parse_eq_ok {text : String} :
    parse text = .ok t ↔ t.WellFormed ∧ t.toChars = text.toList := by
  unfold parse
  rw [bind_ok_iff]
  constructor
  · rintro ⟨found, hFront, h⟩
    split at h
    · rename_i hChars
      cases h
      refine ⟨?_, hChars⟩
      unfold front at hFront
      split at hFront
      · cases hFront
      · obtain ⟨⟨_, _⟩, hScan, hEq⟩ := map_ok_iff.1 hFront
        cases hEq
        exact (scan_eq_ok.1 hScan).1
    · cases h
  · rintro ⟨hWell, hChars⟩
    have hScan := scan_eq_ok.2 ⟨hWell, (List.append_nil t.toChars).symm⟩
    refine ⟨t, ?_, by rw [if_pos hChars]; rfl⟩
    rw [← hChars]
    unfold front
    split
    · rename_i tail hClose
      -- no type starts with a closing parenthesis
      rw [hClose] at hScan
      unfold scan at hScan
      simp at hScan
    · rw [hScan]
      rfl

end FieldType

-- ---------------------------------------------------------------------------
-- Types of methods
-- ---------------------------------------------------------------------------

namespace MethodType

variable {text rest : List Char} {t : MethodType}

/-- All types in the type of a method are well formed. -/
def WellFormed (t : MethodType) : Prop :=
  (∀ p ∈ t.parameters, p.WellFormed) ∧ t.returns.WellFormed

instance (t : MethodType) : Decidable t.WellFormed := inferInstanceAs (Decidable (_ ∧ _))

/-- The names of the classes, in order. -/
def classNames (t : MethodType) : List String :=
  t.parameters.flatMap FieldType.classNames ++ t.returns.classNames

/-- A scan takes the written forms of well-formed types and the closing parenthesis off the text. -/
theorem scanParameters_eq_ok {parameters : List FieldType} :
    scanParameters text = .ok (parameters, rest) ↔
      (∀ p ∈ parameters, p.WellFormed) ∧
        text = parameters.flatMap FieldType.toChars ++ ')' :: rest := by
  induction text using scanParameters.induct generalizing parameters with
  | case1 =>
    rw [scanParameters]
    simp
  | case2 tail =>
    rw [scanParameters]
    cases parameters with
    | nil => simp
    | cons p more =>
      -- no type starts with a closing parenthesis
      obtain ⟨c, chars, hChars, hClose, -⟩ := p.toChars_eq_cons
      simp [hChars, Ne.symm hClose]
  | case3 c tail hClose fault hScan =>
    have hError : scanParameters (c :: tail) = .error fault := by
      rw [scanParameters]
      · split
        · rename_i hOther
          exact congrArg _ (Except.error.inj (hOther.symm.trans hScan))
        · rename_i hOk
          cases hOk.symm.trans hScan
      · exact hClose
    have hNot : ¬ ((∀ p ∈ parameters, p.WellFormed) ∧
        c :: tail = parameters.flatMap FieldType.toChars ++ ')' :: rest) := by
      rintro ⟨hWell, hText⟩
      cases parameters with
      | nil => exact hClose (List.cons.inj hText).1
      | cons p more =>
        rw [List.flatMap_cons, List.append_assoc] at hText
        rw [FieldType.scan_eq_ok.2 ⟨hWell p List.mem_cons_self, hText⟩] at hScan
        cases hScan
    rw [hError]
    constructor
    · rintro ⟨⟩
    · exact fun h => absurd h hNot
  | case4 c tail hClose first after hScan ih =>
    have hStep : scanParameters (c :: tail) =
        (scanParameters after).map fun found => (first :: found.1, found.2) := by
      rw [scanParameters]
      · split
        · rename_i hError
          cases hError.symm.trans hScan
        · rename_i hOk
          cases hOk.symm.trans hScan
          rfl
      · exact hClose
    obtain ⟨hFirst, hText⟩ := FieldType.scan_eq_ok.1 hScan
    rw [hStep]
    constructor
    · intro h
      obtain ⟨⟨more, _⟩, hMore, hEq⟩ := map_ok_iff.1 h
      cases hEq
      obtain ⟨hWell, hAfter⟩ := ih.1 hMore
      refine ⟨List.forall_mem_cons.2 ⟨hFirst, hWell⟩, ?_⟩
      rw [hText, hAfter, List.flatMap_cons, List.append_assoc]
    · rintro ⟨hWell, hAll⟩
      cases parameters with
      | nil => exact absurd (List.cons.inj hAll).1 hClose
      | cons p more =>
        obtain ⟨hHead, hMore⟩ := List.forall_mem_cons.1 hWell
        rw [List.flatMap_cons, List.append_assoc] at hAll
        cases hScan.symm.trans (FieldType.scan_eq_ok.2 ⟨hHead, hAll⟩)
        rw [ih.2 ⟨hMore, rfl⟩]
        rfl

/-- A parser is the inverse of the written form. -/
theorem parse_eq_ok {text : String} :
    parse text = .ok t ↔ t.WellFormed ∧ t.toChars = text.toList := by
  unfold parse
  rw [bind_ok_iff]
  constructor
  · rintro ⟨found, hFront, h⟩
    split at h
    · rename_i hChars
      cases h
      refine ⟨?_, hChars⟩
      unfold front at hFront
      split at hFront
      · obtain ⟨⟨parameters, rest⟩, hParameters, hFront⟩ := bind_ok_iff.1 hFront
        dsimp only at hFront
        split at hFront
        · cases hFront
        · cases hFront
        · obtain ⟨⟨returns, _⟩, hReturns, hEq⟩ := bind_ok_iff.1 hFront
          cases hEq
          exact ⟨(scanParameters_eq_ok.1 hParameters).1, (FieldType.scan_eq_ok.1 hReturns).1⟩
      · cases hFront
    · cases h
  · rintro ⟨⟨hParameters, hReturns⟩, hChars⟩
    refine ⟨t, ?_, by rw [if_pos hChars]; rfl⟩
    rw [← hChars]
    obtain ⟨c, more, hHead, hClose, -⟩ := t.returns.toChars_eq_cons
    have hScan := FieldType.scan_eq_ok.2 ⟨hReturns, (List.append_nil t.returns.toChars).symm⟩
    show front ('(' :: (t.parameters.flatMap FieldType.toChars ++ ')' :: t.returns.toChars)) = _
    unfold front
    refine bind_ok_iff.2 ⟨_, scanParameters_eq_ok.2 ⟨hParameters, rfl⟩, ?_⟩
    rw [hHead] at hScan ⊢
    dsimp only
    split
    · rename_i hEq
      cases hEq
    · rename_i hEq
      exact absurd (List.cons.inj hEq).1 hClose
    · exact bind_ok_iff.2 ⟨_, hScan, rfl⟩

end MethodType

-- ---------------------------------------------------------------------------
-- Renaming types
-- ---------------------------------------------------------------------------

section Types

variable {f g : String → String}

namespace ElementType

variable {t : ElementType}

theorem wellFormed_rename (hf : ∀ x ∈ t.classNames, ';' ∉ (f x).toList) :
    (t.rename f).WellFormed := by
  cases t with
  | primitive p => trivial
  | object name => exact hf name List.mem_cons_self

theorem rename_rename (t : ElementType) : (t.rename f).rename g = t.rename (g ∘ f) := by
  cases t <;> rfl

theorem rename_id (t : ElementType) : t.rename id = t := by
  cases t <;> rfl

theorem rename_congr (hf : ∀ x ∈ t.classNames, f x = g x) : t.rename f = t.rename g := by
  cases t with
  | primitive p => rfl
  | object name => exact congrArg object (hf name List.mem_cons_self)

theorem classNames_rename (t : ElementType) : (t.rename f).classNames = t.classNames.map f := by
  cases t <;> rfl

theorem classNames_eq_nil (hText : 'L' ∉ t.toChars) : t.classNames = [] := by
  cases t with
  | primitive p => rfl
  | object name => exact absurd List.mem_cons_self hText

theorem not_mem_of_mem_classNames (hWell : t.WellFormed) {x : String} (hx : x ∈ t.classNames) :
    ';' ∉ x.toList := by
  cases t with
  | primitive p => cases hx
  | object name =>
    rw [List.mem_singleton.1 hx]
    exact hWell

end ElementType

namespace FieldType

variable {t : FieldType}

theorem wellFormed_rename (hWell : t.WellFormed) (hf : ∀ x ∈ t.classNames, ';' ∉ (f x).toList) :
    (t.rename f).WellFormed :=
  ⟨hWell.1, ElementType.wellFormed_rename hf⟩

theorem rename_rename (t : FieldType) : (t.rename f).rename g = t.rename (g ∘ f) :=
  congrArg (mk t.dimensions) t.element.rename_rename

theorem rename_id (t : FieldType) : t.rename id = t :=
  congrArg (mk t.dimensions) t.element.rename_id

theorem rename_congr (hf : ∀ x ∈ t.classNames, f x = g x) : t.rename f = t.rename g :=
  congrArg (mk t.dimensions) (ElementType.rename_congr hf)

theorem rename_of_fixed (hf : ∀ x ∈ t.classNames, f x = x) : t.rename f = t :=
  (rename_congr hf).trans t.rename_id

theorem classNames_rename (t : FieldType) : (t.rename f).classNames = t.classNames.map f :=
  t.element.classNames_rename

theorem classNames_eq_nil (hText : 'L' ∉ t.toChars) : t.classNames = [] :=
  ElementType.classNames_eq_nil fun hMem => hText (List.mem_append_right _ hMem)

end FieldType

namespace MethodType

variable {t : MethodType}

theorem wellFormed_rename (hWell : t.WellFormed) (hf : ∀ x ∈ t.classNames, ';' ∉ (f x).toList) :
    (t.rename f).WellFormed := by
  obtain ⟨hParameters, hReturns⟩ := List.forall_mem_append.1 hf
  refine ⟨?_, FieldType.wellFormed_rename hWell.2 hReturns⟩
  intro renamed hMem
  obtain ⟨p, hp, rfl⟩ := List.mem_map.1 hMem
  exact FieldType.wellFormed_rename (hWell.1 p hp)
    fun x hx => hParameters x (List.mem_flatMap.2 ⟨p, hp, hx⟩)

theorem rename_rename (t : MethodType) : (t.rename f).rename g = t.rename (g ∘ f) := by
  unfold rename
  rw [List.map_map, FieldType.rename_rename]
  congr 1
  exact List.map_congr_left fun p _ => p.rename_rename

theorem rename_id (t : MethodType) : t.rename id = t := by
  unfold rename
  rw [FieldType.rename_id]
  congr 1
  exact (List.map_congr_left fun p _ => p.rename_id).trans (List.map_id _)

theorem rename_congr (hf : ∀ x ∈ t.classNames, f x = g x) : t.rename f = t.rename g := by
  obtain ⟨hParameters, hReturns⟩ := List.forall_mem_append.1 hf
  unfold rename
  rw [FieldType.rename_congr hReturns]
  congr 1
  refine List.map_congr_left fun p hp => ?_
  exact FieldType.rename_congr fun x hx => hParameters x (List.mem_flatMap.2 ⟨p, hp, hx⟩)

theorem rename_of_fixed (hf : ∀ x ∈ t.classNames, f x = x) : t.rename f = t :=
  (rename_congr hf).trans t.rename_id

theorem classNames_rename (t : MethodType) : (t.rename f).classNames = t.classNames.map f := by
  rw [classNames, rename, List.flatMap_map, FieldType.classNames_rename, classNames, List.map_append,
    List.map_flatMap]
  congr 2
  exact funext fun p => p.classNames_rename

theorem classNames_eq_nil (hText : 'L' ∉ t.toChars) : t.classNames = [] := by
  have hParts : 'L' ∉ t.parameters.flatMap FieldType.toChars ++ ')' :: t.returns.toChars :=
    fun hMem => hText (List.mem_cons_of_mem _ hMem)
  rw [List.mem_append, not_or, List.mem_flatMap] at hParts
  unfold classNames
  rw [FieldType.classNames_eq_nil fun hMem => hParts.2 (List.mem_cons_of_mem _ hMem),
    List.append_nil, List.flatMap_eq_nil_iff]
  exact fun p hp => FieldType.classNames_eq_nil fun hMem => hParts.1 ⟨p, hp, hMem⟩

end MethodType

end Types

-- ---------------------------------------------------------------------------
-- Renaming descriptors
-- ---------------------------------------------------------------------------

namespace Descriptor

variable {f g : String → String} {text : String}

/-- The names of the classes of a field or method descriptor; a text that is none has no classes. -/
def classNames (text : String) : List String :=
  match MethodType.parse text with
  | .ok t => t.classNames
  | .error _ =>
    match FieldType.parse text with
    | .ok t => t.classNames
    | .error _ => []

theorem startsWith_parenthesis {c : Char} {more : List Char} (hText : text.toList = c :: more) :
    Text.startsWith text "(" = decide ('(' = c) := by
  have hWord : "(".toList = ['('] := rfl
  rw [Text.startsWith, Text.stripPrefix?, hWord, hText, Text.afterPrefix?, Text.afterPrefix?]
  by_cases hOpen : '(' = c
  · rw [if_pos hOpen, decide_eq_true hOpen]
    rfl
  · rw [if_neg hOpen, decide_eq_false hOpen]
    rfl

theorem rename_of_method {t : MethodType} (hParse : MethodType.parse text = .ok t) :
    rename f text = toString (t.rename f) := by
  obtain ⟨-, hChars⟩ := MethodType.parse_eq_ok.1 hParse
  have hStart : Text.startsWith text "(" = true := startsWith_parenthesis hChars.symm
  unfold rename
  rw [hStart, if_pos rfl, hParse]
  split
  · rename_i hNoClass
    have hMem : 'L' ∉ t.toChars := by simpa [hChars, Text.hasChar] using hNoClass
    rw [MethodType.rename_of_fixed (by simp [MethodType.classNames_eq_nil hMem])]
    exact (String.ofList_toList.symm.trans (congrArg String.ofList hChars.symm))
  · rfl

theorem rename_of_field {t : FieldType} (hParse : FieldType.parse text = .ok t) :
    rename f text = toString (t.rename f) := by
  obtain ⟨-, hChars⟩ := FieldType.parse_eq_ok.1 hParse
  obtain ⟨c, more, hHead, -, hOpen⟩ := t.toChars_eq_cons
  have hStart : Text.startsWith text "(" = false := by
    rw [startsWith_parenthesis (hChars.symm.trans hHead), decide_eq_false_iff_not]
    exact Ne.symm hOpen
  unfold rename
  rw [hStart, if_neg Bool.false_ne_true, hParse]
  split
  · rename_i hNoClass
    have hMem : 'L' ∉ t.toChars := by simpa [hChars, Text.hasChar] using hNoClass
    rw [FieldType.rename_of_fixed (by simp [FieldType.classNames_eq_nil hMem])]
    exact (String.ofList_toList.symm.trans (congrArg String.ofList hChars.symm))
  · rfl

/-- A text is the written form of a type of a method or of a field, or a renaming leaves it alone. -/
theorem rename_cases (text : String) :
    (∃ t, MethodType.parse text = .ok t ∧ classNames text = t.classNames ∧
      ∀ f, rename f text = toString (t.rename f)) ∨
    (∃ t, FieldType.parse text = .ok t ∧ classNames text = t.classNames ∧
      ∀ f, rename f text = toString (t.rename f)) ∨
    (classNames text = [] ∧ ∀ f, rename f text = text) := by
  cases hMethod : MethodType.parse text with
  | ok t =>
    exact .inl ⟨t, rfl, by rw [classNames, hMethod], fun f => rename_of_method hMethod⟩
  | error methodFault =>
    cases hField : FieldType.parse text with
    | ok t =>
      exact .inr (.inl ⟨t, rfl, by rw [classNames, hMethod, hField], fun f => rename_of_field hField⟩)
    | error fieldFault =>
      refine .inr (.inr ⟨by rw [classNames, hMethod, hField], fun f => ?_⟩)
      rw [rename, hMethod, hField]
      simp only [ite_self]

theorem classNames_of_not_mem (hText : 'L' ∉ text.toList) : classNames text = [] := by
  rcases rename_cases text with ⟨t, hParse, hNames, -⟩ | ⟨t, hParse, hNames, -⟩ | ⟨hNames, -⟩
  · rw [hNames]
    exact MethodType.classNames_eq_nil (by rwa [(MethodType.parse_eq_ok.1 hParse).2])
  · rw [hNames]
    exact FieldType.classNames_eq_nil (by rwa [(FieldType.parse_eq_ok.1 hParse).2])
  · exact hNames

/-- **Renaming twice is renaming once**, if no new name breaks a descriptor. -/
theorem rename_rename (hf : ∀ x ∈ classNames text, ';' ∉ (f x).toList) :
    rename g (rename f text) = rename (g ∘ f) text := by
  rcases rename_cases text with ⟨t, hParse, hNames, hRename⟩ | ⟨t, hParse, hNames, hRename⟩ |
    ⟨-, hRename⟩
  · rw [hNames] at hf
    have hWell := MethodType.wellFormed_rename (MethodType.parse_eq_ok.1 hParse).1 hf
    rw [hRename, hRename, ← MethodType.rename_rename]
    exact rename_of_method (MethodType.parse_eq_ok.2 ⟨hWell, String.toList_ofList.symm⟩)
  · rw [hNames] at hf
    have hWell := FieldType.wellFormed_rename (FieldType.parse_eq_ok.1 hParse).1 hf
    rw [hRename, hRename, ← FieldType.rename_rename]
    exact rename_of_field (FieldType.parse_eq_ok.2 ⟨hWell, String.toList_ofList.symm⟩)
  · rw [hRename, hRename, hRename]

/-- Renamings that agree on the classes of a descriptor rename it alike. -/
theorem rename_congr (hf : ∀ x ∈ classNames text, f x = g x) : rename f text = rename g text := by
  rcases rename_cases text with ⟨t, -, hNames, hRename⟩ | ⟨t, -, hNames, hRename⟩ | ⟨-, hRename⟩
  · rw [hNames] at hf
    rw [hRename, hRename, MethodType.rename_congr hf]
  · rw [hNames] at hf
    rw [hRename, hRename, FieldType.rename_congr hf]
  · rw [hRename, hRename]

/-- A renaming that keeps the classes of a descriptor keeps the descriptor. -/
theorem rename_of_fixed (hf : ∀ x ∈ classNames text, f x = x) : rename f text = text := by
  have hText : ∀ chars : List Char, chars = text.toList → String.ofList chars = text := by
    rintro _ rfl
    exact String.ofList_toList
  rcases rename_cases text with ⟨t, hParse, hNames, hRename⟩ | ⟨t, hParse, hNames, hRename⟩ |
    ⟨-, hRename⟩
  · rw [hNames] at hf
    rw [hRename, MethodType.rename_of_fixed hf]
    exact hText _ (MethodType.parse_eq_ok.1 hParse).2
  · rw [hNames] at hf
    rw [hRename, FieldType.rename_of_fixed hf]
    exact hText _ (FieldType.parse_eq_ok.1 hParse).2
  · exact hRename f

theorem classNames_of_method {t : MethodType} (hParse : MethodType.parse text = .ok t) :
    classNames text = t.classNames := by
  rw [classNames, hParse]

/-- No text is both the descriptor of a method and that of a field. -/
theorem classNames_of_field {t : FieldType} (hParse : FieldType.parse text = .ok t) :
    classNames text = t.classNames := by
  cases hMethod : MethodType.parse text with
  | ok other =>
    obtain ⟨c, more, hHead, -, hOpen⟩ := t.toChars_eq_cons
    have hChars := (MethodType.parse_eq_ok.1 hMethod).2.trans (FieldType.parse_eq_ok.1 hParse).2.symm
    rw [hHead] at hChars
    exact absurd (List.cons.inj hChars).1.symm hOpen
  | error fault => rw [classNames, hMethod, hParse]

/-- The classes of a renamed descriptor, if no new name breaks it. -/
theorem classNames_rename (hf : ∀ x ∈ classNames text, ';' ∉ (f x).toList) :
    classNames (rename f text) = (classNames text).map f := by
  rcases rename_cases text with ⟨t, hParse, hNames, hRename⟩ | ⟨t, hParse, hNames, hRename⟩ |
    ⟨hNames, hRename⟩
  · rw [hNames] at hf
    have hWell := MethodType.wellFormed_rename (MethodType.parse_eq_ok.1 hParse).1 hf
    rw [hNames, hRename, ← MethodType.classNames_rename]
    exact classNames_of_method (MethodType.parse_eq_ok.2 ⟨hWell, String.toList_ofList.symm⟩)
  · rw [hNames] at hf
    have hWell := FieldType.wellFormed_rename (FieldType.parse_eq_ok.1 hParse).1 hf
    rw [hNames, hRename, ← FieldType.classNames_rename]
    exact classNames_of_field (FieldType.parse_eq_ok.2 ⟨hWell, String.toList_ofList.symm⟩)
  · rw [hRename, hNames]
    rfl

/-- **Two renamings give one descriptor only if they agree on its classes.** -/
theorem rename_eq_rename_iff (hf : ∀ x ∈ classNames text, ';' ∉ (f x).toList)
    (hg : ∀ x ∈ classNames text, ';' ∉ (g x).toList) :
    rename f text = rename g text ↔ ∀ x ∈ classNames text, f x = g x := by
  constructor
  · intro hSame
    rw [← List.map_inj_left, ← classNames_rename hf, ← classNames_rename hg, hSame]
  · exact rename_congr

/-- The name of a class in a descriptor ends at the first `;`. -/
theorem not_mem_of_mem_classNames {x : String} (hx : x ∈ classNames text) : ';' ∉ x.toList := by
  rcases rename_cases text with ⟨t, hParse, hNames, -⟩ | ⟨t, hParse, hNames, -⟩ | ⟨hNames, -⟩
  · obtain ⟨⟨hParameters, hReturns⟩, -⟩ := MethodType.parse_eq_ok.1 hParse
    rw [hNames, MethodType.classNames, List.mem_append, List.mem_flatMap] at hx
    rcases hx with ⟨p, hp, hx⟩ | hx
    · exact ElementType.not_mem_of_mem_classNames (hParameters p hp).2 hx
    · exact ElementType.not_mem_of_mem_classNames hReturns.2 hx
  · obtain ⟨hWell, -⟩ := FieldType.parse_eq_ok.1 hParse
    rw [hNames] at hx
    exact ElementType.not_mem_of_mem_classNames hWell.2 hx
  · rw [hNames] at hx
    cases hx

end Descriptor

end Jarsmith
