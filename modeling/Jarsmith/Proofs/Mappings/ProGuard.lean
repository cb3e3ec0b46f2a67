import Jarsmith.Mappings.ProGuard
import Jarsmith.Proofs.Mappings.JavaType
import Jarsmith.Proofs.Mappings.Rows

/-!
# ProGuard files

A line for each row of a table, comments and blank lines anywhere between them. A line of a member is
cut at its first arrow, which is the wrong one if a field is called `->`.

* `Writes`, `IsSilent` — the lines of a file.
* `step_silent`, `step_classLine`, `step_member` — what a line does.
* `readMember_field`, `readMember_method` — what a member says.
* `takesRows` — what a line does to a reader that stands in the class of the line.
* `parse_written` — a file is read as the table that was written.
* `parse_arrowField` — a field that is called `->` cannot be read.
-/

namespace Jarsmith.Mappings.ProGuard

variable {p : Progress} {name named owner indent numbers rest line : String} {r : Row}
  {rows : List Row} {type : FieldType}

-- ---------------------------------------------------------------------------
-- Tables that can be written
-- ---------------------------------------------------------------------------

/-- A descriptor of a field that has a source form. -/
def IsFieldDescriptor (d : String) : Prop :=
  ∃ t : FieldType, FieldType.parse d = .ok t ∧ t.HasTypeNames

/-- A descriptor of a method that has a source form. -/
def IsMethodDescriptor (d : String) : Prop :=
  ∃ t : MethodType, MethodType.parse d = .ok t ∧ t.HasTypeNames

/-- The names and the descriptor of a row have a source form. -/
def IsPrintable : Row → Prop
  | .ofClass name named => IsName name ∧ IsName named
  | .ofMember _ (.field key named) => (IsName key.name ∧ IsName named) ∧
      ∃ d, key.descriptor = some d ∧ IsFieldDescriptor d
  | .ofMember _ (.method key named) => (IsName key.name ∧ IsName named) ∧
      IsMethodDescriptor key.descriptor

/-- The row is no field that is called like the arrow between the two names of a line. -/
def IsNoArrow : Row → Prop
  | .ofMember _ (.field key _) => key.name ≠ "->"
  | _ => True

instance (d : String) : Decidable (IsFieldDescriptor d) :=
  match hParse : FieldType.parse d with
  | .ok t => decidable_of_iff t.HasTypeNames
      ⟨fun hNames => ⟨t, hParse, hNames⟩, fun ⟨u, hSame, hNames⟩ => by
        cases hParse.symm.trans hSame
        exact hNames⟩
  | .error _ => isFalse fun ⟨_, hSame, _⟩ => nomatch hParse.symm.trans hSame

instance (d : String) : Decidable (IsMethodDescriptor d) :=
  match hParse : MethodType.parse d with
  | .ok t => decidable_of_iff t.HasTypeNames
      ⟨fun hNames => ⟨t, hParse, hNames⟩, fun ⟨u, hSame, hNames⟩ => by
        cases hParse.symm.trans hSame
        exact hNames⟩
  | .error _ => isFalse fun ⟨_, hSame, _⟩ => nomatch hParse.symm.trans hSame

instance : DecidablePred IsPrintable
  | .ofClass _ _ => inferInstanceAs (Decidable (_ ∧ _))
  | .ofMember _ (.field ⟨_, none⟩ _) => isFalse fun ⟨_, _, hNone, _⟩ => nomatch hNone
  | .ofMember _ (.field ⟨name, some d⟩ named) =>
    decidable_of_iff ((IsName name ∧ IsName named) ∧ IsFieldDescriptor d)
      ⟨fun ⟨hNames, hd⟩ => ⟨hNames, d, rfl, hd⟩, fun ⟨hNames, _, hSame, hd⟩ => by
        cases hSame
        exact ⟨hNames, hd⟩⟩
  | .ofMember _ (.method _ _) => inferInstanceAs (Decidable (_ ∧ _))

instance : DecidablePred IsNoArrow
  | .ofClass _ _ => inferInstanceAs (Decidable True)
  | .ofMember _ (.field _ _) => inferInstanceAs (Decidable (_ ≠ _))
  | .ofMember _ (.method _ _) => inferInstanceAs (Decidable True)

-- ---------------------------------------------------------------------------
-- Lines
-- ---------------------------------------------------------------------------

/-- What stands in front of a member: blanks, at least one. -/
def IsIndent (indent : String) : Prop := indent ≠ "" ∧ ∀ c ∈ indent.toList, c = ' ' ∨ c = '\t'

/-- What is taken for numbers of source lines: digits and colons. -/
def IsNumbers (numbers : String) : Prop := ∀ c ∈ numbers.toList, c.isDigit = true ∨ c = ':'

instance (indent : String) : Decidable (IsIndent indent) := inferInstanceAs (Decidable (_ ∧ _))

instance (numbers : String) : Decidable (IsNumbers numbers) :=
  inferInstanceAs (Decidable (∀ _ ∈ _, _))

/-- The line of a class. -/
def classLine (name named : String) : String := dotted name ++ " -> " ++ dotted named ++ ":"

/-- The line of a member whose name and arguments are `rest`, without its indentation. -/
def memberText (numbers : String) (type : FieldType) (rest named : String) : String :=
  numbers ++ type.source ++ " " ++ rest ++ " -> " ++ named

/-- The arguments of a method, without parentheses. -/
def arguments (types : List FieldType) : String := Text.columns ',' (types.map FieldType.source)

/-- The name of a method with its arguments. -/
def called (name : String) (types : List FieldType) : String :=
  name ++ "(" ++ arguments types ++ ")"

/-- The lines that write a row. -/
inductive Writes : Row → String → Prop where
  | ofClass {name named : String} :
      Writes (.ofClass name named) (classLine name named)
  | field {owner indent numbers name named d : String} {t : FieldType} :
      FieldType.parse d = .ok t → IsIndent indent → IsNumbers numbers →
        Writes (.ofMember owner (.field ⟨name, some d⟩ named))
          (indent ++ memberText numbers t name named)
  | method {owner indent numbers name named d : String} {t : MethodType} :
      MethodType.parse d = .ok t → IsIndent indent → IsNumbers numbers →
        Writes (.ofMember owner (.method ⟨name, d⟩ named))
          (indent ++ memberText numbers t.returns (called name t.parameters) named)

/-- Comments and blank lines. -/
def IsSilent (line : String) : Prop :=
  '\n' ∉ line.toList ∧
    (Text.isBlankText line = true ∨ Text.startsWith (Text.trimStart line) "#" = true)

instance (line : String) : Decidable (IsSilent line) := inferInstanceAs (Decidable (_ ∧ _))

-- ---------------------------------------------------------------------------
-- Lines without effect
-- ---------------------------------------------------------------------------

theorem isComment_iff : Text.startsWith (Text.trimStart line) "#" = true ↔
    ∃ front rest, line.toList = front ++ '#' :: rest ∧ ∀ c ∈ front, Text.isBlank c = true := by
  have hChars : (Text.trimStart line).toList = line.toList.dropWhile Text.isBlank :=
    String.toList_ofList
  rw [Text.startsWith_iff, hChars]
  constructor
  · rintro ⟨rest, hRest⟩
    refine ⟨line.toList.takeWhile Text.isBlank, rest, ?_, fun c hc => List.mem_takeWhile_imp hc⟩
    have hBack : '#' :: rest = line.toList.dropWhile Text.isBlank := hRest
    rw [hBack, List.takeWhile_append_dropWhile]
  · rintro ⟨front, rest, hLine, hFront⟩
    refine ⟨rest, ?_⟩
    rw [hLine, List.dropWhile_append_of_pos hFront, List.dropWhile_cons_of_neg (by decide)]
    rfl

theorem step_silent (hSilent : IsSilent line) : step p line = .ok p := by
  obtain ⟨-, hBlank | hComment⟩ := hSilent
  · have hEnd : Text.trimEnd line = "" := by
      rw [Text.trimEnd, Text.dropBlanksEnd_blank hBlank]
    rw [step, hEnd]
    rfl
  · obtain ⟨front, rest, hLine, hFront⟩ := isComment_iff.1 hComment
    have hEnd : (Text.trimEnd line).toList = front ++ '#' :: Text.dropBlanksEnd rest := by
      rw [Text.trimEnd, String.toList_ofList, hLine, Text.dropBlanksEnd_append (by decide)]
    have hStart := isComment_iff.2 ⟨front, _, hEnd, hFront⟩
    rw [step, hStart, Bool.or_true]
    rfl

/-- A carriage return at the end of a line does not matter. -/
theorem step_withoutReturn :
    step p (String.ofList (Text.withoutReturn line.toList)) = step p line := by
  have hEnd : Text.trimEnd (String.ofList (Text.withoutReturn line.toList)) =
      Text.trimEnd line := by
    rw [Text.trimEnd, String.toList_ofList, Text.dropBlanksEnd_withoutReturn, Text.trimEnd]
  rw [step, step, hEnd]

-- ---------------------------------------------------------------------------
-- Cuts
-- ---------------------------------------------------------------------------

/-- The first arrow of a line stands behind its two columns, unless the second one is an arrow. -/
theorem cutWord?_arrow {front second named : List Char} (hFront : ' ' ∉ front)
    (hSecond : ' ' ∉ second) (hArrow : second ≠ ['-', '>']) :
    Text.cutWord? [' ', '-', '>', ' ']
        (front ++ ' ' :: (second ++ ([' ', '-', '>', ' '] ++ named))) =
      some (front ++ ' ' :: second, named) := by
  have hNone : Text.afterPrefix? [' ', '-', '>', ' ']
      (' ' :: (second ++ ([' ', '-', '>', ' '] ++ named))) = none := by
    -- the blank behind the first column opens an arrow only if the second column is one
    refine Option.eq_none_iff_forall_ne_some.2 fun after hAfter => hArrow ?_
    have hText := Text.afterPrefix?_eq_some.1 hAfter
    have hSecondCut : Text.cutFirst? ' ' (second ++ ([' ', '-', '>', ' '] ++ named)) =
        some (second, ['-', '>', ' '] ++ named) := Text.cutFirst?_eq_some.2 ⟨hSecond, rfl⟩
    have hArrowCut : Text.cutFirst? ' ' (second ++ ([' ', '-', '>', ' '] ++ named)) =
        some (['-', '>'], after) :=
      Text.cutFirst?_eq_some.2 ⟨by decide, (List.cons.inj hText).2⟩
    rw [hSecondCut, Option.some.injEq, Prod.mk.injEq] at hArrowCut
    exact hArrowCut.1
  rw [Text.cutWord?_append hFront, Text.cutWord?, hNone]
  dsimp only
  rw [Text.cutWord?_append hSecond, Text.cutWord?_self]
  simp

/-- The first two columns of a line of a member are a signature, the last one the other name. -/
theorem splitWord?_member {front second : String} (hFront : ' ' ∉ front.toList)
    (hSecond : ' ' ∉ second.toList) (hArrow : second ≠ "->") :
    Text.splitWord? " -> " (front ++ " " ++ second ++ " -> " ++ named) =
      some (front ++ " " ++ second, named) := by
  have hChars : (front ++ " " ++ second ++ " -> " ++ named).toList = front.toList ++
      ' ' :: (second.toList ++ ([' ', '-', '>', ' '] ++ named.toList)) := by
    simp [String.toList_append]
  have hOther : second.toList ≠ ['-', '>'] := by
    rw [ne_eq, ← String.toList_ofList (l := ['-', '>']), String.toList_inj]
    exact hArrow
  have hCut : Text.cutWord? " -> ".toList (front ++ " " ++ second ++ " -> " ++ named).toList =
      some (front.toList ++ ' ' :: second.toList, named.toList) := by
    rw [hChars]
    exact cutWord?_arrow hFront hSecond hOther
  have hSignature : String.ofList (front.toList ++ ' ' :: second.toList) =
      front ++ " " ++ second := by
    rw [← String.toList_inj]
    simp [String.toList_append]
  rw [Text.splitWord?, hCut]
  simp only [Option.map_some, hSignature, String.ofList_toList]

/-- The arrow of a line of a class is its only one. -/
theorem splitWord?_class {front : String} (hFront : ' ' ∉ front.toList) :
    Text.splitWord? " -> " (front ++ " -> " ++ named) = some (front, named) := by
  have hCut : Text.cutWord? [' ', '-', '>', ' '] (front ++ " -> " ++ named).toList =
      some (front.toList, named.toList) := by
    have hChars : (front ++ " -> " ++ named).toList =
        front.toList ++ ([' ', '-', '>', ' '] ++ named.toList) := by simp [String.toList_append]
    rw [hChars, Text.cutWord?_append hFront, Text.cutWord?_self, Option.map_some, List.append_nil]
  have hWord : " -> ".toList = [' ', '-', '>', ' '] := rfl
  rw [Text.splitWord?, hWord, hCut]
  simp only [Option.map_some, String.ofList_toList]

-- ---------------------------------------------------------------------------
-- Classes
-- ---------------------------------------------------------------------------

/-- A line with something at its end and without comment is the line of a member if it is indented,
or else the line of a class. -/
theorem step_line (hEnd : Text.EndsInk line.toList) (hHash : '#' ∉ line.toList) :
    step p line =
      if Text.startsWith line " " || Text.startsWith line "\t" then
        match p.owner with
        | some owner => readMember p owner (Text.trim line)
        | none => .error .memberBeforeClass
      else readClass p line := by
  have hComment : Text.startsWith (Text.trimStart line) "#" = false := by
    rw [Bool.eq_false_iff]
    intro hStart
    obtain ⟨front, rest, hLine, -⟩ := isComment_iff.1 hStart
    exact hHash (hLine ▸ List.mem_append_right _ List.mem_cons_self)
  rw [step, hEnd.trimEnd_eq, hEnd.isBlankText, hComment]
  rfl

theorem classLine_eq :
    classLine name named = Text.columns ' ' [dotted name, "->", dotted named ++ ":"] := by
  rw [← String.toList_inj]
  simp [classLine, Text.columns, Text.join, String.toList_append]

theorem isLine_classLine (hName : IsName name) (hNamed : IsName named) :
    IsLine (classLine name named) ∧ '#' ∉ (classLine name named).toList := by
  rw [classLine_eq]
  refine isLine_columns ' ' (by decide) (List.cons_ne_nil _ _) ?_
  have hArrow : IsColumn "->" := by decide
  simp [isColumn_dotted hName, hArrow, (isColumn_dotted hNamed).append_right (b := ":") (by decide)]

theorem internalName_dotted (hName : IsName name) : internalName (dotted name) = name := by
  rw [internalName, (isColumn_dotted hName).isWord.trim_eq, replace_dotted hName]

theorem readClass_classLine (hName : IsName name) (hNamed : IsName named) :
    readClass p (classLine name named) = .ok ⟨p.set.addClass name named, some name⟩ := by
  have hColon : Text.stripSuffix? ":" (classLine name named) =
      some (dotted name ++ " -> " ++ dotted named) := Text.stripSuffix?_append
  rw [readClass, hColon, Option.bind_some,
    splitWord?_class ((isColumn_dotted hName).not_mem (by decide))]
  dsimp only
  rw [internalName_dotted hName, internalName_dotted hNamed]

theorem step_classLine (hName : IsName name) (hNamed : IsName named) :
    step p (classLine name named) = .ok ⟨p.set.addClass name named, some name⟩ := by
  obtain ⟨hLine, hHash⟩ := isLine_classLine hName hNamed
  have hInk : Text.StartsInk (classLine name named).toList := by
    rw [classLine_eq]
    exact Text.startsInk_columns (isColumn_dotted hName).isWord
  have hSpace : Text.startsWith (classLine name named) " " = false :=
    hInk.startsWith_eq_false (b := ' ') (by decide) rfl
  have hTab : Text.startsWith (classLine name named) "\t" = false :=
    hInk.startsWith_eq_false (b := '\t') (by decide) rfl
  rw [step_line hLine.2 hHash, hSpace, hTab, Bool.or_self, if_neg Bool.false_ne_true,
    readClass_classLine hName hNamed]

-- ---------------------------------------------------------------------------
-- Members
-- ---------------------------------------------------------------------------

theorem memberText_eq : memberText numbers type rest named =
    Text.columns ' ' [numbers ++ type.source, rest, "->", named] := by
  rw [← String.toList_inj]
  simp [memberText, Text.columns, Text.join, String.toList_append]

theorem isInk_of_isDigit {c : Char} (hDigit : c.isDigit = true) : IsInk c := by
  rw [Char.isDigit, Bool.and_eq_true, decide_eq_true_eq, decide_eq_true_eq] at hDigit
  have hLow : 48 ≤ c.toNat := hDigit.1
  have hHigh : c.toNat ≤ 57 := hDigit.2
  refine ⟨?_, ?_⟩
  · simp [Text.isBlank]
    omega
  · rintro rfl
    exact absurd hLow (by decide)

theorem isColumn_front (hNumbers : IsNumbers numbers) (hType : type.HasTypeNames) :
    IsColumn (numbers ++ type.source) := by
  refine .append_left (fun c hc => ?_) (FieldType.isColumn_source hType)
  obtain hDigit | rfl := hNumbers c hc
  · exact isInk_of_isDigit hDigit
  · decide

/-- A signature is cut into its type and what follows it, whatever numbers stand in front. -/
theorem splitFirst?_signature (hNumbers : IsNumbers numbers) (hType : type.HasTypeNames) :
    Text.splitFirst? ' ' (String.ofList
        ((numbers ++ type.source ++ " " ++ rest).toList.dropWhile fun c => c.isDigit || c == ':')) =
      some (type.source, rest) := by
  -- the numbers are dropped, and the first character of the type stops that
  obtain ⟨c, more, hChars, -⟩ := (FieldType.isColumn_source hType).isWord.startsInk
  have hFirst : (c.isDigit || c == ':') = false := by
    have hDigit : c.isDigit = false := FieldType.isDigit_source hType c (by rw [hChars]; rfl)
    have hColon : c ≠ ':' := by
      rintro rfl
      have hSign : ¬ IsSourceChar ':' := by decide
      exact hSign (FieldType.isSourceChar_of_mem hType _ (hChars ▸ List.mem_cons_self))
    rw [hDigit, Bool.false_or, beq_eq_false_iff_ne]
    exact hColon
  have hText : (numbers ++ type.source ++ " " ++ rest).toList =
      numbers.toList ++ (type.source.toList ++ ' ' :: rest.toList) := by
    simp [String.toList_append]
  have hDrop : (numbers ++ type.source ++ " " ++ rest).toList.dropWhile
      (fun c => c.isDigit || c == ':') = type.source.toList ++ ' ' :: rest.toList := by
    rw [hText, List.dropWhile_append_of_pos, hChars, List.cons_append,
      List.dropWhile_cons_of_neg (by simp [hFirst])]
    exact fun d hd => by simpa using hNumbers d hd
  refine Text.splitFirst?_append ((FieldType.isColumn_source hType).not_mem (by decide)) ?_
  rw [String.toList_ofList, hDrop]

theorem splitWord?_memberText (hNumbers : IsNumbers numbers) (hType : type.HasTypeNames)
    (hRest : IsColumn rest) (hArrow : rest ≠ "->") :
    Text.splitWord? " -> " (memberText numbers type rest named) =
      some (numbers ++ type.source ++ " " ++ rest, named) :=
  splitWord?_member ((isColumn_front hNumbers hType).not_mem (by decide))
    (hRest.not_mem (by decide)) hArrow

theorem readMember_field (hNumbers : IsNumbers numbers) (hType : type.HasTypeNames)
    (hName : IsName name) (hArrow : name ≠ "->") (hNamed : IsName named) :
    readMember p owner (memberText numbers type name named) =
      .ok { p with set := p.set.addField owner name (some (toString type)) named } := by
  have hField : Text.splitFirst? '(' name = none :=
    Text.splitFirst?_eq_none (hName.not_mem (by decide))
  rw [readMember, splitWord?_memberText hNumbers hType hName.isColumn hArrow]
  dsimp only
  rw [splitFirst?_signature hNumbers hType]
  dsimp only
  rw [hField, hNamed.isColumn.isWord.trim_eq, FieldType.descriptor_source hType]
  rfl

theorem arguments_chars {types : List FieldType} (hTypes : ∀ u ∈ types, u.HasTypeNames) :
    ∀ c ∈ (arguments types).toList, IsInk c := by
  intro c hMem
  obtain rfl | ⟨col, hCol, hc⟩ := Text.mem_columns hMem
  · decide
  · obtain ⟨u, hu, rfl⟩ := List.mem_map.1 hCol
    exact (FieldType.isColumn_source (hTypes u hu)).2 c hc

theorem isColumn_called {types : List FieldType} (hName : IsName name)
    (hTypes : ∀ u ∈ types, u.HasTypeNames) : IsColumn (called name types) :=
  ((hName.isColumn.append_right (by decide)).append_right (arguments_chars hTypes)).append_right
    (by decide)

/-- The arguments are cut into the types again. -/
theorem split_arguments {types : List FieldType} (hTypes : ∀ u ∈ types, u.HasTypeNames) :
    (Text.split ',' (arguments types)).filter (fun a => !Text.isBlankText a) =
      types.map FieldType.source := by
  cases types with
  | nil => rfl
  | cons first more =>
    have hSome : (first :: more).map FieldType.source ≠ [] := List.cons_ne_nil _ _
    rw [arguments, Text.split_columns hSome, List.filter_eq_self]
    · refine List.forall_mem_map.2 fun u hu => ?_
      rw [(FieldType.isColumn_source (hTypes u hu)).isWord.endsInk.isBlankText]
      rfl
    · refine List.forall_mem_map.2 fun u hu hMem => ?_
      have hComma : ¬ IsSourceChar ',' := by decide
      exact hComma (FieldType.isSourceChar_of_mem (hTypes u hu) _ hMem)

theorem toList_toString (t : FieldType) : (toString t).toList = t.toChars := String.toList_ofList

/-- The descriptor of the source form of a method. -/
theorem methodDescriptor_arguments {t : MethodType} (hType : t.HasTypeNames) :
    methodDescriptor (arguments t.parameters) t.returns.source = toString t := by
  have hDescriptors : (t.parameters.map FieldType.source).map JavaType.descriptor =
      t.parameters.map toString := by
    rw [List.map_map]
    exact List.map_congr_left fun u hu => FieldType.descriptor_source (hType.parameters u hu)
  have hJoin : (String.join (t.parameters.map toString)).toList =
      t.parameters.flatMap FieldType.toChars := by
    rw [String.toList_join, List.flatMap_map]
    simp only [toList_toString]
  have hWritten : (toString t).toList =
      '(' :: (t.parameters.flatMap FieldType.toChars ++ ')' :: t.returns.toChars) :=
    String.toList_ofList
  rw [methodDescriptor, split_arguments hType.parameters, hDescriptors,
    FieldType.descriptor_source hType.returns, ← String.toList_inj, hWritten]
  simp [String.toList_append, hJoin, toList_toString]

theorem readMember_method {t : MethodType} (hNumbers : IsNumbers numbers) (hType : t.HasTypeNames)
    (hName : IsName name) (hNamed : IsName named) :
    readMember p owner (memberText numbers t.returns (called name t.parameters) named) =
      .ok { p with set := p.set.addMethod owner name (toString t) named } := by
  have hChars : (called name t.parameters).toList =
      name.toList ++ '(' :: (arguments t.parameters ++ ")").toList := by
    simp [called, String.toList_append]
  have hArrow : called name t.parameters ≠ "->" := by
    intro hEq
    have hParenthesis : '(' ∈ (called name t.parameters).toList :=
      hChars ▸ List.mem_append_right _ List.mem_cons_self
    rw [hEq] at hParenthesis
    exact absurd hParenthesis (by decide)
  have hOpen : Text.splitFirst? '(' (called name t.parameters) =
      some (name, arguments t.parameters ++ ")") :=
    Text.splitFirst?_append (hName.not_mem (by decide)) hChars
  rw [readMember, splitWord?_memberText hNumbers hType.returns
    (isColumn_called hName hType.parameters) hArrow]
  dsimp only
  rw [splitFirst?_signature hNumbers hType.returns]
  dsimp only
  rw [hOpen]
  dsimp only
  rw [Text.stripSuffix?_append]
  dsimp only
  rw [methodDescriptor_arguments hType, hNamed.isColumn.isWord.trim_eq]
  rfl

-- ---------------------------------------------------------------------------
-- Lines of members
-- ---------------------------------------------------------------------------

theorem IsIndent.isBlank (hIndent : IsIndent indent) :
    ∀ c ∈ indent.toList, Text.isBlank c = true := by
  intro c hc
  obtain rfl | rfl := hIndent.2 c hc <;> decide

theorem isLine_memberText (hNumbers : IsNumbers numbers) (hType : type.HasTypeNames)
    (hRest : IsColumn rest) (hNamed : IsName named) :
    IsLine (memberText numbers type rest named) ∧
      '#' ∉ (memberText numbers type rest named).toList ∧
      Text.StartsInk (memberText numbers type rest named).toList := by
  have hFront := isColumn_front hNumbers hType
  have hArrow : IsColumn "->" := by decide
  rw [memberText_eq]
  have hCols : ∀ col ∈ [numbers ++ type.source, rest, "->", named], IsColumn col := by
    simp [hFront, hRest, hArrow, hNamed.isColumn]
  obtain ⟨hLine, hHash⟩ := isLine_columns ' ' (by decide) (List.cons_ne_nil _ _) hCols
  exact ⟨hLine, hHash, Text.startsInk_columns hFront.isWord⟩

theorem isLine_member (hIndent : IsIndent indent) (hNumbers : IsNumbers numbers)
    (hType : type.HasTypeNames) (hRest : IsColumn rest) (hNamed : IsName named) :
    IsLine (indent ++ memberText numbers type rest named) ∧
      '#' ∉ (indent ++ memberText numbers type rest named).toList := by
  obtain ⟨hLine, hHash, -⟩ := isLine_memberText hNumbers hType hRest hNamed
  have hFront : ∀ c, ¬ (c = ' ' ∨ c = '\t') → c ∉ indent.toList := fun c hc hMem =>
    hc (hIndent.2 c hMem)
  rw [IsLine, String.toList_append, List.mem_append, List.mem_append, not_or, not_or]
  exact ⟨⟨⟨hFront _ (by decide), hLine.1⟩, hLine.2.append⟩, hFront _ (by decide), hHash⟩

/-- A line of a member is read under the class before it, without its indentation. -/
theorem step_member (hIndent : IsIndent indent) (hNumbers : IsNumbers numbers)
    (hType : type.HasTypeNames) (hRest : IsColumn rest) (hNamed : IsName named)
    (hOwner : p.owner = some owner) :
    step p (indent ++ memberText numbers type rest named) =
      readMember p owner (memberText numbers type rest named) := by
  obtain ⟨hText, -, hInk⟩ := isLine_memberText hNumbers hType hRest hNamed
  obtain ⟨hLine, hHash⟩ := isLine_member hIndent hNumbers hType hRest hNamed
  have hTrim : Text.trim (indent ++ memberText numbers type rest named) =
      memberText numbers type rest named := by
    rw [Text.trim, Text.dropBlanks, String.toList_append,
      List.dropWhile_append_of_pos hIndent.isBlank, (hInk.span_eq fun _ h => h).2,
      hText.2.dropBlanksEnd_eq, String.ofList_toList]
  have hStart : (Text.startsWith (indent ++ memberText numbers type rest named) " " ||
      Text.startsWith (indent ++ memberText numbers type rest named) "\t") = true := by
    obtain ⟨c, more, hChars⟩ := List.exists_cons_of_ne_nil
      fun hNil => hIndent.1 (String.toList_eq_nil_iff.1 hNil)
    rw [Bool.or_eq_true, Text.startsWith_iff, Text.startsWith_iff, String.toList_append, hChars]
    obtain rfl | rfl := hIndent.2 c (hChars ▸ List.mem_cons_self)
    · exact .inl ⟨_, rfl⟩
    · exact .inr ⟨_, rfl⟩
  rw [step_line hLine.2 hHash, if_pos hStart, hOwner, hTrim]

end Jarsmith.Mappings.ProGuard

-- ---------------------------------------------------------------------------
-- Reading files back
-- ---------------------------------------------------------------------------

namespace Jarsmith.Mappings.ProGuard

variable {m : MappingSet} {r : Row} {rows : List Row} {line : String} {lines : List String}

theorem toString_of_parse {t : FieldType} {d : String} (hParse : FieldType.parse d = .ok t) :
    toString t = d := by
  rw [← String.toList_inj, ← (FieldType.parse_eq_ok.1 hParse).2]
  exact String.toList_ofList

theorem toString_of_parse_method {t : MethodType} {d : String}
    (hParse : MethodType.parse d = .ok t) : toString t = d := by
  rw [← String.toList_inj, ← (MethodType.parse_eq_ok.1 hParse).2]
  exact String.toList_ofList

/-- **What a line does**, under the class in which it stands. -/
theorem takesRows :
    TakesRows step (·.set) Row.addTo (fun p owner => p.owner = owner)
      (fun r line => (IsPrintable r ∧ IsNoArrow r) ∧ Writes r line) IsSilent where
  ofClass := by
    rintro p _ name named _ ⟨⟨⟨hName, hNamed⟩, -⟩, ⟨⟩⟩ -
    exact ⟨_, step_classLine hName hNamed, rfl, rfl⟩
  ofMember := by
    rintro p owner _ member ⟨⟨hRow, hArrow⟩, hWrites⟩ hOwner
    cases hWrites with
    | field hParse hIndent hNumbers =>
      obtain ⟨⟨hName, hNamed⟩, _, ⟨⟩, t, hSame, hType⟩ := hRow
      cases hParse.symm.trans hSame
      have hRead := step_member hIndent hNumbers hType hName.isColumn hNamed hOwner
      rw [readMember_field hNumbers hType hName hArrow hNamed, toString_of_parse hParse] at hRead
      exact ⟨_, hRead, rfl, hOwner⟩
    | method hParse hIndent hNumbers =>
      obtain ⟨⟨hName, hNamed⟩, t, hSame, hType⟩ := hRow
      cases hParse.symm.trans hSame
      have hRead := step_member hIndent hNumbers hType.returns
        (isColumn_called hName hType.parameters) hNamed hOwner
      rw [readMember_method hNumbers hType hName hNamed, toString_of_parse_method hParse] at hRead
      exact ⟨_, hRead, rfl, hOwner⟩
  silent := step_silent

/-- No line is broken. -/
theorem not_mem_line (hLine : IsPrintable r ∧ Writes r line) : '\n' ∉ line.toList := by
  obtain ⟨hRow, hWrites⟩ := hLine
  cases hWrites with
  | ofClass => exact (isLine_classLine hRow.1 hRow.2).1.1
  | field hParse hIndent hNumbers =>
    obtain ⟨⟨hName, hNamed⟩, _, ⟨⟩, t, hSame, hType⟩ := hRow
    cases hParse.symm.trans hSame
    exact (isLine_member hIndent hNumbers hType hName.isColumn hNamed).1.1
  | method hParse hIndent hNumbers =>
    obtain ⟨⟨hName, hNamed⟩, t, hSame, hType⟩ := hRow
    cases hParse.symm.trans hSame
    exact (isLine_member hIndent hNumbers hType.returns
      (isColumn_called hName hType.parameters) hNamed).1.1

/-- The rows of a nested list are read from any text that writes them. -/
theorem parseForward_unlines (hRows : ∀ r ∈ rows, IsPrintable r) (hArrow : ∀ r ∈ rows, IsNoArrow r)
    (hNested : Row.Nested none rows) (hLines : Written Writes IsSilent rows lines) :
    parseForward (Text.unlines lines) = .ok (rows.foldl Row.addTo ∅) := by
  have hWhole : ∀ line ∈ lines, '\n' ∉ line.toList :=
    (hLines.of_forall hRows).forall_lines (fun _ _ => not_mem_line) fun _ hSilent => hSilent.1
  have hTaken := hLines.of_forall fun r hr => And.intro (hRows r hr) (hArrow r hr)
  obtain ⟨q, hRun, hSet⟩ := takesRows.run (p := ⟨∅, none⟩) hTaken hNested rfl
  -- the reader sees the lines without carriage returns, which it would have trimmed anyway
  have hChomped : (lines.map fun line =>
      String.ofList (Text.withoutReturn line.toList)).foldlM step ⟨∅, none⟩ = .ok q := by
    rw [List.foldlM_map]
    simp only [step_withoutReturn]
    exact hRun
  rw [parseForward, Text.numberedLines, Text.lines_unlines hWhole, readLines_eq_ok hChomped]
  exact congrArg Except.ok hSet

theorem exists_writes (hRow : IsPrintable r) : ∃ line, Writes r line := by
  have hIndent : IsIndent " " := ⟨by decide, by decide⟩
  have hNumbers : IsNumbers "" := nofun
  cases r with
  | ofClass name named => exact ⟨_, .ofClass⟩
  | ofMember owner member =>
    cases member with
    | field key named =>
      obtain ⟨name, _⟩ := key
      obtain ⟨-, d, rfl, t, hParse, -⟩ := hRow
      exact ⟨_, .field hParse hIndent hNumbers⟩
    | method key named =>
      obtain ⟨-, t, hParse, -⟩ := hRow
      exact ⟨_, .method hParse hIndent hNumbers⟩

/-- **A file is read as the table that was written**, and turned around for use. Every table with
names in source form can be written. -/
theorem parse_written (hNames : m.NamesOnly) (hRows : ∀ r ∈ m.rows, IsPrintable r)
    (hArrow : ∀ r ∈ m.rows, IsNoArrow r) :
    (∃ lines, Written Writes IsSilent m.rows lines) ∧
      ∀ lines, Written Writes IsSilent m.rows lines →
        parseForward (Text.unlines lines) = .ok m ∧ parse (Text.unlines lines) = .ok m.reverse := by
  refine ⟨Written.exists_lines fun r hr => exists_writes (hRows r hr), fun lines hLines => ?_⟩
  have hRead := parseForward_unlines hRows hArrow m.nested_rows hLines
  rw [MappingSet.foldl_rows hNames] at hRead
  exact ⟨hRead, by rw [parse, hRead]; rfl⟩

/-- Fields and methods of all kinds of types. -/
def worldTable : MappingSet :=
  ((((((∅ : MappingSet).addClass "net/World" "a").addField
    "net/World" "player" (some "Lnet/Entity;") "c").addField
    "net/World" "heights" (some "[[I") "e").addMethod
    "net/World" "spawn" "(Lnet/Entity;J)Lnet/World;" "d").addMethod
    "net/World" "<init>" "()V" "<init>").addClass "net/Entity" "b"

/-- The lines of a file that writes the table. -/
def worldLines : List String :=
  ["# names of the world", "net.World -> a:", "    net.Entity player -> c", "",
    "    int[][] heights -> e", "    12:40:net.World spawn(net.Entity,long) -> d",
    "\tvoid <init>() -> <init>", " \t# no members", "net.Entity -> b:"]

theorem written_worldLines : Written Writes IsSilent worldTable.rows worldLines := by
  have hRows : worldTable.rows = [.ofClass "net/World" "a",
      .ofMember "net/World" (.field ⟨"player", some "Lnet/Entity;"⟩ "c"),
      .ofMember "net/World" (.field ⟨"heights", some "[[I"⟩ "e"),
      .ofMember "net/World" (.method ⟨"spawn", "(Lnet/Entity;J)Lnet/World;"⟩ "d"),
      .ofMember "net/World" (.method ⟨"<init>", "()V"⟩ "<init>"),
      .ofClass "net/Entity" "b"] := by rfl
  have hEntity : FieldType.parse "Lnet/Entity;" = .ok ⟨0, .object "net/Entity"⟩ := by rfl
  have hHeights : FieldType.parse "[[I" = .ok ⟨2, .primitive .int⟩ := by rfl
  have hSpawn : MethodType.parse "(Lnet/Entity;J)Lnet/World;" =
      .ok ⟨[⟨0, .object "net/Entity"⟩, ⟨0, .primitive .long⟩], ⟨0, .object "net/World"⟩⟩ :=
    MethodType.parse_eq_ok.2 (by decide)
  have hInit : MethodType.parse "()V" = .ok ⟨[], ⟨0, .primitive .void⟩⟩ :=
    MethodType.parse_eq_ok.2 (by decide)
  have hSpaces : IsIndent "    " := by decide
  have hTab : IsIndent "\t" := by decide
  have hNone : IsNumbers "" := by decide
  have hNumbers : IsNumbers "12:40:" := by decide
  rw [hRows]
  refine .silent (by decide) (.row .ofClass (.row (.field hEntity hSpaces hNone) ?_))
  refine .silent (by decide) (.row (.field hHeights hSpaces hNone) ?_)
  refine .row (.method hSpawn hSpaces hNumbers) (.row (.method hInit hTab hNone) ?_)
  exact .silent (by decide) (.row .ofClass .nil)

theorem parse_written_worldTable :
    worldTable.NamesOnly ∧ (∀ r ∈ worldTable.rows, IsPrintable r) ∧
    (∀ r ∈ worldTable.rows, IsNoArrow r) ∧ Written Writes IsSilent worldTable.rows worldLines ∧
    parseForward (Text.unlines worldLines) = .ok worldTable ∧
    parse (Text.unlines worldLines) = .ok worldTable.reverse := by
  have hNames : worldTable.NamesOnly := by decide
  have hRows : ∀ r ∈ worldTable.rows, IsPrintable r := by decide +kernel
  have hArrow : ∀ r ∈ worldTable.rows, IsNoArrow r := by decide
  exact ⟨hNames, hRows, hArrow, written_worldLines,
    (parse_written hNames hRows hArrow).2 worldLines written_worldLines⟩

/-- A table with a field that is called like an arrow. -/
def arrowField : MappingSet :=
  ((∅ : MappingSet).addClass "a" "b").addField "a" "->" (some "I") "x"

/-- The line of such a field is cut at its name, and what stands before that is a type only. -/
theorem parse_arrowField :
    arrowField.NamesOnly ∧ (∀ r ∈ arrowField.rows, IsPrintable r) ∧
    Written Writes IsSilent arrowField.rows ["a -> b:", "    int -> -> x"] ∧
    parseForward (Text.unlines ["a -> b:", "    int -> -> x"]) =
      .error (.atLine 2 .memberWithoutType) ∧
    parse (Text.unlines ["a -> b:", "    int -> -> x"]) =
      .error (.atLine 2 .memberWithoutType) := by
  have hRows : arrowField.rows =
      [.ofClass "a" "b", .ofMember "a" (.field ⟨"->", some "I"⟩ "x")] := by rfl
  have hInt : FieldType.parse "I" = .ok ⟨0, .primitive .int⟩ := by rfl
  have hSpaces : IsIndent "    " := by decide
  have hNone : IsNumbers "" := by decide
  have hForward : parseForward (Text.unlines ["a -> b:", "    int -> -> x"]) =
      .error (.atLine 2 .memberWithoutType) := by rfl
  refine ⟨by decide, by decide +kernel, ?_, hForward, by rw [parse, hForward]; rfl⟩
  rw [hRows]
  exact .row .ofClass (.row (.field hInt hSpaces hNone) .nil)

end Jarsmith.Mappings.ProGuard
