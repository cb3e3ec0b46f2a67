import Jarsmith.Text.Split

/-!
# Cuts are exact

What a cut gives back is the text again, and the first piece holds no separator.

* `afterPrefix?_eq_some`, `beforeSuffix?_eq_some` — a word at the start or the end of a text.
* `cutFirst?_eq_some`, `cutLast?_eq_some` — a cut at the first or the last character of a kind.
* `cutWord?_append`, `cutWord?_self` — a cut at the first occurrence of a word.
* `append_of_mem_cutsBefore` — the parts of a cut in front of a character.
* `pieces_append` — the pieces on both sides of a separator.
* `split_columns`, `columns_split` — columns with a separator between them are the pieces of the
  line.
* `lines_unlines` — lines that are ended one by one are the lines of the text.
* `isDigit_of_mem_toString` — the characters of a number; `decimal?_eq_some` — its spellings.
-/

namespace Jarsmith.Text

section Decidability

variable {P : Char → Prop} [DecidablePred P]

/-- What holds of all characters of a text is decided along the text. -/
instance decidableForallMem (chars : List Char) : Decidable (∀ c ∈ chars, P c) :=
  List.decidableBAll P chars

instance decidableForallMemOption : (found : Option Char) → Decidable (∀ c ∈ found, P c)
  | none => isTrue nofun
  | some c => decidable_of_iff (P c) ⟨fun hc _ hMem => Option.mem_some.1 hMem ▸ hc, fun h => h c rfl⟩

end Decidability

-- ---------------------------------------------------------------------------
-- Words at the ends
-- ---------------------------------------------------------------------------

theorem afterPrefix?_eq_some {word text rest : List Char} :
    afterPrefix? word text = some rest ↔ text = word ++ rest := by
  induction word generalizing text with
  | nil => rw [afterPrefix?, Option.some.injEq, List.nil_append]
  | cons w word ih =>
    cases text with
    | nil => simp [afterPrefix?]
    | cons c text =>
      rw [afterPrefix?, List.cons_append, List.cons.injEq]
      split
      · rename_i hSame
        rw [ih]
        exact ⟨fun h => ⟨hSame.symm, h⟩, And.right⟩
      · rename_i hOther
        exact ⟨fun h => (Option.some_ne_none _ h.symm).elim, fun h => absurd h.1.symm hOther⟩

theorem beforeSuffix?_eq_some {word text rest : List Char} :
    beforeSuffix? word text = some rest ↔ text = rest ++ word := by
  rw [beforeSuffix?, Option.map_eq_some_iff]
  constructor
  · rintro ⟨back, hBack, rfl⟩
    rw [← List.reverse_reverse text, afterPrefix?_eq_some.1 hBack, List.reverse_append,
      List.reverse_reverse]
  · rintro rfl
    exact ⟨rest.reverse, afterPrefix?_eq_some.2 (List.reverse_append ..), List.reverse_reverse rest⟩

theorem stripPrefix?_append {text word : String} : stripPrefix? word (word ++ text) = some text := by
  rw [stripPrefix?, afterPrefix?_eq_some.2 String.toList_append, Option.map_some,
    String.ofList_toList]

theorem stripPrefix?_eq_some {text word rest : String} :
    stripPrefix? word text = some rest ↔ text = word ++ rest := by
  refine ⟨fun h => ?_, fun h => h ▸ stripPrefix?_append⟩
  obtain ⟨chars, hChars, rfl⟩ := Option.map_eq_some_iff.1 h
  rw [← String.toList_inj, String.toList_append, String.toList_ofList]
  exact afterPrefix?_eq_some.1 hChars

theorem stripSuffix?_append {text word : String} : stripSuffix? word (text ++ word) = some text := by
  rw [stripSuffix?, beforeSuffix?_eq_some.2 String.toList_append, Option.map_some,
    String.ofList_toList]

theorem endsWith_iff {text word : String} :
    endsWith text word = true ↔ word.toList <:+ text.toList := by
  rw [endsWith, stripSuffix?, Option.isSome_map, Option.isSome_iff_exists]
  exact exists_congr fun _ => beforeSuffix?_eq_some.trans eq_comm

theorem endsWith_append {text word : String} : endsWith (text ++ word) word = true :=
  endsWith_iff.2 (String.toList_append ▸ List.suffix_append ..)

theorem startsWith_iff {text word : String} :
    startsWith text word = true ↔ word.toList <+: text.toList := by
  rw [startsWith, stripPrefix?, Option.isSome_map, Option.isSome_iff_exists]
  exact exists_congr fun _ => afterPrefix?_eq_some.trans eq_comm

theorem startsWith_eq_false {text word : String} {c : Char} (hWord : c ∈ word.toList)
    (hText : c ∉ text.toList) : startsWith text word = false :=
  Bool.eq_false_iff.2 fun h => hText ((startsWith_iff.1 h).subset hWord)

-- ---------------------------------------------------------------------------
-- Cuts at a character
-- ---------------------------------------------------------------------------

theorem cutFirst?_eq_some {c : Char} {text before after : List Char} :
    cutFirst? c text = some (before, after) ↔ c ∉ before ∧ text = before ++ c :: after := by
  induction text generalizing before with
  | nil => simp [cutFirst?]
  | cons d rest ih =>
    rw [cutFirst?]
    split
    · rename_i hSep
      subst hSep
      constructor
      · rintro ⟨⟩
        exact ⟨List.not_mem_nil, rfl⟩
      · rintro ⟨hBefore, hText⟩
        cases before with
        | nil => rw [(List.cons.inj hText).2]
        | cons e before =>
          rw [(List.cons.inj hText).1] at hBefore
          exact absurd List.mem_cons_self hBefore
    · rename_i hOther
      rw [Option.map_eq_some_iff]
      constructor
      · rintro ⟨⟨front, back⟩, hCut, hEq⟩
        cases hEq
        obtain ⟨hFront, rfl⟩ := ih.1 hCut
        exact ⟨fun hMem => (List.mem_cons.1 hMem).elim (fun h => hOther h.symm) hFront, rfl⟩
      · rintro ⟨hBefore, hText⟩
        cases before with
        | nil => exact absurd (List.cons.inj hText).1 hOther
        | cons e before =>
          obtain ⟨rfl, rfl⟩ := List.cons.inj hText
          exact ⟨(before, after), ih.2 ⟨fun h => hBefore (List.mem_cons_of_mem _ h), rfl⟩, rfl⟩

theorem splitFirst?_eq_none {c : Char} {text : String} (hText : c ∉ text.toList) :
    splitFirst? c text = none := by
  rw [splitFirst?, Option.map_eq_none_iff, Option.eq_none_iff_forall_ne_some]
  rintro ⟨before, after⟩ hCut
  rw [(cutFirst?_eq_some.1 hCut).2] at hText
  exact hText (List.mem_append_right _ List.mem_cons_self)

theorem splitFirst?_append {c : Char} {before after text : String} (hBefore : c ∉ before.toList)
    (hText : text.toList = before.toList ++ c :: after.toList) :
    splitFirst? c text = some (before, after) := by
  rw [splitFirst?, cutFirst?_eq_some.2 ⟨hBefore, hText⟩]
  simp only [Option.map_some, String.ofList_toList]

theorem cutLast?_eq_some {c : Char} {text before after : List Char} :
    cutLast? c text = some (before, after) ↔ c ∉ after ∧ text = before ++ c :: after := by
  rw [cutLast?, Option.map_eq_some_iff]
  constructor
  · rintro ⟨⟨back, front⟩, hCut, hEq⟩
    cases hEq
    obtain ⟨hBack, hText⟩ := cutFirst?_eq_some.1 hCut
    refine ⟨fun hMem => hBack (List.mem_reverse.1 hMem), ?_⟩
    rw [← List.reverse_reverse text, hText]
    simp
  · rintro ⟨hAfter, rfl⟩
    refine ⟨(after.reverse, before.reverse), cutFirst?_eq_some.2 ⟨?_, by simp⟩, by simp⟩
    exact fun hMem => hAfter (List.mem_reverse.1 hMem)

/-- A text without a last `c` has no `c`. -/
theorem not_mem_of_cutLast? {c : Char} {text : List Char} (hCut : cutLast? c text = none) :
    c ∉ text := by
  intro hMem
  obtain ⟨back, front, hText, hBack⟩ := List.eq_append_cons_of_mem (List.mem_reverse.2 hMem)
  have hFound : cutFirst? c text.reverse = some (back, front) :=
    cutFirst?_eq_some.2 ⟨hBack, hText⟩
  rw [cutLast?, hFound] at hCut
  cases hCut

theorem splitLast?_append {c : Char} {text : String} {before after : List Char}
    (hAfter : c ∉ after) (hText : text.toList = before ++ c :: after) :
    splitLast? c text = some (String.ofList before, String.ofList after) := by
  rw [splitLast?, cutLast?_eq_some.2 ⟨hAfter, hText⟩, Option.map_some]

theorem splitLast?_eq_some {c : Char} {text before after : String} :
    splitLast? c text = some (before, after) ↔
      c ∉ after.toList ∧ text.toList = before.toList ++ c :: after.toList := by
  rw [← cutLast?_eq_some, splitLast?, Option.map_eq_some_iff]
  constructor
  · rintro ⟨⟨front, back⟩, hCut, hEq⟩
    cases hEq
    rwa [String.toList_ofList, String.toList_ofList]
  · exact fun hCut => ⟨_, hCut, by simp only [String.ofList_toList]⟩

theorem splitLast?_eq_none {c : Char} {text : String} :
    splitLast? c text = none ↔ c ∉ text.toList := by
  rw [splitLast?, Option.map_eq_none_iff]
  refine ⟨not_mem_of_cutLast?, fun hText => Option.eq_none_iff_forall_ne_some.2 fun e hCut => ?_⟩
  rw [(cutLast?_eq_some.1 hCut).2] at hText
  exact hText (List.mem_append_right _ List.mem_cons_self)

/-- A word that starts with `w` does not start within a text without `w`. -/
theorem cutWord?_append {w : Char} {word front text : List Char} (hFront : w ∉ front) :
    cutWord? (w :: word) (front ++ text) =
      (cutWord? (w :: word) text).map fun e => (front ++ e.1, e.2) := by
  induction front with
  | nil => exact Option.map_id'.symm
  | cons d rest ih =>
    rw [List.mem_cons, not_or] at hFront
    rw [List.cons_append, cutWord?, afterPrefix?, if_neg hFront.1, ih hFront.2, Option.map_map]
    rfl

theorem cutWord?_self {w : Char} {word rest : List Char} :
    cutWord? (w :: word) (w :: word ++ rest) = some ([], rest) := by
  rw [List.cons_append, cutWord?, ← List.cons_append, afterPrefix?_eq_some.2 rfl]

theorem append_of_mem_cutsBefore {c : Char} {text before after : List Char}
    (h : (before, after) ∈ cutsBefore c text) : before ++ after = text := by
  induction text generalizing before with
  | nil => cases h
  | cons d rest ih =>
    rw [cutsBefore, List.mem_append, List.mem_map] at h
    rcases h with ⟨⟨front, back⟩, hMem, hEq⟩ | h
    · cases hEq
      rw [List.cons_append, ih hMem]
    · split at h
      · rw [List.mem_singleton] at h
        cases h
        rfl
      · cases h

/-- A replacement is undone if the new character was not there before. -/
theorem replace_replace {c d : Char} {text : String} (hText : c ∉ text.toList) :
    replace c d (replace d c text) = text := by
  have hSwap : swap c d (swap d c text.toList) = text.toList := by
    rw [swap, swap, List.map_map]
    refine (List.map_congr_left fun x hx => ?_).trans (List.map_id _)
    have hOther : x ≠ c := fun hEq => hText (hEq ▸ hx)
    by_cases hSame : x = d <;> simp [hSame, hOther]
  rw [replace, replace, String.toList_ofList, hSwap, String.ofList_toList]

-- ---------------------------------------------------------------------------
-- Pieces
-- ---------------------------------------------------------------------------

theorem pieces_of_not_mem {c : Char} {piece : List Char} (hPiece : c ∉ piece) :
    pieces c piece = [piece] := by
  induction piece with
  | nil => rfl
  | cons d rest ih =>
    rw [List.mem_cons, not_or] at hPiece
    rw [pieces, if_neg (Ne.symm hPiece.1), ih hPiece.2]

/-- A text that goes on without separators goes on in its last piece. -/
theorem pieces_append_of_not_mem {c : Char} (front : List Char) {back : List Char}
    (hBack : c ∉ back) :
    ∃ before last, pieces c front = before ++ [last] ∧
      pieces c (front ++ back) = before ++ [last ++ back] := by
  induction front with
  | nil => exact ⟨[], [], rfl, pieces_of_not_mem hBack⟩
  | cons d rest ih =>
    obtain ⟨before, last, hRest, hAll⟩ := ih
    rw [List.cons_append, pieces, pieces, hRest, hAll]
    split
    · exact ⟨[] :: before, last, rfl, rfl⟩
    · cases before with
      | nil => exact ⟨[], d :: last, rfl, rfl⟩
      | cons piece more => exact ⟨(d :: piece) :: more, last, rfl, rfl⟩

theorem pieces_ne_nil (c : Char) (text : List Char) : pieces c text ≠ [] := by
  cases text with
  | nil => exact List.cons_ne_nil _ _
  | cons d rest =>
    rw [pieces]
    split
    · exact List.cons_ne_nil _ _
    · split <;> exact List.cons_ne_nil _ _

/-- The pieces on both sides of a separator. -/
theorem pieces_append (c : Char) (front back : List Char) :
    pieces c (front ++ c :: back) = pieces c front ++ pieces c back := by
  induction front with
  | nil =>
    show pieces c (c :: back) = [] :: pieces c back
    rw [pieces, if_pos rfl]
  | cons d rest ih =>
    rw [List.cons_append, pieces, pieces, ih]
    split
    · rfl
    · cases hFront : pieces c rest with
      | nil => exact absurd hFront (pieces_ne_nil c rest)
      | cons piece more => rfl

theorem not_mem_of_mem_pieces {c : Char} {text piece : List Char} (hPiece : piece ∈ pieces c text) :
    c ∉ piece := by
  induction text generalizing piece with
  | nil =>
    obtain rfl := List.mem_singleton.1 hPiece
    exact List.not_mem_nil
  | cons d rest ih =>
    rw [pieces] at hPiece
    split at hPiece
    · obtain rfl | hPiece := List.mem_cons.1 hPiece
      · exact List.not_mem_nil
      · exact ih hPiece
    · rename_i hOther
      cases hRest : pieces c rest with
      | nil => exact absurd hRest (pieces_ne_nil c rest)
      | cons first more =>
        rw [hRest] at hPiece ih
        obtain rfl | hPiece := List.mem_cons.1 hPiece
        · rw [List.mem_cons, not_or]
          exact ⟨fun hSame => hOther hSame.symm, ih List.mem_cons_self⟩
        · exact ih (List.mem_cons_of_mem _ hPiece)

theorem not_mem_of_mem_split {c : Char} {text piece : String} (hPiece : piece ∈ split c text) :
    c ∉ piece.toList := by
  obtain ⟨chars, hChars, rfl⟩ := List.mem_map.1 hPiece
  rw [String.toList_ofList]
  exact not_mem_of_mem_pieces hChars

theorem pieces_append_cons {c : Char} {piece rest : List Char} (hPiece : c ∉ piece) :
    pieces c (piece ++ c :: rest) = piece :: pieces c rest := by
  rw [pieces_append, pieces_of_not_mem hPiece, List.singleton_append]

/-- A text of one piece holds no separator. -/
theorem pieces_eq_singleton {c : Char} {text piece : List Char} :
    pieces c text = [piece] ↔ text = piece ∧ c ∉ piece := by
  constructor
  · intro hPieces
    have hNot : c ∉ piece := not_mem_of_mem_pieces (hPieces ▸ List.mem_singleton_self piece)
    refine ⟨?_, hNot⟩
    by_cases hMem : c ∈ text
    · obtain ⟨front, back, rfl⟩ := List.append_of_mem hMem
      have hFront := List.length_pos_iff.2 (pieces_ne_nil c front)
      have hBack := List.length_pos_iff.2 (pieces_ne_nil c back)
      have hLength := congrArg List.length hPieces
      rw [pieces_append, List.length_append, List.length_singleton] at hLength
      omega
    · rw [pieces_of_not_mem hMem] at hPieces
      exact List.head_eq_of_cons_eq hPieces
  · rintro ⟨rfl, hNot⟩
    exact pieces_of_not_mem hNot

theorem split_eq_singleton {c : Char} {text piece : String} :
    split c text = [piece] ↔ text = piece ∧ c ∉ piece.toList := by
  rw [split, List.map_eq_singleton_iff]
  constructor
  · rintro ⟨chars, hPieces, rfl⟩
    obtain ⟨rfl, hNot⟩ := pieces_eq_singleton.1 hPieces
    exact ⟨String.ofList_toList.symm, String.toList_ofList ▸ hNot⟩
  · rintro ⟨rfl, hNot⟩
    exact ⟨text.toList, pieces_of_not_mem hNot, String.ofList_toList⟩

-- ---------------------------------------------------------------------------
-- Columns
-- ---------------------------------------------------------------------------

theorem pieces_join {c : Char} {cols : List (List Char)} (hSome : cols ≠ [])
    (hCols : ∀ col ∈ cols, c ∉ col) : pieces c (join [c] cols) = cols := by
  induction cols with
  | nil => exact absurd rfl hSome
  | cons col more ih =>
    obtain ⟨hCol, hMore⟩ := List.forall_mem_cons.1 hCols
    cases more with
    | nil => exact pieces_of_not_mem hCol
    | cons next more =>
      rw [join, List.append_assoc, List.singleton_append, pieces_append_cons hCol,
        ih (List.cons_ne_nil _ _) hMore]
      exact List.cons_ne_nil _ _

/-- The pieces with the separator between them are the text. -/
theorem join_pieces (c : Char) (text : List Char) : join [c] (pieces c text) = text := by
  induction text with
  | nil => rfl
  | cons d rest ih =>
    rw [pieces]
    cases hRest : pieces c rest with
    | nil => exact absurd hRest (pieces_ne_nil c rest)
    | cons piece more =>
      rw [hRest] at ih
      split
      · rename_i hSep
        rw [join, ih, hSep]
        · rfl
        · exact List.cons_ne_nil _ _
      · rw [← ih]
        cases more <;> rfl

/-- A line of columns with `c` between them. -/
def columns (c : Char) (cols : List String) : String :=
  String.ofList (join [c] (cols.map String.toList))

theorem toList_columns_cons {c : Char} {col next : String} {more : List String} :
    (columns c (col :: next :: more)).toList =
      col.toList ++ c :: (columns c (next :: more)).toList := by
  rw [columns, String.toList_ofList, columns, String.toList_ofList, List.map_cons, List.map_cons,
    join, List.append_assoc, List.singleton_append]
  exact List.cons_ne_nil _ _

theorem columns_singleton {c : Char} {col : String} : columns c [col] = col := String.ofList_toList

theorem split_columns {c : Char} {cols : List String} (hSome : cols ≠ [])
    (hCols : ∀ col ∈ cols, c ∉ col.toList) : split c (columns c cols) = cols := by
  have hPieces : pieces c (columns c cols).toList = cols.map String.toList := by
    rw [columns, String.toList_ofList]
    refine pieces_join (by rwa [ne_eq, List.map_eq_nil_iff]) fun col hMem => ?_
    obtain ⟨text, hText, rfl⟩ := List.mem_map.1 hMem
    exact hCols text hText
  have hSame : String.ofList ∘ String.toList = id := funext fun _ => String.ofList_toList
  rw [split, hPieces, List.map_map, hSame, List.map_id]

theorem columns_split {c : Char} {text : String} : columns c (split c text) = text := by
  have hSame : String.toList ∘ String.ofList = id := funext fun _ => String.toList_ofList
  rw [columns, split, List.map_map, hSame, List.map_id, join_pieces, String.ofList_toList]

theorem mem_join {c d : Char} {cols : List (List Char)} (hMem : d ∈ join [c] cols) :
    d = c ∨ ∃ col ∈ cols, d ∈ col := by
  induction cols with
  | nil => cases hMem
  | cons col more ih =>
    cases more with
    | nil => exact .inr ⟨col, List.mem_cons_self, hMem⟩
    | cons next more =>
      rw [join, List.mem_append, List.mem_append, List.mem_singleton] at hMem
      · obtain (hCol | rfl) | hMore := hMem
        · exact .inr ⟨col, List.mem_cons_self, hCol⟩
        · exact .inl rfl
        · exact (ih hMore).imp id fun ⟨found, hFound, hd⟩ =>
            ⟨found, List.mem_cons_of_mem _ hFound, hd⟩
      · exact List.cons_ne_nil _ _

theorem mem_columns {c d : Char} {cols : List String} (hMem : d ∈ (columns c cols).toList) :
    d = c ∨ ∃ col ∈ cols, d ∈ col.toList := by
  rw [columns, String.toList_ofList] at hMem
  obtain hSep | ⟨chars, hChars, hd⟩ := mem_join hMem
  · exact .inl hSep
  · obtain ⟨col, hCol, rfl⟩ := List.mem_map.1 hChars
    exact .inr ⟨col, hCol, hd⟩

-- ---------------------------------------------------------------------------
-- Lines
-- ---------------------------------------------------------------------------

/-- The text of lines that are ended one by one. -/
def unlines (lines : List String) : String :=
  String.ofList (lines.flatMap fun line => line.toList ++ ['\n'])

/-- A line without a carriage return at its end. -/
def withoutReturn (line : List Char) : List Char := (beforeSuffix? ['\r'] line).getD line

/-- Pieces that are ended one by one. -/
theorem pieces_flatMap {c : Char} {ended : List (List Char)} (hEnded : ∀ piece ∈ ended, c ∉ piece) :
    pieces c (ended.flatMap fun piece => piece ++ [c]) = ended ++ [[]] := by
  induction ended with
  | nil => rfl
  | cons piece more ih =>
    obtain ⟨hPiece, hMore⟩ := List.forall_mem_cons.1 hEnded
    rw [List.flatMap_cons, List.append_assoc, List.singleton_append, pieces_append_cons hPiece,
      ih hMore, List.cons_append]

theorem linesOf_flatMap {lines : List (List Char)} (hLines : ∀ line ∈ lines, '\n' ∉ line) :
    linesOf (lines.flatMap fun line => line ++ ['\n']) = lines.map withoutReturn := by
  unfold linesOf
  dsimp only
  rw [pieces_flatMap hLines, List.dropLast_concat, List.getLast?_concat]
  rfl

theorem lines_unlines {ls : List String} (hLines : ∀ line ∈ ls, '\n' ∉ line.toList) :
    lines (unlines ls) = ls.map fun line => String.ofList (withoutReturn line.toList) := by
  have hFlat : (ls.flatMap fun line => line.toList ++ ['\n']) =
      (ls.map String.toList).flatMap fun line => line ++ ['\n'] := by
    rw [List.flatMap_map]
  rw [lines, unlines, String.toList_ofList, hFlat, linesOf_flatMap, List.map_map, List.map_map]
  · rfl
  · intro line hMem
    obtain ⟨text, hText, rfl⟩ := List.mem_map.1 hMem
    exact hLines text hText

-- ---------------------------------------------------------------------------
-- Numbers
-- ---------------------------------------------------------------------------

/-- A number is written with digits. -/
theorem isDigit_of_mem_toString {n : Nat} {c : Char} (h : c ∈ (toString n).toList) :
    c.isDigit = true := by
  have hDigits : c ∈ Nat.toDigits 10 n := by
    rw [← Nat.toList_repr]
    exact h
  exact Nat.isDigit_of_mem_toDigits (by decide) (by decide) hDigits

/-- What may stand in front of the digits of a number: a sign and zeros. -/
inductive IsPadding : List Char → Prop where
  | zeros (k : Nat) : IsPadding (List.replicate k '0')
  | signed (k : Nat) : IsPadding ('+' :: List.replicate k '0')

theorem toList_toString (n : Nat) : (toString n).toList = Nat.toDigits 10 n := Nat.toList_repr

theorem digitChar_sub {c : Char} (h : c.isDigit = true) :
    Nat.digitChar (c.toNat - 48) = c ∧ c.toNat - 48 < 10 := by
  have hRange : 48 ≤ c.toNat ∧ c.toNat ≤ 57 := by
    simpa [Char.isDigit, UInt32.le_iff_toNat_le] using h
  refine ⟨Char.toNat_inj.1 ?_, by omega⟩
  rw [Nat.toNat_digitChar_of_lt_ten (by omega)]
  omega

/-- Digits behind a number that is not zero are digits of the number that they make with it. -/
theorem toDigits_append {digits : List Char} {n : Nat} (hDigits : ∀ c ∈ digits, c.isDigit = true)
    (hn : 0 < n) : Nat.toDigits 10 n ++ digits = Nat.toDigits 10 (Nat.ofDigitChars 10 digits n) := by
  induction digits generalizing n with
  | nil => rw [Nat.ofDigitChars_nil, List.append_nil]
  | cons c rest ih =>
    obtain ⟨hFirst, hRest⟩ := List.forall_mem_cons.1 hDigits
    obtain ⟨hChar, hSmall⟩ := digitChar_sub hFirst
    have hNext : 0 < 10 * n + (c.toNat - 48) := by omega
    have hStep := Nat.toDigits_append_toDigits (b := 10) (by decide) hn hSmall
    rw [Nat.toDigits_of_lt_base hSmall, hChar] at hStep
    rw [Nat.ofDigitChars_cons]
    exact (List.append_cons ..).trans ((congrArg (· ++ rest) hStep).trans (ih hRest hNext))

/-- Digits are zeros and the digits of their number. -/
theorem exists_eq_zeros_append {digits : List Char} (hSome : digits ≠ [])
    (hDigits : ∀ c ∈ digits, c.isDigit = true) : ∃ k,
      digits = List.replicate k '0' ++ Nat.toDigits 10 (Nat.ofDigitChars 10 digits 0) := by
  induction digits with
  | nil => exact absurd rfl hSome
  | cons c rest ih =>
    obtain ⟨hFirst, hRest⟩ := List.forall_mem_cons.1 hDigits
    obtain ⟨hChar, hSmall⟩ := digitChar_sub hFirst
    rw [Nat.ofDigitChars_cons]
    by_cases hZero : c = '0'
    · subst hZero
      by_cases hNil : rest = []
      · exact ⟨0, by rw [hNil]; rfl⟩
      · obtain ⟨k, hk⟩ := ih hNil hRest
        exact ⟨k + 1, congrArg ('0' :: ·) hk⟩
    · have hPos : 0 < c.toNat - 48 := by
        refine Nat.pos_of_ne_zero fun h => hZero ?_
        rw [← hChar, h]
        rfl
      refine ⟨0, ?_⟩
      have hAll := toDigits_append hRest hPos
      rw [Nat.toDigits_of_lt_base hSmall, hChar] at hAll
      simpa using hAll

/-- What is left of a text without a sign. -/
def unsigned (text : List Char) : List Char := (afterPrefix? ['+'] text).getD text

theorem decimal?_eq_some_iff {text : String} {n : Nat} : decimal? text = some n ↔
    unsigned text.toList ≠ [] ∧ (∀ c ∈ unsigned text.toList, c.isDigit = true) ∧
      Nat.ofDigitChars 10 (unsigned text.toList) 0 = n := by
  have hFold : ∀ digits : List Char,
      digits.foldl (fun n c => n * 10 + (c.toNat - '0'.toNat)) 0 = Nat.ofDigitChars 10 digits 0 := by
    intro digits
    rw [Nat.ofDigitChars_eq_foldl]
    simp only [Nat.mul_comm]
  rw [decimal?, hFold, ← unsigned]
  split
  · rename_i hNot
    refine iff_of_false nofun fun h => ?_
    rw [Bool.or_eq_true, List.isEmpty_iff, Bool.not_eq_true', ← Bool.not_eq_true,
      List.all_eq_true] at hNot
    exact hNot.elim h.1 fun hOther => hOther h.2.1
  · rename_i hAll
    rw [Bool.or_eq_true, not_or, List.isEmpty_iff, Bool.not_eq_true', Bool.not_eq_false,
      List.all_eq_true] at hAll
    rw [Option.some.injEq, and_iff_right hAll.1, and_iff_right hAll.2]

theorem unsigned_of_isDigit {digits : List Char} (h : ∀ c ∈ digits, c.isDigit = true) :
    unsigned digits = digits := by
  rw [unsigned]
  cases hSign : afterPrefix? ['+'] digits with
  | none => rfl
  | some rest =>
    rw [afterPrefix?_eq_some.1 hSign] at h
    exact absurd (h '+' List.mem_cons_self) (by decide)

/-- **A number is spelled with a sign, zeros, and the digits that it is written with.** -/
theorem decimal?_eq_some {text : String} {n : Nat} : decimal? text = some n ↔
    ∃ padding, IsPadding padding ∧ text.toList = padding ++ (toString n).toList := by
  rw [decimal?_eq_some_iff, toList_toString]
  constructor
  · rintro ⟨hSome, hDigits, rfl⟩
    obtain ⟨k, hk⟩ := exists_eq_zeros_append hSome hDigits
    cases hSign : afterPrefix? ['+'] text.toList with
    | none =>
      have hText : unsigned text.toList = text.toList := by rw [unsigned, hSign, Option.getD_none]
      exact ⟨_, .zeros k, hText.symm.trans hk⟩
    | some rest =>
      have hText : text.toList = '+' :: unsigned text.toList := by
        rw [unsigned, hSign, Option.getD_some]
        exact afterPrefix?_eq_some.1 hSign
      exact ⟨_, .signed k, hText.trans (congrArg ('+' :: ·) hk)⟩
  · rintro ⟨padding, hPadding, hText⟩
    have hDigits : ∀ k, ∀ c ∈ List.replicate k '0' ++ Nat.toDigits 10 n, c.isDigit = true := by
      intro k c hMem
      obtain hZero | hDigit := List.mem_append.1 hMem
      · rw [List.eq_of_mem_replicate hZero]
        rfl
      · exact Nat.isDigit_of_mem_toDigits (by decide) (by decide) hDigit
    have hUnsigned : ∃ k, unsigned text.toList = List.replicate k '0' ++ Nat.toDigits 10 n := by
      rw [hText]
      cases hPadding with
      | zeros k => exact ⟨k, unsigned_of_isDigit (hDigits k)⟩
      | signed k => exact ⟨k, rfl⟩
    obtain ⟨k, hk⟩ := hUnsigned
    rw [hk]
    refine ⟨fun hNil => Nat.toDigits_ne_nil (List.append_eq_nil_iff.1 hNil).2, hDigits k, ?_⟩
    rw [Nat.ofDigitChars_append, Nat.ofDigitChars_replicate_zero, Nat.mul_zero,
      Nat.ofDigitChars_ten_toDigits]

theorem decimalBelow?_eq_some {limit n : Nat} {text : String} :
    decimalBelow? limit text = some n ↔ decimal? text = some n ∧ n < limit := by
  rw [decimalBelow?, Option.filter_eq_some_iff, decide_eq_true_iff]

end Jarsmith.Text
