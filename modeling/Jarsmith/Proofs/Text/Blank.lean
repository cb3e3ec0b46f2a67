import Jarsmith.Proofs.Text.Split
import Jarsmith.Text.Split
import Mathlib.Data.List.TakeWhile

/-!
# Words

A line of words with a single blank between two of them gives its words back, and ends where its
last word ends.

* `IsWord` — a text that is not empty and holds no blank.
* `words_columns` — the words of a line.
* `StartsInk` — a text with no blank at its start.
* `EndsInk` — a text with no blank at its end, which trimming the end leaves alone.
-/

namespace Jarsmith.Text

/-- A text that is not empty and holds no blank. -/
def IsWord (word : String) : Prop := word ≠ "" ∧ ∀ c ∈ word.toList, isBlank c = false

instance (word : String) : Decidable (IsWord word) := inferInstanceAs (Decidable (_ ∧ _))

theorem IsWord.toList_ne_nil {word : String} (hWord : IsWord word) : word.toList ≠ [] :=
  fun hNil => hWord.1 (String.toList_eq_nil_iff.1 hNil)

theorem IsWord.not_mem {word : String} {b : Char} (hWord : IsWord word) (hb : isBlank b = true) :
    b ∉ word.toList := by
  intro hMem
  rw [hWord.2 b hMem] at hb
  cases hb

-- ---------------------------------------------------------------------------
-- Words of a line
-- ---------------------------------------------------------------------------

theorem wordsOf_cons (c : Char) (rest : List Char) : wordsOf (c :: rest) =
    if isBlank c then wordsOf rest
    else
      match rest, wordsOf rest with
      | d :: _, word :: more => if isBlank d then [c] :: word :: more else (c :: word) :: more
      | _, more => [c] :: more :=
  rfl

theorem wordsOf_blank {b : Char} {rest : List Char} (hb : isBlank b = true) :
    wordsOf (b :: rest) = wordsOf rest := by
  rw [wordsOf_cons, if_pos hb]

theorem wordsOf_append_blank {word rest : List Char} {b : Char} (hSome : word ≠ [])
    (hWord : ∀ c ∈ word, isBlank c = false) (hb : isBlank b = true) :
    wordsOf (word ++ b :: rest) = word :: wordsOf rest := by
  induction word with
  | nil => exact absurd rfl hSome
  | cons c more ih =>
    obtain ⟨hc, hMore⟩ := List.forall_mem_cons.1 hWord
    cases more with
    | nil =>
      rw [List.singleton_append, wordsOf_cons, if_neg (by simp [hc]), wordsOf_blank hb]
      cases wordsOf rest with
      | nil => rfl
      | cons next more => exact if_pos hb
    | cons d more =>
      have hd := hMore d List.mem_cons_self
      rw [List.cons_append, wordsOf_cons, if_neg (by simp [hc]), ih (List.cons_ne_nil _ _) hMore]
      exact if_neg (by simp [hd])

theorem wordsOf_word {word : List Char} (hSome : word ≠ [])
    (hWord : ∀ c ∈ word, isBlank c = false) : wordsOf word = [word] := by
  induction word with
  | nil => exact absurd rfl hSome
  | cons c more ih =>
    obtain ⟨hc, hMore⟩ := List.forall_mem_cons.1 hWord
    rw [wordsOf_cons, if_neg (by simp [hc])]
    cases more with
    | nil => rfl
    | cons d more =>
      rw [ih (List.cons_ne_nil _ _) hMore]
      exact if_neg (by simp [hMore d List.mem_cons_self])

theorem wordsOf_join {cols : List (List Char)}
    (hCols : ∀ col ∈ cols, col ≠ [] ∧ ∀ c ∈ col, isBlank c = false) :
    wordsOf (join [' '] cols) = cols := by
  induction cols with
  | nil => rfl
  | cons col more ih =>
    obtain ⟨⟨hSome, hCol⟩, hMore⟩ := List.forall_mem_cons.1 hCols
    cases more with
    | nil => exact wordsOf_word hSome hCol
    | cons next more =>
      rw [join, List.append_assoc, List.singleton_append, wordsOf_append_blank hSome hCol rfl,
        ih hMore]
      exact List.cons_ne_nil _ _

/-- The words of a line of words are its columns. -/
theorem words_columns {cols : List String} (hCols : ∀ col ∈ cols, IsWord col) :
    words (columns ' ' cols) = cols := by
  have hWords : wordsOf (columns ' ' cols).toList = cols.map String.toList := by
    rw [columns, String.toList_ofList]
    refine wordsOf_join fun col hMem => ?_
    obtain ⟨text, hText, rfl⟩ := List.mem_map.1 hMem
    exact ⟨(hCols text hText).toList_ne_nil, (hCols text hText).2⟩
  have hSame : String.ofList ∘ String.toList = id := funext fun _ => String.ofList_toList
  rw [words, hWords, List.map_map, hSame, List.map_id]

/-- Blanks in front of a line do not count. -/
theorem words_indented {b : Char} {line : String} (hb : isBlank b = true) :
    words (String.ofList (b :: line.toList)) = words line := by
  rw [words, String.toList_ofList, wordsOf_blank hb, words]

-- ---------------------------------------------------------------------------
-- Starts of lines
-- ---------------------------------------------------------------------------

/-- The first character is no blank. -/
def StartsInk (text : List Char) : Prop := ∃ c rest, text = c :: rest ∧ isBlank c = false

theorem StartsInk.append {front back : List Char} (hFront : StartsInk front) :
    StartsInk (front ++ back) := by
  obtain ⟨c, rest, rfl, hc⟩ := hFront
  exact ⟨c, rest ++ back, rfl, hc⟩

theorem IsWord.startsInk {word : String} (hWord : IsWord word) : StartsInk word.toList := by
  obtain ⟨c, rest, hChars⟩ := List.exists_cons_of_ne_nil hWord.toList_ne_nil
  exact ⟨c, rest, hChars, hWord.2 c (hChars ▸ List.mem_cons_self)⟩

theorem startsInk_columns {sep : Char} {first : String} {more : List String}
    (hFirst : IsWord first) : StartsInk (columns sep (first :: more)).toList := by
  rw [columns, String.toList_ofList, List.map_cons]
  cases more with
  | nil => exact hFirst.startsInk
  | cons next more => exact (hFirst.startsInk.append).append

theorem StartsInk.startsWith_eq_false {text word : String} {b : Char} {more : List Char}
    (hInk : StartsInk text.toList) (hb : isBlank b = true) (hWord : word.toList = b :: more) :
    startsWith text word = false := by
  rw [Bool.eq_false_iff, ne_eq, startsWith_iff, hWord]
  obtain ⟨c, rest, hText, hc⟩ := hInk
  rintro ⟨back, hBack⟩
  rw [hText] at hBack
  rw [(List.cons.inj hBack).1, hc] at hb
  cases hb

/-- There are no blanks of any kind in front. -/
theorem StartsInk.span_eq {text : List Char} {p : Char → Bool} (hInk : StartsInk text)
    (hBlank : ∀ c, p c = true → isBlank c = true) :
    text.takeWhile p = [] ∧ text.dropWhile p = text := by
  obtain ⟨c, rest, rfl, hc⟩ := hInk
  have hNot : ¬ p c = true := by
    intro hp
    rw [hBlank c hp] at hc
    cases hc
  exact ⟨List.takeWhile_cons_of_neg hNot, List.dropWhile_cons_of_neg hNot⟩

-- ---------------------------------------------------------------------------
-- Ends of lines
-- ---------------------------------------------------------------------------

/-- The last character is no blank. -/
def EndsInk (text : List Char) : Prop := ∃ c, text.getLast? = some c ∧ isBlank c = false

theorem EndsInk.append {front back : List Char} (hBack : EndsInk back) :
    EndsInk (front ++ back) := by
  obtain ⟨c, hLast, hc⟩ := hBack
  exact ⟨c, by rw [List.getLast?_append, hLast, Option.some_or], hc⟩

theorem endsInk_of_forall {text : List Char} (hSome : text ≠ [])
    (hInk : ∀ c ∈ text, isBlank c = false) : EndsInk text :=
  ⟨text.getLast hSome, List.getLast?_eq_some_getLast hSome, hInk _ (List.getLast_mem hSome)⟩

theorem endsInk_join {sep : List Char} {cols : List (List Char)} (hSome : cols ≠ [])
    (hCols : ∀ col ∈ cols, EndsInk col) : EndsInk (join sep cols) := by
  induction cols with
  | nil => exact absurd rfl hSome
  | cons col more ih =>
    obtain ⟨hCol, hMore⟩ := List.forall_mem_cons.1 hCols
    cases more with
    | nil => exact hCol
    | cons next more => exact (ih (List.cons_ne_nil _ _) hMore).append

theorem endsInk_columns {sep : Char} {cols : List String} (hSome : cols ≠ [])
    (hCols : ∀ col ∈ cols, IsWord col) : EndsInk (columns sep cols).toList := by
  rw [columns, String.toList_ofList]
  refine endsInk_join (by rwa [ne_eq, List.map_eq_nil_iff]) fun col hMem => ?_
  obtain ⟨text, hText, rfl⟩ := List.mem_map.1 hMem
  exact endsInk_of_forall (hCols text hText).toList_ne_nil (hCols text hText).2

theorem EndsInk.exists_append {text : List Char} (hInk : EndsInk text) :
    ∃ front c, text = front ++ [c] ∧ isBlank c = false := by
  obtain ⟨c, hLast, hc⟩ := hInk
  obtain ⟨front, hText⟩ := List.getLast?_eq_some_iff.1 hLast
  exact ⟨front, c, hText, hc⟩

theorem EndsInk.dropBlanksEnd_eq {text : List Char} (hInk : EndsInk text) :
    dropBlanksEnd text = text := by
  obtain ⟨front, c, rfl, hc⟩ := hInk.exists_append
  rw [dropBlanksEnd, List.reverse_concat, List.dropWhile_cons_of_neg (by simp [hc]),
    List.reverse_cons, List.reverse_reverse]

theorem EndsInk.trimEnd_eq {text : String} (hInk : EndsInk text.toList) : trimEnd text = text := by
  rw [trimEnd, hInk.dropBlanksEnd_eq, String.ofList_toList]

theorem EndsInk.isBlankText {text : String} (hInk : EndsInk text.toList) :
    isBlankText text = false := by
  obtain ⟨front, c, hText, hc⟩ := hInk.exists_append
  rw [Text.isBlankText, hText, List.all_append, List.all_cons, hc, Bool.false_and, Bool.and_false]

/-- A line that ends in no blank ends in no carriage return. -/
theorem EndsInk.withoutReturn_eq {text : List Char} (hInk : EndsInk text) :
    withoutReturn text = text := by
  rw [withoutReturn]
  cases hReturn : beforeSuffix? ['\r'] text with
  | none => rfl
  | some front =>
    obtain ⟨c, hLast, hc⟩ := hInk
    rw [beforeSuffix?_eq_some.1 hReturn, List.getLast?_concat] at hLast
    rw [← Option.some.inj hLast] at hc
    cases hc

/-- Only what stands behind the last character that is no blank can be trimmed. -/
theorem dropBlanksEnd_append {front rest : List Char} {c : Char} (hc : isBlank c = false) :
    dropBlanksEnd (front ++ c :: rest) = front ++ c :: dropBlanksEnd rest := by
  have hFront : ∀ text : List Char, (text ++ c :: front.reverse).dropWhile isBlank =
      text.dropWhile isBlank ++ c :: front.reverse := by
    intro text
    induction text with
    | nil => exact List.dropWhile_cons_of_neg (by simp [hc])
    | cons d more ih =>
      rw [List.cons_append, List.dropWhile_cons, List.dropWhile_cons]
      split
      · exact ih
      · rfl
  rw [dropBlanksEnd, List.reverse_append, List.reverse_cons, List.append_assoc,
    List.singleton_append, hFront, List.reverse_append, List.reverse_cons, List.reverse_reverse,
    List.append_assoc, List.singleton_append, dropBlanksEnd]

theorem dropBlanksEnd_blank {text : List Char} (hText : text.all isBlank = true) :
    dropBlanksEnd text = [] := by
  rw [dropBlanksEnd, List.dropWhile_eq_nil_iff.2, List.reverse_nil]
  exact fun c hc => List.all_eq_true.1 hText c (List.mem_reverse.1 hc)

/-- A carriage return at the end is a blank. -/
theorem dropBlanksEnd_withoutReturn (text : List Char) :
    dropBlanksEnd (withoutReturn text) = dropBlanksEnd text := by
  rw [withoutReturn]
  cases hReturn : beforeSuffix? ['\r'] text with
  | none => rfl
  | some front =>
    rw [beforeSuffix?_eq_some.1 hReturn, dropBlanksEnd, dropBlanksEnd, List.reverse_concat,
      List.dropWhile_cons_of_pos (by decide), Option.getD_some]

theorem IsWord.endsInk {word : String} (hWord : IsWord word) : EndsInk word.toList :=
  endsInk_of_forall hWord.toList_ne_nil hWord.2

theorem IsWord.trim_eq {word : String} (hWord : IsWord word) : trim word = word := by
  have hStart := hWord.startsInk.span_eq (p := isBlank) fun _ h => h
  rw [trim, dropBlanks, hStart.2, hWord.endsInk.dropBlanksEnd_eq, String.ofList_toList]

end Jarsmith.Text
