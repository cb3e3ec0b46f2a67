/-!
# Cutting text

Cuts at a character or a word, over lists of characters, with the same names over strings. Nothing
is lost by a cut: the pieces and the separators between them are the text again.

Blanks are the characters with the Unicode property White_Space. They are cut off, or cut a text into
words.
-/

namespace Jarsmith.Text

-- ---------------------------------------------------------------------------
-- Lists of characters
-- ---------------------------------------------------------------------------

/-- What follows `word` at the start of `text`. -/
def afterPrefix? : (word text : List Char) → Option (List Char)
  | [], text => some text
  | _ :: _, [] => none
  | w :: word, c :: text => if w = c then afterPrefix? word text else none

/-- What precedes `word` at the end of `text`. -/
def beforeSuffix? (word text : List Char) : Option (List Char) :=
  (afterPrefix? word.reverse text.reverse).map List.reverse

/-- The text before and after the first `c`. -/
def cutFirst? (c : Char) : List Char → Option (List Char × List Char)
  | [] => none
  | d :: rest =>
    if d = c then some ([], rest)
    else (cutFirst? c rest).map fun (before, after) => (d :: before, after)

theorem length_cutFirst? {c : Char} {text before after : List Char}
    (h : cutFirst? c text = some (before, after)) : after.length < text.length := by
  induction text generalizing before with
  | nil => simp [cutFirst?] at h
  | cons d rest ih =>
    simp only [cutFirst?] at h
    split at h
    · simp only [Option.some.injEq, Prod.mk.injEq] at h
      simp [← h.2]
    · simp only [Option.map_eq_some_iff] at h
      obtain ⟨⟨x, y⟩, hxy, heq⟩ := h
      simp only [Prod.mk.injEq] at heq
      obtain ⟨-, rfl⟩ := heq
      have := ih hxy
      simp only [List.length_cons]
      omega

/-- The text before and after the last `c`. -/
def cutLast? (c : Char) (text : List Char) : Option (List Char × List Char) :=
  (cutFirst? c text.reverse).map fun (after, before) => (before.reverse, after.reverse)

/-- The text before and after the first occurrence of `word`. -/
def cutWord? (word : List Char) : List Char → Option (List Char × List Char)
  | [] => if word = [] then some ([], []) else none
  | d :: rest =>
    match afterPrefix? word (d :: rest) with
    | some after => some ([], after)
    | none => (cutWord? word rest).map fun (before, after) => (d :: before, after)

/-- All ways to cut a text in front of a `c`, the longest first part first. -/
def cutsBefore (c : Char) : List Char → List (List Char × List Char)
  | [] => []
  | d :: rest =>
    ((cutsBefore c rest).map fun (before, after) => (d :: before, after))
      ++ if d = c then [([], d :: rest)] else []

/-- The pieces between the occurrences of `c`; there is always at least one. -/
def pieces (c : Char) : List Char → List (List Char)
  | [] => [[]]
  | d :: rest =>
    if d = c then [] :: pieces c rest
    else
      match pieces c rest with
      | [] => [[d]]
      | piece :: more => (d :: piece) :: more

/-- The lines of a text. A line ends at a line feed, a carriage return before the line feed belongs
to the end of the line, and an empty last line is none. -/
def linesOf (text : List Char) : List (List Char) :=
  let all := pieces '\n' text
  let full := all.dropLast.map fun line => (beforeSuffix? ['\r'] line).getD line
  match all.getLast? with
  | none | some [] => full
  | some last => full ++ [last]

/-- Joins pieces with `sep` between them. -/
def join (sep : List Char) : List (List Char) → List Char
  | [] => []
  | [piece] => piece
  | piece :: more => piece ++ sep ++ join sep more

/-- Every `c` replaced by `d`. -/
def swap (c d : Char) (text : List Char) : List Char :=
  text.map fun x => if x = c then d else x

-- ---------------------------------------------------------------------------
-- Strings
-- ---------------------------------------------------------------------------

/-- What follows `word` at the start of `text`. -/
def stripPrefix? (word text : String) : Option String :=
  (afterPrefix? word.toList text.toList).map String.ofList

/-- What precedes `word` at the end of `text`. -/
def stripSuffix? (word text : String) : Option String :=
  (beforeSuffix? word.toList text.toList).map String.ofList

/-- Whether `text` starts with `word`. -/
def startsWith (text word : String) : Bool := (stripPrefix? word text).isSome

/-- Whether `text` ends in `word`. -/
def endsWith (text word : String) : Bool := (stripSuffix? word text).isSome

/-- Whether `c` occurs in `text`. -/
def hasChar (text : String) (c : Char) : Bool := text.toList.contains c

/-- The text before and after the first `c`. -/
def splitFirst? (c : Char) (text : String) : Option (String × String) :=
  (cutFirst? c text.toList).map fun (a, b) => (String.ofList a, String.ofList b)

/-- The text before and after the last `c`. -/
def splitLast? (c : Char) (text : String) : Option (String × String) :=
  (cutLast? c text.toList).map fun (a, b) => (String.ofList a, String.ofList b)

/-- The text before and after the first occurrence of `word`. -/
def splitWord? (word text : String) : Option (String × String) :=
  (cutWord? word.toList text.toList).map fun (a, b) => (String.ofList a, String.ofList b)

/-- The pieces between the occurrences of `c`. -/
def split (c : Char) (text : String) : List String :=
  (pieces c text.toList).map String.ofList

/-- The lines of a text, without their ends. -/
def lines (text : String) : List String := (linesOf text.toList).map String.ofList

/-- Lines with their numbers, counted from `n`. -/
def numberFrom (n : Nat) : List String → List (Nat × String)
  | [] => []
  | line :: more => (n, line) :: numberFrom (n + 1) more

/-- The lines of a text with their numbers, counted from 1. -/
def numberedLines (text : String) : List (Nat × String) := numberFrom 1 (lines text)

/-- Every `c` replaced by `d`. -/
def replace (c d : Char) (text : String) : String := String.ofList (swap c d text.toList)

/-- Whether `word` occurs in `text`. -/
def hasWord (word text : String) : Bool := (cutWord? word.toList text.toList).isSome

/-- Joins pieces with `sep` between them. -/
def intercalate (sep : String) (texts : List String) : String := sep.intercalate texts

/-- The lower-case form of the letters A to Z; every other character stays. -/
def lowerLatin (text : String) : String := String.ofList (text.toList.map Char.toLower)

/-- The upper-case form of the letters a to z; every other character stays. -/
def upperLatin (text : String) : String := String.ofList (text.toList.map Char.toUpper)

/-- Whether two texts differ at most in the case of the letters A to Z. -/
def equalsIgnoringCase (a b : String) : Bool := lowerLatin a == lowerLatin b

/-- The decimal number that a text of digits spells; one sign `+` may stand before the digits. -/
def decimal? (text : String) : Option Nat :=
  let digits := (afterPrefix? ['+'] text.toList).getD text.toList
  if digits.isEmpty || !digits.all Char.isDigit then none
  else some (digits.foldl (fun n c => n * 10 + (c.toNat - '0'.toNat)) 0)

/-- The decimal number that `text` spells, if it is below `limit`. -/
def decimalBelow? (limit : Nat) (text : String) : Option Nat :=
  (decimal? text).filter (· < limit)

-- ---------------------------------------------------------------------------
-- Blanks
-- ---------------------------------------------------------------------------

/-- Whether `c` has the property White_Space. -/
def isBlank (c : Char) : Bool :=
  let n := c.toNat
  (0x9 ≤ n && n ≤ 0xD) || n == 0x20 || n == 0x85 || n == 0xA0 || n == 0x1680
    || (0x2000 ≤ n && n ≤ 0x200A) || n == 0x2028 || n == 0x2029 || n == 0x202F || n == 0x205F
    || n == 0x3000

/-- The text without blanks at its end. -/
def dropBlanksEnd (text : List Char) : List Char :=
  (text.reverse.dropWhile isBlank).reverse

/-- The text without blanks at its two ends. -/
def dropBlanks (text : List Char) : List Char := dropBlanksEnd (text.dropWhile isBlank)

/-- The maximal runs of characters that are not blanks. -/
def wordsOf : List Char → List (List Char)
  | [] => []
  | c :: rest =>
    if isBlank c then wordsOf rest
    else
      match rest, wordsOf rest with
      | d :: _, word :: more => if isBlank d then [c] :: word :: more else (c :: word) :: more
      | _, more => [c] :: more

/-- The text without blanks at its two ends. -/
def trim (text : String) : String := String.ofList (dropBlanks text.toList)

/-- The text without blanks at its end. -/
def trimEnd (text : String) : String := String.ofList (dropBlanksEnd text.toList)

/-- The text without blanks at its start. -/
def trimStart (text : String) : String := String.ofList (text.toList.dropWhile isBlank)

/-- Whether the text holds blanks only. -/
def isBlankText (text : String) : Bool := text.toList.all isBlank

/-- The maximal runs of characters that are not blanks. -/
def words (text : String) : List String := (wordsOf text.toList).map String.ofList

end Jarsmith.Text
