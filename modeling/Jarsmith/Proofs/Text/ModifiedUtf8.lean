import Jarsmith.Text.ModifiedUtf8

/-!
# Modified UTF-8 reads back

What the encoding of class files writes for a text is read as that text.

* `units?_encodeUnit` — a unit reads back in front of any bytes.
* `charsOf_unitsOfChar` — so does a character in front of any units.
* `textOf_encode` — so does a text.
-/

namespace Jarsmith.ModifiedUtf8

-- ---------------------------------------------------------------------------
-- Units
-- ---------------------------------------------------------------------------

theorem toNat_ofNat {n : Nat} (h : n < 256) : (UInt8.ofNat n).toNat = n := by
  rw [UInt8.toNat_ofNat']
  exact Nat.mod_eq_of_lt h

theorem isContinuation_tail (n : Nat) : isContinuation (UInt8.ofNat (0x80 + n % 0x40)) = true := by
  have hTail := toNat_ofNat (n := 0x80 + n % 0x40) (by omega)
  simp only [isContinuation, Bool.and_eq_true, decide_eq_true_eq, UInt8.le_iff_toNat_le, hTail]
  exact ⟨by simp, by simp; omega⟩

theorem units?_one {n : Nat} (rest : Bytes) (h₀ : n ≠ 0) (h : n < 0x80) :
    units? (UInt8.ofNat n :: rest) = (units? rest).map (n :: ·) := by
  have hn := toNat_ofNat (n := n) (by omega)
  rw [units?.eq_def]
  simp only [hn, if_neg h₀, if_pos h]

theorem units?_two {n : Nat} (rest : Bytes) (h : n < 0x800) (hForm : allowsTwoBytes n = true) :
    units? (UInt8.ofNat (0xC0 + n / 0x40) :: UInt8.ofNat (0x80 + n % 0x40) :: rest) =
      (units? rest).map (n :: ·) := by
  have hLead := toNat_ofNat (n := 0xC0 + n / 0x40) (by omega)
  have hTail := toNat_ofNat (n := 0x80 + n % 0x40) (by omega)
  have hUnit : unitOfTwo (UInt8.ofNat (0xC0 + n / 0x40)) (UInt8.ofNat (0x80 + n % 0x40)) = n := by
    rw [unitOfTwo, hLead, hTail]
    omega
  rw [units?]
  simp only [hLead, hUnit, hForm, isContinuation_tail, Bool.and_self, if_true]
  rw [if_neg (by omega), if_neg (by omega), if_pos (by omega)]

theorem units?_three {n : Nat} (rest : Bytes) (hLow : 0x800 ≤ n) (hHigh : n < 0x10000) :
    units? (UInt8.ofNat (0xE0 + n / 0x1000) :: UInt8.ofNat (0x80 + n / 0x40 % 0x40) ::
        UInt8.ofNat (0x80 + n % 0x40) :: rest) =
      (units? rest).map (n :: ·) := by
  have hLead := toNat_ofNat (n := 0xE0 + n / 0x1000) (by omega)
  have hMid := toNat_ofNat (n := 0x80 + n / 0x40 % 0x40) (by omega)
  have hTail := toNat_ofNat (n := 0x80 + n % 0x40) (by omega)
  -- the form is not too long: the lead byte says so, or the middle one does
  have hForm : (decide (0xE1 ≤ 0xE0 + n / 0x1000) ||
      decide ((0xA0 : UInt8) ≤ UInt8.ofNat (0x80 + n / 0x40 % 0x40))) = true := by
    simp only [Bool.or_eq_true, decide_eq_true_eq, UInt8.le_iff_toNat_le, hMid]
    show _ ∨ 0xA0 ≤ _
    omega
  have hUnit : (0xE0 + n / 0x1000) % 0x10 * 0x1000 + (0x80 + n / 0x40 % 0x40) % 0x40 * 0x40 +
      (0x80 + n % 0x40) % 0x40 = n := by
    omega
  rw [units?]
  simp only [hLead, hMid, hTail, hForm, hUnit, isContinuation_tail, Bool.and_self, if_true]
  rw [if_neg (by omega), if_neg (by omega), if_neg (by omega), if_pos (by omega)]

theorem units?_encodeUnit {n : Nat} (rest : Bytes) (h : n < 0x10000) :
    units? (encodeUnit n ++ rest) = (units? rest).map (n :: ·) := by
  unfold encodeUnit
  split
  · rename_i hZero
    subst hZero
    exact units?_two (n := 0) rest (by omega) rfl
  · rename_i hZero
    split
    · exact units?_one rest hZero (by assumption)
    · split
      · refine units?_two rest (by assumption) ?_
        simp only [allowsTwoBytes, Bool.or_eq_true, decide_eq_true_eq]
        omega
      · exact units?_three rest (Nat.le_of_not_lt (by assumption)) h

theorem units?_flatMap_encodeUnit {units : List Nat} (h : ∀ n ∈ units, n < 0x10000) :
    units? (units.flatMap encodeUnit) = some units := by
  induction units with
  | nil => rfl
  | cons n more ih =>
    rw [List.flatMap_cons, units?_encodeUnit _ (h n (List.mem_cons_self ..)),
      ih fun m hm => h m (List.mem_cons_of_mem _ hm)]
    rfl

-- ---------------------------------------------------------------------------
-- Characters
-- ---------------------------------------------------------------------------

/-- A character is no surrogate, and lies below the end of the last plane. -/
theorem toNat_char (c : Char) : (c.toNat < 0xD800 ∨ 0xDFFF < c.toNat) ∧ c.toNat < 0x110000 := by
  have hValid := c.valid
  simp only [UInt32.isValidChar, Nat.isValidChar] at hValid
  show (c.val.toNat < 0xD800 ∨ 0xDFFF < c.val.toNat) ∧ c.val.toNat < 0x110000
  omega

theorem lt_of_mem_unitsOfChar {c : Char} {n : Nat} (h : n ∈ unitsOfChar c) : n < 0x10000 := by
  have hChar := toNat_char c
  simp only [unitsOfChar] at h
  split at h
  · rw [List.mem_singleton] at h
    omega
  · simp only [List.mem_cons, List.not_mem_nil, or_false] at h
    omega

theorem charsOf_unitsOfChar (c : Char) (rest : List Nat) :
    charsOf (unitsOfChar c ++ rest) = .ok c :: charsOf rest := by
  have hChar := toNat_char c
  simp only [unitsOfChar]
  split
  · -- a character of the basic plane starts no pair
    rename_i hBasic
    have hHigh : isHigh c.toNat = false := by simp [isHigh]; omega
    have hLow : isLow c.toNat = false := by simp [isLow]; omega
    have hSelf : charOf c.toNat = .ok c := by simp [charOf, hHigh, hLow]
    cases rest with
    | nil => simp [charsOf, hSelf]
    | cons n more => simp [charsOf, hHigh, hSelf]
  · rename_i hAbove
    have hHigh : isHigh (0xD800 + (c.toNat - 0x10000) / 0x400) = true := by
      simp [isHigh]; omega
    have hLow : isLow (0xDC00 + (c.toNat - 0x10000) % 0x400) = true := by
      simp [isLow]; omega
    have hPair : charOfPair (0xD800 + (c.toNat - 0x10000) / 0x400)
        (0xDC00 + (c.toNat - 0x10000) % 0x400) = c := by
      have hSum : 0x10000 + (0xD800 + (c.toNat - 0x10000) / 0x400 - 0xD800) * 0x400 +
          (0xDC00 + (c.toNat - 0x10000) % 0x400 - 0xDC00) = c.toNat := by omega
      rw [charOfPair, hSum, Char.ofNat_toNat]
    simp [charsOf, hHigh, hLow, hPair]

theorem charsOf_flatMap_unitsOfChar (text : List Char) :
    charsOf (text.flatMap unitsOfChar) = text.map .ok := by
  induction text with
  | nil => rfl
  | cons c more ih => rw [List.flatMap_cons, charsOf_unitsOfChar, ih, List.map_cons]

theorem units?_encode (text : String) :
    units? (encode text) = some (text.toList.flatMap unitsOfChar) := by
  refine units?_flatMap_encodeUnit fun n hn => ?_
  obtain ⟨c, -, hc⟩ := List.mem_flatMap.1 hn
  exact lt_of_mem_unitsOfChar hc

theorem chars_encode (text : String) : chars (encode text) = text.toList.map .ok := by
  rw [chars, units?_encode, Option.getD_some, charsOf_flatMap_unitsOfChar]

/-- The bytes of a text are read as that text. -/
theorem textOf_encode (text : String) : textOf (encode text) = .ok text := by
  have hAll : ∀ list : List Char,
      (list.map (Except.ok (ε := Nat))).mapM id = (.ok list : Except Nat (List Char)) := by
    intro list
    induction list with
    | nil => rfl
    | cons c more ih =>
      rw [List.map_cons, List.mapM_cons, ih]
      rfl
  rw [textOf, chars_encode, hAll]
  simp [Functor.map, Except.map]

end Jarsmith.ModifiedUtf8
