import Jarsmith.Mappings.Lines
import Jarsmith.Proofs.Text.Blank
import Mathlib.Data.List.TakeWhile

/-!
# Runs over lines, and columns of a line

A run over the lines of a text does one step for each line. A column is what can stand between two
blanks of a line: a text that holds no blank, and does not start a comment.

* `readLines_eq_ok`, `readLines_error` — a run succeeds if every step does; a run that stops names
  the line at which it stopped.
* `readLines_invariant` — what every step keeps, the run keeps; `readLines_ne_error`.
* `under` — indented lines.
* `contentLines_unlines`, `numberedLines_unlines` — the lines of a text that was written line by
  line.
* `IsInk`, `IsColumn` — the characters and the texts of columns.
* `isLine_columns` — a line of columns.
-/

namespace Jarsmith.Mappings

section Runs

variable {σ : Type} {step : σ → String → Except LineFault σ} {s t : σ}

theorem readLines_error {lines : List (Nat × String)} {fault : MappingFault}
    (hRead : readLines step s lines = .error fault) : ∃ n line, fault = .atLine n line := by
  induction lines generalizing s with
  | nil => cases hRead
  | cons e more ih =>
    rw [readLines] at hRead
    split at hRead
    · exact ih hRead
    · cases hRead
      exact ⟨_, _, rfl⟩

/-- The numbers of the lines do not matter to a run that succeeds. -/
theorem readLines_eq_ok {n : Nat} {lines : List String}
    (hRun : lines.foldlM step s = .ok t) : readLines step s (Text.numberFrom n lines) = .ok t := by
  induction lines generalizing s n with
  | nil =>
    cases hRun
    rfl
  | cons line more ih =>
    rw [List.foldlM_cons] at hRun
    rw [Text.numberFrom, readLines]
    cases hStep : step s line with
    | ok next =>
      rw [hStep] at hRun
      exact ih hRun
    | error fault =>
      rw [hStep] at hRun
      cases hRun

/-- What every step keeps, a run that succeeds keeps. -/
theorem readLines_invariant {P : σ → Prop} {lines : List (Nat × String)}
    (hStep : ∀ s line t, P s → step s line = .ok t → P t) (hStart : P s)
    (hRead : readLines step s lines = .ok t) : P t := by
  induction lines generalizing s with
  | nil =>
    cases hRead
    exact hStart
  | cons e more ih =>
    rw [readLines] at hRead
    split at hRead
    · rename_i next hNext
      exact ih (hStep _ _ _ hStart hNext) hRead
    · cases hRead

/-- A fault that no step reports as long as `P` holds is none of the run. -/
theorem readLines_ne_error {P : σ → Prop} {lines : List (Nat × String)} {n : Nat}
    {fault : LineFault} (hKeeps : ∀ s line t, P s → step s line = .ok t → P t)
    (hStep : ∀ s line, P s → step s line ≠ .error fault) (hStart : P s) :
    readLines step s lines ≠ .error (.atLine n fault) := by
  induction lines generalizing s with
  | nil => nofun
  | cons e more ih =>
    rw [readLines]
    split
    · rename_i next hNext
      exact ih (hKeeps _ _ _ hStart hNext)
    · rename_i other hOther
      intro hSame
      cases hSame
      exact hStep _ _ hStart hOther

/-- A run over lines of which each does its part, whatever was done before. -/
theorem foldlM_map_eq_ok {ρ : Type} {write : ρ → String} {add : σ → ρ → σ} {rows : List ρ}
    (hStep : ∀ s, ∀ r ∈ rows, step s (write r) = .ok (add s r)) :
    (rows.map write).foldlM step s = .ok (rows.foldl add s) := by
  induction rows generalizing s with
  | nil => rfl
  | cons r more ih =>
    rw [List.map_cons, List.foldlM_cons, hStep s r List.mem_cons_self]
    exact ih fun t other hMem => hStep t other (List.mem_cons_of_mem _ hMem)

end Runs

theorem drop_length_takeWhile {α : Type} (f : α → Bool) (l : List α) :
    l.drop (l.takeWhile f).length = l.dropWhile f := by
  have hWhole : l.takeWhile f ++ l.dropWhile f = l := List.takeWhile_append_dropWhile
  exact (congrArg (List.drop _) hWhole.symm).trans List.drop_left

theorem slot_eq_error {text : String} {fault : LineFault} (h : slot text = .error fault) :
    fault = .badParameterIndex text := by
  unfold slot at h
  split at h
  · cases h
  · exact (Except.error.inj h).symm

-- ---------------------------------------------------------------------------
-- Written lines
-- ---------------------------------------------------------------------------

/-- A line without a line feed, and without a blank at its end. -/
def IsLine (line : String) : Prop := '\n' ∉ line.toList ∧ Text.EndsInk line.toList

/-- A line that stands under another one. -/
def under (line : String) : String := String.ofList ('\t' :: line.toList)

theorem IsLine.under {line : String} (hLine : IsLine line) : IsLine (under line) := by
  rw [IsLine, Mappings.under, String.toList_ofList]
  exact ⟨fun hMem => (List.mem_cons.1 hMem).elim (by decide) hLine.1,
    (hLine.2.append : Text.EndsInk (['\t'] ++ line.toList))⟩

theorem not_mem_under {line : String} {c : Char} (hc : c ≠ '\t') (hLine : c ∉ line.toList) :
    c ∉ (under line).toList := by
  rw [under, String.toList_ofList]
  exact fun hMem => (List.mem_cons.1 hMem).elim hc hLine

section Indentation

variable {line : String}

theorem isBlank_of_tab {c : Char} (hTab : (c == '\t') = true) : Text.isBlank c = true := by
  rw [eq_of_beq hTab]
  decide

theorem length_takeWhile_tab (hInk : Text.StartsInk line.toList) :
    (line.toList.takeWhile (· == '\t')).length = 0 :=
  congrArg List.length (hInk.span_eq fun _ => isBlank_of_tab).1

theorem length_takeWhile_tab_under (hInk : Text.StartsInk line.toList) :
    ((under line).toList.takeWhile (· == '\t')).length = 1 := by
  rw [under, String.toList_ofList, List.takeWhile_cons_of_pos rfl, List.length_cons,
    length_takeWhile_tab hInk]

theorem dropWhile_tab (hInk : Text.StartsInk line.toList) :
    String.ofList (line.toList.dropWhile (· == '\t')) = line := by
  rw [(hInk.span_eq fun _ => isBlank_of_tab).2, String.ofList_toList]

theorem dropWhile_tab_under (hInk : Text.StartsInk line.toList) :
    String.ofList ((under line).toList.dropWhile (· == '\t')) = line := by
  rw [under, String.toList_ofList, List.dropWhile_cons_of_pos rfl, dropWhile_tab hInk]

end Indentation

theorem map_eq_self {f : String → String} {lines : List String}
    (hKeeps : ∀ line ∈ lines, f line = line) : lines.map f = lines :=
  (List.map_congr_left hKeeps).trans (List.map_id lines)

theorem numberedLines_unlines {lines : List String} (hLines : ∀ line ∈ lines, IsLine line) :
    Text.numberedLines (Text.unlines lines) = Text.numberFrom 1 lines := by
  have hSame : lines.map (fun line => String.ofList (Text.withoutReturn line.toList)) = lines := by
    refine map_eq_self fun line hMem => ?_
    rw [(hLines line hMem).2.withoutReturn_eq, String.ofList_toList]
  rw [Text.numberedLines, Text.lines_unlines fun line hMem => (hLines line hMem).1, hSame]

theorem map_numberFrom {f : String → String} (n : Nat) (lines : List String) :
    (Text.numberFrom n lines).map (fun e => (e.1, f e.2)) = Text.numberFrom n (lines.map f) := by
  induction lines generalizing n with
  | nil => rfl
  | cons line more ih => rw [Text.numberFrom, List.map_cons, ih, List.map_cons, Text.numberFrom]

theorem snd_mem_of_mem_numberFrom {n : Nat} {lines : List String} {e : Nat × String}
    (hMem : e ∈ Text.numberFrom n lines) : e.2 ∈ lines := by
  induction lines generalizing n with
  | nil => cases hMem
  | cons line more ih =>
    obtain rfl | hMore := List.mem_cons.1 hMem
    · exact List.mem_cons_self
    · exact List.mem_cons_of_mem _ (ih hMore)

/-- A line without its comment and the blanks before it. -/
def content (line : String) : String :=
  Text.trimEnd (String.ofList (line.toList.takeWhile (· != '#')))

/-- Lines without comments are content as they are. -/
theorem contentLines_unlines {lines : List String}
    (hLines : ∀ line ∈ lines, IsLine line ∧ '#' ∉ line.toList) :
    contentLines (Text.unlines lines) = Text.numberFrom 1 lines := by
  have hContent : lines.map content = lines := by
    refine map_eq_self fun line hMem => ?_
    obtain ⟨hLine, hComment⟩ := hLines line hMem
    have hWhole : line.toList.takeWhile (· != '#') = line.toList :=
      List.takeWhile_eq_self_iff.2 fun c hc => bne_iff_ne.2 fun hHash => hComment (hHash ▸ hc)
    rw [content, hWhole, String.ofList_toList, hLine.2.trimEnd_eq]
  have hLinesOf : contentLines (Text.unlines lines) =
      ((Text.numberFrom 1 lines).map fun e => (e.1, content e.2)).filter
        fun e => !Text.isBlankText e.2 := by
    rw [← numberedLines_unlines fun line hMem => (hLines line hMem).1]
    rfl
  rw [hLinesOf, map_numberFrom, hContent, List.filter_eq_self]
  intro e hMem
  rw [(hLines e.2 (snd_mem_of_mem_numberFrom hMem)).1.2.isBlankText]
  rfl

end Jarsmith.Mappings

-- ---------------------------------------------------------------------------
-- Columns
-- ---------------------------------------------------------------------------

namespace Jarsmith

/-- A character that neither separates columns nor starts a comment. -/
def IsInk (c : Char) : Prop := Text.isBlank c = false ∧ c ≠ '#'

instance (c : Char) : Decidable (IsInk c) := inferInstanceAs (Decidable (_ ∧ _))

/-- A text that can stand in a column. -/
def IsColumn (text : String) : Prop := text ≠ "" ∧ ∀ c ∈ text.toList, IsInk c

instance (text : String) : Decidable (IsColumn text) := inferInstanceAs (Decidable (_ ∧ _))

namespace IsColumn

variable {a b : String}

theorem isWord (ha : IsColumn a) : Text.IsWord a := ⟨ha.1, fun c hc => (ha.2 c hc).1⟩

theorem not_mem (ha : IsColumn a) {c : Char} (hc : ¬ IsInk c) : c ∉ a.toList :=
  fun hMem => hc (ha.2 c hMem)

theorem of_not_mem (hSome : a ≠ "") (hInk : ∀ c, ¬ IsInk c → c ∉ a.toList) : IsColumn a :=
  ⟨hSome, fun c hc => by_contra fun hNot => hInk c hNot hc⟩

theorem append_left (ha : ∀ c ∈ a.toList, IsInk c) (hb : IsColumn b) : IsColumn (a ++ b) := by
  refine ⟨fun hEmpty => hb.1 (String.append_eq_empty_iff.1 hEmpty).2, ?_⟩
  rw [String.toList_append]
  exact List.forall_mem_append.2 ⟨ha, hb.2⟩

theorem append_right (ha : IsColumn a) (hb : ∀ c ∈ b.toList, IsInk c) : IsColumn (a ++ b) := by
  refine ⟨fun hEmpty => ha.1 (String.append_eq_empty_iff.1 hEmpty).1, ?_⟩
  rw [String.toList_append]
  exact List.forall_mem_append.2 ⟨ha.2, hb⟩

end IsColumn

/-- A line of columns is read as it was written. -/
theorem isLine_columns (sep : Char) {cols : List String} (hSep : sep ≠ '\n' ∧ sep ≠ '#')
    (hSome : cols ≠ []) (hCols : ∀ col ∈ cols, IsColumn col) :
    Mappings.IsLine (Text.columns sep cols) ∧ '#' ∉ (Text.columns sep cols).toList := by
  have hNot : ∀ c, c ≠ sep → ¬ IsInk c → c ∉ (Text.columns sep cols).toList := by
    intro c hOther hc hMem
    obtain hEq | ⟨col, hCol, hIn⟩ := Text.mem_columns hMem
    · exact hOther hEq
    · exact (hCols col hCol).not_mem hc hIn
  exact ⟨⟨hNot _ hSep.1.symm (by decide),
    Text.endsInk_columns hSome fun col hCol => (hCols col hCol).isWord⟩,
    hNot _ hSep.2.symm (by decide)⟩

end Jarsmith
