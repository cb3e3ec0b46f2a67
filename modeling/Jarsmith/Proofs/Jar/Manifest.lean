import Jarsmith.Jar.Manifest
import Jarsmith.Proofs.OrderedMap
import Jarsmith.Proofs.Text.Split
import Jarsmith.Proofs.Text.Utf8
import Mathlib.Data.List.Forall2

/-!
# Written manifests

A manifest is written line by line, and a line that is too long is cut. Reading joins the pieces
again, so what was written is what is read.

* `Folded` — a line and the lines that it is cut into; `unfold_folded` joins them.
* `exists_folded` — every line is cut into short lines between two characters.
* `foldl_step_section` — what the lines of a section add.
* `parse_toBytes_of_writable` — a written manifest reads back.
-/

namespace Jarsmith.JarManifest

open OrderedMap

variable {line : List Char} {lines done : List (List Char)}

-- ---------------------------------------------------------------------------
-- Folding
-- ---------------------------------------------------------------------------

/-- The bytes that characters take. -/
def byteLength (text : List Char) : Nat := (Utf8.encode (String.ofList text)).length

@[simp] theorem byteLength_nil : byteLength [] = 0 := rfl

@[simp] theorem byteLength_cons (c : Char) (text : List Char) :
    byteLength (c :: text) = c.utf8Size + byteLength text := by
  simp [byteLength, Utf8.encode, String.length_utf8EncodeChar]

/-- What a line is cut into. Every line but the first one starts with a space and takes at least one
more character. -/
inductive Folded : List Char → List (List Char) → Prop where
  | mk (first : List Char) (more : List (List Char)) (hFirst : first = [] → more = [])
      (hMore : ∀ piece ∈ more, piece ≠ []) :
      Folded (first ++ more.flatten) (first :: more.map (' ' :: ·))

/-- The end of a line. -/
def lineEnd : List Char := ['\r', '\n']

/-- A folded line, from any place in it on: what has room in this line, and the lines behind it. -/
theorem exists_pieces (room : Nat) (line : List Char) : ∃ first more,
    fold room line = first ++ more.flatMap (fun piece => lineEnd ++ ' ' :: piece) ∧
      line = first ++ more.flatten ∧ byteLength first ≤ room ∧
      (4 ≤ room → first = [] → more = []) ∧
      ∀ piece ∈ more, piece ≠ [] ∧ byteLength piece < maxLine := by
  induction line generalizing room with
  | nil => exact ⟨[], [], rfl, rfl, Nat.zero_le room, fun _ _ => rfl, nofun⟩
  | cons c rest ih =>
    have hSize : c.utf8Size ≤ 4 := Char.utf8Size_le_four c
    have hMax : maxLine = 72 := rfl
    rw [fold]
    split
    · obtain ⟨first, more, hFold, hLine, hRoom, -, hMore⟩ := ih (room - c.utf8Size)
      refine ⟨c :: first, more, by rw [hFold, List.cons_append], by rw [hLine, List.cons_append],
        ?_, nofun, hMore⟩
      rw [byteLength_cons]
      omega
    · obtain ⟨first, more, hFold, hLine, hRoom, -, hMore⟩ := ih (maxLine - 1 - c.utf8Size)
      refine ⟨[], (c :: first) :: more, ?_, by simp [hLine], Nat.zero_le room, by omega, ?_⟩
      · simp [hFold, lineEnd]
      · rw [List.forall_mem_cons, byteLength_cons]
        exact ⟨⟨List.cons_ne_nil c first, by omega⟩, hMore⟩

/-- **Every line is cut into short lines,** between two characters. -/
theorem exists_folded (line : List Char) : ∃ lines,
    Folded line lines ∧ fold maxLine line ++ lineEnd = lines.flatMap (· ++ lineEnd) ∧
      ∀ l ∈ lines, byteLength l ≤ maxLine := by
  obtain ⟨first, more, hFold, rfl, hRoom, hFirst, hMore⟩ := exists_pieces maxLine line
  have hEnds : ∀ before, before ++ more.flatMap (fun piece => lineEnd ++ ' ' :: piece) ++ lineEnd =
      before ++ lineEnd ++ (more.map (' ' :: ·)).flatMap (· ++ lineEnd) := by
    clear hFold hFirst hMore
    induction more with
    | nil => simp
    | cons piece more ih =>
      intro before
      have hRest := ih (before ++ lineEnd ++ ' ' :: piece)
      simp only [List.flatMap_cons, List.map_cons, List.append_assoc] at hRest ⊢
      exact hRest
  refine ⟨first :: more.map (' ' :: ·),
    .mk first more (hFirst (by decide)) fun piece hMem => (hMore piece hMem).1, ?_, ?_⟩
  · rw [hFold, hEnds, List.flatMap_cons]
  · refine List.forall_mem_cons.2 ⟨hRoom, List.forall_mem_map.2 fun piece hMem => ?_⟩
    have hSpace : ' '.utf8Size = 1 := rfl
    obtain ⟨-, hShort⟩ := hMore piece hMem
    rw [byteLength_cons]
    omega

/-- A line is cut into at most as many lines as it has characters, and one if it is empty. -/
theorem Folded.length_le (h : Folded line lines) : lines.length ≤ max 1 line.length := by
  obtain ⟨first, more, hFirst, hMore⟩ := h
  have hFlat : more.length ≤ more.flatten.length := by
    clear hFirst
    induction more with
    | nil => exact Nat.zero_le _
    | cons piece more ih =>
      obtain ⟨hPiece, hRest⟩ := List.forall_mem_cons.1 hMore
      have hPos := List.length_pos_iff.2 hPiece
      have hLength := ih hRest
      rw [List.flatten_cons, List.length_append, List.length_cons]
      omega
  rw [List.length_cons, List.length_map, List.length_append]
  cases first with
  | nil => rw [hFirst rfl]; simp
  | cons c first => rw [List.length_cons]; omega

/-- Every character of the lines stands in the line, or is the space in front. -/
theorem Folded.mem (h : Folded line lines) {l : List Char} (hMem : l ∈ lines) {c : Char}
    (hc : c ∈ l) :
    c = ' ' ∨ c ∈ line := by
  obtain ⟨first, more, -, -⟩ := h
  obtain rfl | hMem := List.mem_cons.1 hMem
  · exact .inr (List.mem_append_left _ hc)
  · obtain ⟨piece, hPiece, rfl⟩ := List.mem_map.1 hMem
    exact (List.mem_cons.1 hc).imp id fun hc =>
      List.mem_append_right _ (List.mem_flatten.2 ⟨piece, hPiece, hc⟩)

-- ---------------------------------------------------------------------------
-- Joining
-- ---------------------------------------------------------------------------

/-- A line that starts with a space is joined to nothing if it is the first one. -/
theorem joinLine_start (hStart : line.head? = some ' ' → done = []) :
    joinLine done line = line :: done := by
  unfold joinLine
  split
  · exact absurd (hStart rfl) (List.cons_ne_nil _ _)
  · rfl

theorem joinLine_space {last piece : List Char} (hLast : last ≠ []) :
    joinLine (last :: done) (' ' :: piece) = (last ++ piece) :: done := by
  rw [joinLine, if_neg (by rwa [List.isEmpty_iff])]

/-- The lines that a line was cut into are one line again. -/
theorem Folded.foldl_joinLine (h : Folded line lines)
    (hStart : line.head? = some ' ' → done = []) : lines.foldl joinLine done = line :: done := by
  obtain ⟨first, more, hFirst, hMore⟩ := h
  have hHead : first.head? = some ' ' → done = [] := by
    cases first with
    | nil => exact nofun
    | cons c first => exact hStart
  rw [List.foldl_cons, joinLine_start hHead]
  clear hHead hStart
  induction more generalizing first with
  | nil => simp
  | cons piece more ih =>
    obtain ⟨hPiece, hRest⟩ := List.forall_mem_cons.1 hMore
    have hSome : first ≠ [] := fun hNil => List.cons_ne_nil _ _ (hFirst hNil)
    rw [List.map_cons, List.foldl_cons, joinLine_space hSome, ih (first ++ piece) _ hRest,
      List.flatten_cons, List.append_assoc]
    exact fun hNil => absurd (List.append_eq_nil_iff.1 hNil).1 hSome

/-- Lines that were cut are joined again behind other lines. -/
theorem foldl_joinLine_flatten {texts : List (List Char)} {groups : List (List (List Char))}
    (h : List.Forall₂ Folded texts groups) (hStart : ∀ line ∈ texts, line.head? ≠ some ' ')
    (done : List (List Char)) : groups.flatten.foldl joinLine done = texts.reverse ++ done := by
  induction h generalizing done with
  | nil => rfl
  | cons hFolded _ ih =>
    obtain ⟨hFirst, hRest⟩ := List.forall_mem_cons.1 hStart
    rw [List.flatten_cons, List.foldl_append, hFolded.foldl_joinLine fun h => absurd h hFirst,
      ih hRest, List.reverse_cons, List.append_assoc, List.singleton_append]

/-- Lines that were cut are joined again, whatever stands behind them, if none of them but the first
one starts with a space. -/
theorem unfold_folded_tail {texts : List (List Char)} {groups : List (List (List Char))}
    (h : List.Forall₂ Folded texts groups) (hStart : ∀ line ∈ texts.tail, line.head? ≠ some ' ')
    (last : List Char) (hLast : last.head? ≠ some ' ') :
    JarManifest.unfold (groups.flatten ++ [last]) = texts ++ [last] := by
  have hAll : groups.flatten.foldl joinLine [] = texts.reverse := by
    cases h with
    | nil => rfl
    | cons hFolded hMore =>
      rw [List.flatten_cons, List.foldl_append, hFolded.foldl_joinLine fun _ => rfl,
        foldl_joinLine_flatten hMore hStart, List.reverse_cons]
  rw [JarManifest.unfold, List.foldl_append, hAll, List.foldl_cons,
    joinLine_start fun h => absurd h hLast, List.foldl_nil, List.reverse_cons, List.reverse_reverse]

/-- Lines that were cut are joined again, whatever stands behind them. -/
theorem unfold_folded {texts : List (List Char)} {groups : List (List (List Char))}
    (h : List.Forall₂ Folded texts groups) (hStart : ∀ line ∈ texts, line.head? ≠ some ' ')
    (last : List Char) (hLast : last.head? ≠ some ' ') :
    JarManifest.unfold (groups.flatten ++ [last]) = texts ++ [last] :=
  unfold_folded_tail h (fun line hMem => hStart line (List.mem_of_mem_tail hMem)) last hLast

/-- The lines of a text are those whose ends were written. -/
theorem rawLines_flatMap (hLines : ∀ line ∈ lines, '\n' ∉ line) :
    rawLines (lines.flatMap (· ++ lineEnd)) = lines ++ [[]] := by
  have hEnds : lines.flatMap (· ++ lineEnd) =
      (lines.map (· ++ ['\r'])).flatMap (· ++ ['\n']) := by
    rw [List.flatMap_map]
    simp only [lineEnd, List.append_assoc, List.singleton_append]
  have hFeed : ∀ piece ∈ lines.map (· ++ ['\r']), '\n' ∉ piece := by
    refine List.forall_mem_map.2 fun line hMem hFeed => ?_
    obtain hFeed | hFeed := List.mem_append.1 hFeed
    · exact hLines line hMem hFeed
    · exact absurd (List.mem_singleton.1 hFeed) (by decide)
  have hStrip : ∀ line, (Text.beforeSuffix? ['\r'] (line ++ ['\r'])).getD (line ++ ['\r']) = line :=
    fun line => by rw [Text.beforeSuffix?_eq_some.2 rfl, Option.getD_some]
  rw [rawLines, hEnds, Text.pieces_flatMap hFeed, List.map_append, List.map_map]
  congr 1
  exact (List.map_congr_left fun line _ => hStrip line).trans (List.map_id lines)

-- ---------------------------------------------------------------------------
-- What is written
-- ---------------------------------------------------------------------------

/-- The line of an attribute, before it is cut. -/
def attributeText (a : String × String) : List Char :=
  a.1.toList ++ ':' :: ' ' :: a.2.toList

/-- The lines of a section. -/
def sectionTexts (entry : String × OrderedMap String String) : List (List Char) :=
  (("Name", entry.1) :: entry.2.entries).map attributeText ++ [[]]

/-- The lines of a manifest, before they are cut. -/
def texts (m : JarManifest) : List (List Char) :=
  m.main.entries.map attributeText ++ [[]] ++ m.sections.entries.flatMap sectionTexts

theorem block_eq (attributes : List (String × String)) : block attributes =
    (attributes.map attributeText ++ [[]]).flatMap (fold maxLine · ++ lineEnd) := by
  rw [block, List.flatMap_append, List.flatMap_map]
  rfl

variable {m : JarManifest}

theorem toChars_eq (hVersion : (m.mainAttribute? "Manifest-Version").isSome) :
    m.toChars = m.texts.flatMap (fold maxLine · ++ lineEnd) := by
  have hThere : (m.mainAttribute? "Manifest-Version").isNone = false := by
    rw [Option.isNone_eq_false_iff]
    exact hVersion
  unfold toChars texts
  dsimp only
  rw [hThere, if_neg Bool.false_ne_true, List.nil_append, List.flatMap_append, ← block_eq,
    List.flatMap_assoc]
  congr 1
  exact List.flatMap_congr fun entry _ => block_eq _

/-- A text that keeps to its line. -/
def IsOneLine (text : String) : Prop := ∀ c ∈ text.toList, c ≠ '\r' ∧ c ≠ '\n'

/-- A text that can name an attribute. -/
def IsKey (key : String) : Prop :=
  IsOneLine key ∧ ':' ∉ key.toList ∧ key.toList.head? ≠ some ' '

/-- Attributes that can be told apart in their written form. -/
def AreWritable (attributes : OrderedMap String String) : Prop :=
  ∀ a ∈ attributes.entries, IsKey a.1 ∧ IsOneLine a.2

/-- A manifest that has a version and whose attributes can be told apart in their written form. -/
structure Writable (m : JarManifest) : Prop where
  version : (m.mainAttribute? "Manifest-Version").isSome
  main : AreWritable m.main
  names : ∀ name ∈ m.sections.keys, IsOneLine name
  sections : ∀ attributes ∈ m.sections.values, AreWritable attributes

instance (text : String) : Decidable (IsOneLine text) :=
  inferInstanceAs (Decidable (∀ c ∈ text.toList, c ≠ '\r' ∧ c ≠ '\n'))

instance (key : String) : Decidable (IsKey key) :=
  inferInstanceAs (Decidable (IsOneLine key ∧ ':' ∉ key.toList ∧ key.toList.head? ≠ some ' '))

instance (attributes : OrderedMap String String) : Decidable (AreWritable attributes) :=
  inferInstanceAs (Decidable (∀ a ∈ attributes.entries, IsKey a.1 ∧ IsOneLine a.2))

theorem IsKey.head? {a : String × String} (h : IsKey a.1) : (attributeText a).head? ≠ some ' ' := by
  obtain ⟨-, -, hHead⟩ := h
  rw [attributeText]
  cases hKey : a.1.toList with
  | nil => simp
  | cons c rest => simpa [hKey] using hHead

theorem not_mem_attributeText {a : String × String} (hKey : IsOneLine a.1)
    (hValue : IsOneLine a.2) :
    '\r' ∉ attributeText a ∧ '\n' ∉ attributeText a := by
  have hAll : ∀ c ∈ attributeText a, c ≠ '\r' ∧ c ≠ '\n' := by
    intro c hMem
    rw [attributeText, List.mem_append, List.mem_cons, List.mem_cons] at hMem
    obtain hMem | rfl | rfl | hMem := hMem
    · exact hKey c hMem
    · decide
    · decide
    · exact hValue c hMem
  exact ⟨fun hMem => (hAll _ hMem).1 rfl, fun hMem => (hAll _ hMem).2 rfl⟩

-- ---------------------------------------------------------------------------
-- Reading lines
-- ---------------------------------------------------------------------------

section Steps

variable {main : OrderedMap String String} {sections : OrderedMap String (OrderedMap String String)}
  {attributes : OrderedMap String String} {current : Option String} {key value name : String}

theorem cutFirst?_attributeText (hKey : ':' ∉ key.toList) :
    Text.cutFirst? ':' (attributeText (key, value)) = some (key.toList, ' ' :: value.toList) :=
  Text.cutFirst?_eq_some.2 ⟨hKey, rfl⟩

theorem isEmpty_attributeText (a : String × String) : (attributeText a).isEmpty = false := by
  simp [attributeText]

theorem step_main (hKey : ':' ∉ key.toList) :
    step ⟨⟨main, sections⟩, true, current⟩ (attributeText (key, value)) =
      ⟨⟨main.insert key value, sections⟩, true, current⟩ := by
  rw [step, isEmpty_attributeText, cutFirst?_attributeText hKey]
  simp [Text.afterPrefix?]

theorem step_name :
    step ⟨⟨main, sections⟩, false, none⟩ (attributeText ("Name", name)) =
      ⟨⟨main, sections.update name ∅ id⟩, false, some name⟩ := by
  have hName : Text.equalsIgnoringCase "Name" "Name" = true := by decide
  rw [step, isEmpty_attributeText, cutFirst?_attributeText (by decide)]
  simp [Text.afterPrefix?, hName]

theorem step_attribute (hKey : ':' ∉ key.toList) :
    step ⟨⟨main, sections⟩, false, some name⟩ (attributeText (key, value)) =
      ⟨⟨main, sections.update name ∅ (·.insert key value)⟩, false, some name⟩ := by
  rw [step, isEmpty_attributeText, cutFirst?_attributeText hKey]
  simp [Text.afterPrefix?]

/-- Lines of main attributes. -/
theorem foldl_step_main {l : List (String × String)} (hKeys : ∀ a ∈ l, ':' ∉ a.1.toList) :
    (l.map attributeText).foldl step ⟨⟨main, sections⟩, true, current⟩ =
      ⟨⟨l.foldl (fun m a => m.insert a.1 a.2) main, sections⟩, true, current⟩ := by
  induction l generalizing main with
  | nil => rfl
  | cons a more ih =>
    obtain ⟨hFirst, hMore⟩ := List.forall_mem_cons.1 hKeys
    rw [List.map_cons, List.foldl_cons, step_main hFirst, ih hMore, List.foldl_cons]

/-- Lines of attributes of an entry whose section has been opened. -/
theorem foldl_step_attributes {l : List (String × String)} (hKeys : ∀ a ∈ l, ':' ∉ a.1.toList) :
    (l.map attributeText).foldl step ⟨⟨main, sections.insert name attributes⟩, false, some name⟩ =
      ⟨⟨main, sections.insert name (l.foldl (fun m a => m.insert a.1 a.2) attributes)⟩, false,
        some name⟩ := by
  induction l generalizing attributes with
  | nil => rfl
  | cons a more ih =>
    obtain ⟨hFirst, hMore⟩ := List.forall_mem_cons.1 hKeys
    rw [List.map_cons, List.foldl_cons, step_attribute hFirst, update_insert, ih hMore,
      List.foldl_cons]

/-- Attributes that are taken in one by one. -/
theorem foldl_insert_entries (attributes : OrderedMap String String) :
    attributes.entries.foldl (fun m a => m.insert a.1 a.2) ∅ = attributes :=
  OrderedMap.ext (entries_ofList attributes.nodup)

/-- The lines of a section whose name is new. -/
theorem foldl_step_section (hNew : name ∉ sections.keys)
    (hKeys : ∀ a ∈ attributes.entries, ':' ∉ a.1.toList) :
    (sectionTexts (name, attributes)).foldl step ⟨⟨main, sections⟩, false, none⟩ =
      ⟨⟨main, sections.insert name attributes⟩, false, none⟩ := by
  rw [sectionTexts, List.map_cons, List.cons_append, List.foldl_cons, step_name,
    update_of_not_mem hNew, List.foldl_append, id, foldl_step_attributes hKeys,
    foldl_insert_entries]
  rfl

end Steps

/-- The lines of a manifest read as the manifest. -/
theorem foldl_step_texts (hMain : ∀ a ∈ m.main.entries, ':' ∉ a.1.toList)
    (hSections : ∀ s ∈ m.sections.entries, ∀ a ∈ s.2.entries, ':' ∉ a.1.toList) :
    m.texts.foldl step ⟨empty, true, none⟩ = ⟨m, false, none⟩ := by
  have hClosed : (m.main.entries.map attributeText ++ [[]]).foldl step ⟨empty, true, none⟩ =
      ⟨⟨m.main, ∅⟩, false, none⟩ := by
    rw [List.foldl_append, empty, foldl_step_main hMain, foldl_insert_entries]
    rfl
  have hEntry : ∀ n : OrderedMap String (OrderedMap String String), ∀ e ∈ m.sections.entries,
      e.1 ∉ n.keys → (sectionTexts e).foldl step ⟨⟨m.main, n⟩, false, none⟩ =
        ⟨⟨m.main, n.insert e.1 e.2⟩, false, none⟩ :=
    fun n e hMem hNew => foldl_step_section hNew (hSections e hMem)
  have hSame : m.sections.mapValues (fun _ attributes => attributes) = m.sections :=
    OrderedMap.ext (List.map_id _)
  have hAll : m.sections.entries.foldl (fun p e => (sectionTexts e).foldl step p)
      ⟨⟨m.main, ∅⟩, false, none⟩ =
        ⟨⟨m.main, m.sections.mapValues fun _ attributes => attributes⟩, false, none⟩ :=
    foldl_entries (fun n => (⟨⟨m.main, n⟩, false, none⟩ : Progress)) hEntry
  rw [texts, List.foldl_append, hClosed, List.foldl_flatMap, hAll, hSame]

-- ---------------------------------------------------------------------------
-- Manifests
-- ---------------------------------------------------------------------------

theorem Writable.of_section (h : m.Writable) {e : String × OrderedMap String String}
    (hMem : e ∈ m.sections.entries) : IsOneLine e.1 ∧ AreWritable e.2 :=
  ⟨h.names e.1 (List.mem_map_of_mem hMem), h.sections e.2 (List.mem_map_of_mem hMem)⟩

/-- What holds of the empty line and of the lines of attributes holds of all lines. -/
theorem Writable.forall_texts (h : m.Writable) {P : List Char → Prop} (hEmpty : P [])
    (hText : ∀ a : String × String, IsKey a.1 → IsOneLine a.2 → P (attributeText a)) :
    ∀ line ∈ m.texts, P line := by
  have hName : IsKey "Name" := by
    refine ⟨fun c hMem => ?_, by decide, by decide⟩
    revert c
    decide
  have hAttributes : ∀ {attributes}, AreWritable attributes →
      ∀ a ∈ attributes.entries, P (attributeText a) :=
    fun hWritable a hMem => hText a (hWritable a hMem).1 (hWritable a hMem).2
  intro line hMem
  rw [texts, List.mem_append, List.mem_append, List.mem_singleton] at hMem
  obtain (hMem | rfl) | hMem := hMem
  · obtain ⟨a, ha, rfl⟩ := List.mem_map.1 hMem
    exact hAttributes h.main a ha
  · exact hEmpty
  · obtain ⟨e, he, hMem⟩ := List.mem_flatMap.1 hMem
    obtain ⟨hLine, hWritable⟩ := h.of_section he
    rw [sectionTexts, List.map_cons, List.cons_append, List.mem_cons, List.mem_append,
      List.mem_singleton] at hMem
    obtain rfl | hMem | rfl := hMem
    · exact hText _ hName hLine
    · obtain ⟨a, ha, rfl⟩ := List.mem_map.1 hMem
      exact hAttributes hWritable a ha
    · exact hEmpty

/-- All lines of a text are cut into short lines. -/
theorem exists_groups (texts : List (List Char)) : ∃ groups,
    List.Forall₂ Folded texts groups ∧
      texts.flatMap (fold maxLine · ++ lineEnd) = groups.flatten.flatMap (· ++ lineEnd) ∧
      ∀ line ∈ groups.flatten, byteLength line ≤ maxLine := by
  induction texts with
  | nil => exact ⟨[], .nil, rfl, nofun⟩
  | cons line more ih =>
    obtain ⟨lines, hFolded, hWritten, hShort⟩ := exists_folded line
    obtain ⟨groups, hMore, hAll, hAllShort⟩ := ih
    refine ⟨lines :: groups, .cons hFolded hMore, ?_, ?_⟩
    · rw [List.flatMap_cons, hWritten, hAll, List.flatten_cons, List.flatMap_append]
    · rw [List.flatten_cons, List.forall_mem_append]
      exact ⟨hShort, hAllShort⟩

/-- Cutting adds no character but spaces. -/
theorem not_mem_flatten {texts : List (List Char)} {groups : List (List (List Char))} {c : Char}
    (h : List.Forall₂ Folded texts groups) (hSpace : c ≠ ' ') (hTexts : ∀ line ∈ texts, c ∉ line) :
    ∀ line ∈ groups.flatten, c ∉ line := by
  induction h with
  | nil => exact nofun
  | cons hFolded _ ih =>
    obtain ⟨hFirst, hMore⟩ := List.forall_mem_cons.1 hTexts
    rw [List.flatten_cons, List.forall_mem_append]
    refine ⟨fun l hl hMem => ?_, ih hMore⟩
    exact (hFolded.mem hl hMem).elim hSpace hFirst

/-- Lines are encoded one by one. -/
theorem encode_flatMap (lines : List (List Char)) :
    Utf8.encode (String.ofList (lines.flatMap (· ++ lineEnd))) =
      lines.flatMap fun line => Utf8.encode (String.ofList line) ++ [13, 10] := by
  simp only [Utf8.encode, String.toList_ofList, List.flatMap_assoc, List.flatMap_append]
  rfl

/-- **A written manifest reads back,** with its attributes and sections in their order. No line is
longer than 72 bytes, lines are cut between characters only, and a line is cut into no more lines
than it has characters. -/
theorem parse_toBytes_of_writable (h : m.Writable) :
    parse m.toBytes = m ∧ ∃ groups,
      List.Forall₂ (fun line lines => Folded line lines ∧ lines.length ≤ max 1 line.length)
        m.texts groups ∧
      (m.toBytes =
        groups.flatten.flatMap fun line => Utf8.encode (String.ofList line) ++ [13, 10]) ∧
      ∀ line ∈ groups.flatten, '\r' ∉ line ∧ '\n' ∉ line ∧
        (Utf8.encode (String.ofList line)).length ≤ 72 := by
  obtain ⟨groups, hFolded, hWritten, hShort⟩ := exists_groups m.texts
  have hChars : m.toChars = groups.flatten.flatMap (· ++ lineEnd) :=
    (toChars_eq h.version).trans hWritten
  have hEnds : ∀ line ∈ m.texts, '\r' ∉ line ∧ '\n' ∉ line :=
    h.forall_texts ⟨nofun, nofun⟩ fun _ hKey hValue => not_mem_attributeText hKey.1 hValue
  have hReturn := not_mem_flatten hFolded (by decide) fun line hMem => (hEnds line hMem).1
  have hFeed := not_mem_flatten hFolded (by decide) fun line hMem => (hEnds line hMem).2
  refine ⟨?_, groups, hFolded.imp fun _ _ h => ⟨h, h.length_le⟩, ?_, fun line hMem =>
    ⟨hReturn line hMem, hFeed line hMem, hShort line hMem⟩⟩
  · have hSections : ∀ e ∈ m.sections.entries, ∀ a ∈ e.2.entries, ':' ∉ a.1.toList :=
      fun e he a ha => ((h.of_section he).2 a ha).1.2.1
    rw [parse, toBytes, Utf8.lenient_encode, String.toList_ofList, hChars, rawLines_flatMap hFeed,
      unfold_folded hFolded (h.forall_texts nofun fun _ hKey _ => hKey.head?) [] nofun,
      List.foldl_append, foldl_step_texts (fun a ha => (h.main a ha).1.2.1) hSections]
    rfl
  · rw [toBytes, hChars, encode_flatMap]

/-- A version in small letters, a value that is cut inside its run of three-byte characters and
starts with two spaces, a section without a name, an attribute that is called like the line of a name,
and a section without attributes. -/
def windingManifest : JarManifest :=
  ⟨.ofList [("manifest-version", "1.0"), ("X", "  ☃☃☃☃☃☃☃☃☃☃☃☃☃☃☃☃☃☃☃☃☃☃☃☃☃☃☃☃☃☃"), ("", "")],
    .ofList [("", .ofList [("Name", "a: b"), ("name", " ")]), ("a/B.class", ∅)]⟩

theorem parse_toBytes_windingManifest :
    windingManifest.Writable ∧ parse windingManifest.toBytes = windingManifest := by
  have hWritable : windingManifest.Writable :=
    ⟨by decide, by decide +kernel, by decide, by decide⟩
  exact ⟨hWritable, (parse_toBytes_of_writable hWritable).1⟩

end Jarsmith.JarManifest
