import Jarsmith.Proofs.Jar.Manifest
import Mathlib.Data.List.Chain

/-!
# Manifests that were read

Any bytes are read as a manifest, and a manifest that was read can be written and read again: no key
or value holds what ends a line, no key holds a colon, and no line but the first one starts with a
space, which would join it to the line before.

* `isChain_unfold` — only behind an empty line does a line start with a space.
* `Legible`, `legible_parse` — what every manifest that was read keeps to.
* `parse_toBytes_of_legible`, `parse_toBytes_versioned` — such a manifest is written and read again,
  with a version in front if it has none.
* `FoldedText` — lines that are cut at any byte; `joinLines_pieces` joins the pieces of one.
* `parse_folded` — what is read from them.
-/

namespace Jarsmith.JarManifest

open OrderedMap

-- ---------------------------------------------------------------------------
-- Lines
-- ---------------------------------------------------------------------------

/-- Only behind an empty line does a line start with a space. -/
def Follows (line next : List Char) : Prop := next.head? = some ' ' → line = []

theorem isChain_joinLine {done : List (List Char)} {line : List Char}
    (h : done.IsChain fun next line => Follows line next) :
    (joinLine done line).IsChain fun next line => Follows line next := by
  unfold joinLine
  split
  · rename_i rest last before
    split
    · rename_i hEmpty
      exact .cons_cons (fun _ => List.isEmpty_iff.1 hEmpty) h
    · rename_i hSome
      rw [List.isEmpty_iff] at hSome
      have hHead : (last ++ rest).head? = last.head? := by
        rw [List.head?_append_of_ne_nil _ hSome]
      cases h with
      | singleton => exact .singleton _
      | cons_cons hFirst hMore => exact .cons_cons (fun h => hFirst (hHead ▸ h)) hMore
  · rename_i hNot
    cases done with
    | nil => exact .singleton line
    | cons last before =>
      refine .cons_cons (fun hStart => ?_) h
      cases line with
      | nil => cases hStart
      | cons c rest =>
        obtain rfl := Option.some.inj hStart
        exact absurd rfl (hNot rest last before rfl)

/-- **Only behind an empty line does a line start with a space** when folded lines are joined. -/
theorem isChain_unfold (lines : List (List Char)) : (unfold lines).IsChain Follows := by
  rw [unfold, List.isChain_reverse]
  exact List.foldlRecOn (motive := List.IsChain fun next line => Follows line next) lines joinLine
    .nil fun _ h _ _ => isChain_joinLine h

theorem not_mem_joinLine {done : List (List Char)} {line : List Char} {c : Char}
    (hDone : ∀ l ∈ done, c ∉ l) (hLine : c ∉ line) : ∀ l ∈ joinLine done line, c ∉ l := by
  unfold joinLine
  split
  · obtain ⟨hLast, hBefore⟩ := List.forall_mem_cons.1 hDone
    rw [List.mem_cons, not_or] at hLine
    split
    · exact List.forall_mem_cons.2 ⟨fun h => (List.mem_cons.1 h).elim hLine.1 hLine.2, hDone⟩
    · refine List.forall_mem_cons.2 ⟨fun h => ?_, hBefore⟩
      exact (List.mem_append.1 h).elim hLast hLine.2
  · exact List.forall_mem_cons.2 ⟨hLine, hDone⟩

theorem not_mem_pieces {c : Char} (text : List Char) : ∀ piece ∈ Text.pieces c text, c ∉ piece := by
  induction text with
  | nil => simp [Text.pieces]
  | cons d rest ih =>
    rw [Text.pieces]
    split
    · exact List.forall_mem_cons.2 ⟨List.not_mem_nil, ih⟩
    · rename_i hOther
      split
      · exact List.forall_mem_singleton.2 fun h => hOther (List.mem_singleton.1 h).symm
      · rename_i piece more hPieces
        rw [hPieces, List.forall_mem_cons] at ih
        refine List.forall_mem_cons.2 ⟨fun h => ?_, ih.2⟩
        exact (List.mem_cons.1 h).elim (fun h => hOther h.symm) ih.1

/-- A line without the carriage return of its end. -/
theorem strip_isPrefix (line : List Char) :
    (Text.beforeSuffix? ['\r'] line).getD line <+: line := by
  cases hStrip : Text.beforeSuffix? ['\r'] line with
  | none => exact List.prefix_refl line
  | some front =>
    rw [Text.beforeSuffix?_eq_some.1 hStrip]
    exact List.prefix_append front _

/-- No line holds what ends a line. -/
theorem not_mem_unfold (text : List Char) : ∀ line ∈ unfold (rawLines text), '\n' ∉ line := by
  have hRaw : ∀ line ∈ rawLines text, '\n' ∉ line := by
    refine List.forall_mem_map.2 fun piece hMem hFeed => ?_
    exact not_mem_pieces text piece hMem ((strip_isPrefix piece).subset hFeed)
  intro line hMem
  rw [unfold, List.mem_reverse] at hMem
  exact List.foldlRecOn (motive := fun done => ∀ l ∈ done, '\n' ∉ l) (rawLines text) joinLine
    (List.forall_mem_nil _) (fun _ hDone line hLine => not_mem_joinLine hDone (hRaw line hLine))
    line hMem

/-- The first piece is what the text starts with. -/
theorem exists_pieces_prefix (c : Char) (text : List Char) :
    ∃ piece more, Text.pieces c text = piece :: more ∧ piece <+: text := by
  induction text with
  | nil => exact ⟨[], [], rfl, List.nil_prefix⟩
  | cons d rest ih =>
    obtain ⟨piece, more, hPieces, hPrefix⟩ := ih
    rw [Text.pieces]
    split
    · exact ⟨[], _, rfl, List.nil_prefix⟩
    · rw [hPieces]
      exact ⟨d :: piece, more, rfl, List.cons_prefix_cons.2 ⟨rfl, hPrefix⟩⟩

/-- What is joined to the first line leaves its start alone. -/
theorem getLast?_joinLine {done : List (List Char)} {first : List Char} (line : List Char)
    (hFirst : done.getLast? = some first) :
    ∃ last, (joinLine done line).getLast? = some last ∧ last.head? = first.head? := by
  have hBehind : (line :: done).getLast? = some first := by
    rw [List.getLast?_cons, hFirst, Option.getD_some]
  unfold joinLine
  split
  · rename_i rest last before
    split
    · exact ⟨first, hBehind, rfl⟩
    · rename_i hSome
      rw [List.isEmpty_iff] at hSome
      rw [List.getLast?_cons] at hFirst ⊢
      cases hBefore : before.getLast? with
      | none =>
        rw [hBefore] at hFirst
        obtain rfl := Option.some.inj hFirst
        exact ⟨last ++ rest, rfl, List.head?_append_of_ne_nil _ hSome⟩
      | some other =>
        rw [hBefore] at hFirst
        exact ⟨first, hFirst, rfl⟩
  · exact ⟨first, hBehind, rfl⟩

/-- The first line starts as the text does. -/
theorem head?_of_unfold {text first : List Char}
    (hFirst : (unfold (rawLines text)).head? = some first) (hStart : first.head? = some ' ') :
    text.head? = some ' ' := by
  obtain ⟨line, more, hRaw, hPrefix⟩ :
      ∃ line more, rawLines text = line :: more ∧ line <+: text := by
    obtain ⟨piece, more, hPieces, hPrefix⟩ := exists_pieces_prefix '\n' text
    exact ⟨_, _, by rw [rawLines, hPieces, List.map_cons], (strip_isPrefix piece).trans hPrefix⟩
  have hStep : ∀ done : List (List Char),
      (∃ last, done.getLast? = some last ∧ last.head? = line.head?) → ∀ next ∈ more,
        ∃ last, (joinLine done next).getLast? = some last ∧ last.head? = line.head? := by
    rintro done ⟨last, hLast, hHead⟩ next -
    exact hHead ▸ getLast?_joinLine next hLast
  have hLast : ∃ last, (more.foldl joinLine [line]).getLast? = some last ∧
      last.head? = line.head? :=
    List.foldlRecOn (motive := fun done => ∃ last, done.getLast? = some last ∧
      last.head? = line.head?) more joinLine ⟨line, rfl, rfl⟩ hStep
  obtain ⟨last, hLast, hHead⟩ := hLast
  have hAlone : joinLine [] line = [line] :=
    joinLine_start fun _ => (rfl : ([] : List (List Char)) = [])
  rw [hRaw, unfold, List.head?_reverse, List.foldl_cons, hAlone, hLast] at hFirst
  obtain rfl := Option.some.inj hFirst
  obtain ⟨rest, rfl⟩ := hPrefix
  rw [List.head?_append, ← hHead, hStart, Option.some_or]

-- ---------------------------------------------------------------------------
-- What is read
-- ---------------------------------------------------------------------------

/-- An attribute that keeps to its line, with a key that ends where the line says. -/
structure IsLegible (a : String × String) : Prop where
  colon : ':' ∉ a.1.toList
  key : '\n' ∉ a.1.toList
  value : '\n' ∉ a.2.toList

/-- A manifest whose attributes can be told apart in their written form, if at most the first
`spaced` of them start with a space. -/
structure Legible (spaced : Nat) (m : JarManifest) : Prop where
  main : ∀ a ∈ m.main.entries, IsLegible a
  starts : ∀ key ∈ m.main.keys.drop spaced, key.toList.head? ≠ some ' '
  names : ∀ name ∈ m.sections.keys, '\n' ∉ name.toList
  sections : ∀ s ∈ m.sections.entries, ∀ a ∈ s.2.entries,
    IsLegible a ∧ a.1.toList.head? ≠ some ' '

/-- What holds of the progress behind the line `last`. -/
structure ReadTo (spaced : Nat) (last : List Char) (p : Progress) : Prop where
  legible : Legible spaced p.manifest
  current : ∀ name, p.current = some name → '\n' ∉ name.toList
  inMain : p.inMain = true → last = [] → p.manifest.main = ∅ ∧ 0 < spaced
  inSection : p.current ≠ none → last ≠ []

variable {spaced : Nat} {m : JarManifest} {key value name : String}

theorem Legible.insert_main (h : Legible spaced m) (hNew : IsLegible (key, value))
    (hStart : key.toList.head? = some ' ' → m.main = ∅ ∧ 0 < spaced) :
    Legible spaced { m with main := m.main.insert key value } := by
  refine { h with main := forall_entries_insert h.main hNew, starts := ?_ }
  show ∀ k ∈ (m.main.insert key value).keys.drop spaced, _
  rw [keys_insert]
  split
  · exact h.starts
  · intro k hk hSpace
    rw [List.drop_append] at hk
    rcases List.mem_append.1 hk with hOld | hNew
    · exact h.starts k hOld hSpace
    · obtain rfl := List.mem_singleton.1 (List.mem_of_mem_drop hNew)
      obtain ⟨hEmpty, hSome⟩ := hStart hSpace
      rw [hEmpty] at hNew
      have hNone : [k].drop (spaced - 0) = [] := List.drop_of_length_le (by simp; omega)
      exact absurd (hNone ▸ hNew) List.not_mem_nil

theorem Legible.insert_section {attributes : OrderedMap String String} (h : Legible spaced m)
    (hName : '\n' ∉ name.toList)
    (hNew : ∀ a ∈ attributes.entries, IsLegible a ∧ a.1.toList.head? ≠ some ' ') :
    Legible spaced { m with sections := m.sections.insert name attributes } where
  main := h.main
  starts := h.starts
  names k hk := (mem_keys_insert.1 hk).elim (fun hSame => hSame ▸ hName) (h.names k)
  sections := forall_entries_insert h.sections hNew

theorem Legible.of_get? {attributes : OrderedMap String String} (h : Legible spaced m)
    (hGet : m.sections.get? name = some attributes) :
    ∀ a ∈ attributes.entries, IsLegible a ∧ a.1.toList.head? ≠ some ' ' :=
  h.sections _ (get?_eq_some.1 hGet)

/-- The key and the value of a line. -/
theorem isLegible_of_cutFirst? {line before after : List Char} (hLine : '\n' ∉ line)
    (hCut : Text.cutFirst? ':' line = some (before, after)) :
    IsLegible (String.ofList before,
      String.ofList ((Text.afterPrefix? [' '] after).getD after)) ∧
      (before.head? = some ' ' → line.head? = some ' ') := by
  obtain ⟨hColon, rfl⟩ := Text.cutFirst?_eq_some.1 hCut
  rw [List.mem_append, List.mem_cons, not_or, not_or] at hLine
  obtain ⟨hBefore, -, hAfter⟩ := hLine
  refine ⟨⟨by rwa [String.toList_ofList], by rwa [String.toList_ofList], ?_⟩, fun h => ?_⟩
  · rw [String.toList_ofList]
    cases hStrip : Text.afterPrefix? [' '] after with
    | none => exact hAfter
    | some rest =>
      rw [Text.afterPrefix?_eq_some.1 hStrip] at hAfter
      exact fun hMem => hAfter (List.mem_append_right _ hMem)
  · rw [List.head?_append, h, Option.some_or]

/-- A line of main attributes, the line that opens a section, or a line of a section. -/
theorem ReadTo.step {p : Progress} {last line : List Char} (h : ReadTo spaced last p)
    (hLine : '\n' ∉ line) (hFollows : Follows last line) : ReadTo spaced line (step p line) := by
  unfold JarManifest.step
  split
  · rename_i hEmpty
    exact ⟨h.legible, nofun, nofun, fun h => absurd rfl h⟩
  rename_i hSome
  rw [List.isEmpty_iff] at hSome
  split
  · exact ⟨h.legible, h.current, fun _ hEmpty => absurd hEmpty hSome, fun _ => hSome⟩
  rename_i key value hCut
  obtain ⟨hNew, hStart⟩ := isLegible_of_cutFirst? hLine hCut
  -- a key that starts with a space stands in a line that does
  have hLast : (String.ofList key).toList.head? = some ' ' → last = [] := fun h =>
    hFollows (hStart (by rwa [String.toList_ofList] at h))
  dsimp only
  split
  · rename_i hMain
    exact ⟨h.legible.insert_main hNew fun hSpace => h.inMain hMain (hLast hSpace), h.current,
      fun _ hEmpty => absurd hEmpty hSome, fun _ => hSome⟩
  · rename_i hNotMain
    split
    · rename_i hNone
      split
      · refine ⟨h.legible.insert_section hNew.value ?_, fun _ hName => ?_,
          fun hMain => absurd hMain hNotMain, fun _ => hSome⟩
        · cases hGet : p.manifest.sections.get? _ with
          | none => exact nofun
          | some attributes => exact h.legible.of_get? hGet
        · exact Option.some.inj hName ▸ hNew.value
      · exact ⟨h.legible, h.current, fun _ hEmpty => absurd hEmpty hSome, fun _ => hSome⟩
    · rename_i name hName
      have hOpen : last ≠ [] := h.inSection (by rw [hName]; exact nofun)
      refine ⟨h.legible.insert_section (h.current name hName) ?_, h.current,
        fun hMain => absurd hMain hNotMain, fun _ => hSome⟩
      refine forall_entries_insert ?_ ⟨hNew, fun hSpace => hOpen (hLast hSpace)⟩
      cases hGet : p.manifest.sections.get? name with
      | none => exact nofun
      | some attributes => exact h.legible.of_get? hGet

theorem ReadTo.foldl {p : Progress} {lines : List (List Char)} {last : List Char}
    (h : ReadTo spaced last p) (hLines : ∀ line ∈ lines, '\n' ∉ line)
    (hFollows : (last :: lines).IsChain Follows) :
    Legible spaced (lines.foldl JarManifest.step p).manifest := by
  induction lines generalizing last p with
  | nil => exact h.legible
  | cons line more ih =>
    obtain ⟨hLine, hMore⟩ := List.forall_mem_cons.1 hLines
    obtain ⟨hNext, hRest⟩ := List.isChain_cons_cons.1 hFollows
    exact ih (h.step hLine hNext) hMore hRest

theorem readTo_empty {last : List Char} (hLast : last = [] → 0 < spaced) :
    ReadTo spaced last ⟨empty, true, none⟩ where
  legible := ⟨nofun, by simp [empty, keys], nofun, nofun⟩
  current := nofun
  inMain _ hEmpty := ⟨rfl, hLast hEmpty⟩
  inSection h := absurd rfl h

/-- **Whatever is read can be told apart in its written form.** Only the first main attribute may
start with a space. -/
theorem legible_parse (bytes : Bytes) : Legible 1 (parse bytes) := by
  have hFollows : ([] :: unfold (rawLines (Utf8.lenient bytes).toList)).IsChain Follows :=
    List.isChain_cons.2 ⟨fun _ _ _ => rfl, isChain_unfold _⟩
  exact (readTo_empty fun _ => Nat.one_pos).foldl (not_mem_unfold _) hFollows

/-- No main attribute starts with a space if the text does not. -/
theorem legible_parse_of_start {bytes : Bytes}
    (hStart : (Utf8.lenient bytes).toList.head? ≠ some ' ') : Legible 0 (parse bytes) := by
  have hFollows : ([':'] :: unfold (rawLines (Utf8.lenient bytes).toList)).IsChain Follows :=
    List.isChain_cons.2
      ⟨fun _ hFirst hSpace => absurd (head?_of_unfold hFirst hSpace) hStart, isChain_unfold _⟩
  exact (readTo_empty fun h => absurd h (List.cons_ne_nil _ _)).foldl (not_mem_unfold _) hFollows

theorem Legible.mono (h : Legible 0 m) : Legible 1 m :=
  { h with starts := fun key hKey => h.starts key (List.mem_of_mem_drop hKey) }

-- ---------------------------------------------------------------------------
-- Written and read again
-- ---------------------------------------------------------------------------

theorem IsLegible.not_mem (a : String × String) (h : IsLegible a) : '\n' ∉ attributeText a := by
  rw [attributeText, List.mem_append, List.mem_cons, List.mem_cons]
  rintro (hKey | hColon | hSpace | hValue)
  · exact h.key hKey
  · exact absurd hColon (by decide)
  · exact absurd hSpace (by decide)
  · exact h.value hValue

theorem head?_attributeText {a : String × String} (h : a.1.toList.head? ≠ some ' ') :
    (attributeText a).head? ≠ some ' ' := by
  rw [attributeText]
  cases hKey : a.1.toList with
  | nil => simp
  | cons c rest => simpa [hKey] using h

theorem Legible.not_mem_texts (h : Legible spaced m) : ∀ line ∈ m.texts, '\n' ∉ line := by
  intro line hMem
  rw [texts, List.mem_append, List.mem_append, List.mem_singleton] at hMem
  obtain (hMem | rfl) | hMem := hMem
  · obtain ⟨a, ha, rfl⟩ := List.mem_map.1 hMem
    exact (h.main a ha).not_mem
  · exact List.not_mem_nil
  · obtain ⟨s, hs, hMem⟩ := List.mem_flatMap.1 hMem
    rw [sectionTexts, List.map_cons, List.cons_append, List.mem_cons, List.mem_append,
      List.mem_singleton] at hMem
    obtain rfl | hMem | rfl := hMem
    · have hName : IsLegible ("Name", s.1) :=
        ⟨(by decide : ':' ∉ "Name".toList), (by decide : '\n' ∉ "Name".toList),
          h.names s.1 (List.mem_map_of_mem hs)⟩
      exact hName.not_mem
    · obtain ⟨a, ha, rfl⟩ := List.mem_map.1 hMem
      exact (h.sections s hs a ha).1.not_mem
    · exact List.not_mem_nil

/-- No line but the first one starts with a space. -/
theorem Legible.head?_texts (h : Legible 1 m) : ∀ line ∈ m.texts.tail, line.head? ≠ some ' ' := by
  have hSections : ∀ line ∈ m.sections.entries.flatMap sectionTexts, line.head? ≠ some ' ' := by
    intro line hMem
    obtain ⟨s, hs, hMem⟩ := List.mem_flatMap.1 hMem
    rw [sectionTexts, List.map_cons, List.cons_append, List.mem_cons, List.mem_append,
      List.mem_singleton] at hMem
    obtain rfl | hMem | rfl := hMem
    · exact head?_attributeText (by decide : "Name".toList.head? ≠ some ' ')
    · obtain ⟨a, ha, rfl⟩ := List.mem_map.1 hMem
      exact head?_attributeText (h.sections s hs a ha).2
    · decide
  have hStarts := h.starts
  rw [texts, keys] at *
  cases hMain : m.main.entries with
  | nil => exact hSections
  | cons a more =>
    rw [hMain] at hStarts
    rw [List.map_cons, List.cons_append, List.cons_append, List.tail_cons, List.forall_mem_append,
      List.forall_mem_append]
    refine ⟨⟨List.forall_mem_map.2 fun b hb => ?_, List.forall_mem_singleton.2 (by decide)⟩,
      hSections⟩
    exact head?_attributeText (hStarts b.1 (List.mem_map_of_mem hb))

/-- **A manifest that was read and has a version is written and read again.** -/
theorem parse_toBytes_of_legible (h : Legible 1 m)
    (hVersion : (m.mainAttribute? "Manifest-Version").isSome) : parse m.toBytes = m := by
  obtain ⟨groups, hFolded, hWritten, -⟩ := exists_groups m.texts
  have hChars : m.toChars = groups.flatten.flatMap (· ++ lineEnd) :=
    (toChars_eq hVersion).trans hWritten
  have hFeed := not_mem_flatten hFolded (by decide) h.not_mem_texts
  rw [parse, toBytes, Utf8.lenient_encode, String.toList_ofList, hChars, rawLines_flatMap hFeed,
    unfold_folded_tail hFolded h.head?_texts [] (by decide), List.foldl_append,
    foldl_step_texts (fun a ha => (h.main a ha).colon) fun s hs a ha =>
      (h.sections s hs a ha).1.colon]
  rfl

/-- The manifest with a version, which comes first if there was none. -/
def versioned (m : JarManifest) : JarManifest :=
  if (m.mainAttribute? "Manifest-Version").isSome then m
  else { m with main := .ofList (("Manifest-Version", "1.0") :: m.main.entries) }

theorem sections_versioned (m : JarManifest) : m.versioned.sections = m.sections := by
  unfold versioned
  split <;> rfl

theorem mainAttribute?_eq_none : m.mainAttribute? name = none ↔
    ∀ key ∈ m.main.keys, Text.equalsIgnoringCase key name = false := by
  rw [mainAttribute?, Option.map_eq_none_iff, List.find?_eq_none, keys, List.forall_mem_map]
  simp only [Bool.not_eq_true]

/-- A version that was missing stands in front of the main attributes. -/
theorem entries_versioned (hNone : m.mainAttribute? "Manifest-Version" = none) :
    m.versioned.main.entries = ("Manifest-Version", "1.0") :: m.main.entries := by
  have hMissing : ¬ (m.mainAttribute? "Manifest-Version").isSome := by
    rw [hNone]
    exact Bool.false_ne_true
  rw [versioned, if_neg hMissing]
  refine entries_ofList (List.nodup_cons.2 ⟨fun hMem => ?_, m.main.nodup⟩)
  exact absurd (mainAttribute?_eq_none.1 hNone _ hMem) (by decide)

theorem isSome_versioned (m : JarManifest) :
    (m.versioned.mainAttribute? "Manifest-Version").isSome := by
  cases hVersion : m.mainAttribute? "Manifest-Version" with
  | some version =>
    have hThere : (m.mainAttribute? "Manifest-Version").isSome := by rw [hVersion]; rfl
    rw [versioned, if_pos hThere]
    exact hThere
  | none =>
    rw [mainAttribute?, entries_versioned hVersion, List.find?_cons_of_pos (by decide)]
    rfl

/-- The version that is written is the one in front. -/
theorem toBytes_versioned (m : JarManifest) : m.versioned.toBytes = m.toBytes := by
  have hChars : m.versioned.toChars = m.toChars := by
    have hThere := isSome_versioned m
    unfold toChars
    rw [Option.isNone_eq_false_iff.2 hThere, sections_versioned, if_neg Bool.false_ne_true]
    cases hVersion : m.mainAttribute? "Manifest-Version" with
    | some version =>
      have hSome : (m.mainAttribute? "Manifest-Version").isSome := by rw [hVersion]; rfl
      rw [versioned, if_pos hSome]
      rfl
    | none =>
      rw [entries_versioned hVersion]
      rfl
  rw [toBytes, hChars, toBytes]

theorem Legible.versioned (h : Legible 0 m) : Legible 0 m.versioned := by
  cases hVersion : m.mainAttribute? "Manifest-Version" with
  | some version =>
    have hSome : (m.mainAttribute? "Manifest-Version").isSome := by rw [hVersion]; rfl
    rw [JarManifest.versioned, if_pos hSome]
    exact h
  | none =>
    have hMain := entries_versioned hVersion
    refine ⟨?_, ?_, ?_, ?_⟩
    · rw [hMain]
      exact List.forall_mem_cons.2 ⟨⟨by decide, by decide, by decide⟩, h.main⟩
    · rw [keys, hMain]
      exact List.forall_mem_cons.2 ⟨by decide, h.starts⟩
    · rw [sections_versioned]
      exact h.names
    · rw [sections_versioned]
      exact h.sections

/-- **A manifest that was read is written and read again,** with a version in front if it had
none. -/
theorem parse_toBytes_versioned (h : Legible 0 m) : parse m.toBytes = m.versioned := by
  rw [← toBytes_versioned]
  exact parse_toBytes_of_legible h.versioned.mono (isSome_versioned m)

-- ---------------------------------------------------------------------------
-- Folded bytes
-- ---------------------------------------------------------------------------

/-- Takes in the lines of a text behind `done`. -/
def joinLines (done : List (List Char)) (text : List Char) : List (List Char) :=
  (rawLines text).foldl joinLine done

theorem parse_eq (bytes : Bytes) : parse bytes =
    ((joinLines [] (Utf8.chars bytes)).reverse.foldl step ⟨empty, true, none⟩).manifest :=
  rfl

/-- The end of a line, with or without a carriage return. -/
inductive LineEnd where
  | feed
  | both

namespace LineEnd

def bytes : LineEnd → Bytes
  | feed => [10]
  | both => [13, 10]

def chars : LineEnd → List Char
  | feed => ['\n']
  | both => ['\r', '\n']

end LineEnd

section Lines

variable {done : List (List Char)} {line first piece : List Char} {more : List (List Char)}

/-- No character of the line is part of a line end. -/
structure IsLine (line : List Char) : Prop where
  feed : '\n' ∉ line
  carriageReturn : '\r' ∉ line

theorem IsLine.strip (h : IsLine line) : (Text.beforeSuffix? ['\r'] line).getD line = line := by
  cases hStrip : Text.beforeSuffix? ['\r'] line with
  | none => rfl
  | some front =>
    refine absurd ?_ h.carriageReturn
    rw [Text.beforeSuffix?_eq_some.1 hStrip]
    exact List.mem_append_right _ List.mem_cons_self

theorem IsLine.joinLines (h : IsLine line) : joinLines done line = joinLine done line := by
  rw [JarManifest.joinLines, rawLines, Text.pieces_of_not_mem h.feed, List.map_singleton, h.strip]
  rfl

theorem IsLine.joinLines_append (h : IsLine line) (e : LineEnd) (rest : List Char) :
    JarManifest.joinLines done (line ++ e.chars ++ rest) =
      JarManifest.joinLines (joinLine done line) rest := by
  cases e with
  | feed =>
    rw [LineEnd.chars, List.append_assoc, List.singleton_append, JarManifest.joinLines, rawLines,
      Text.pieces_append_cons h.feed, List.map_cons, h.strip]
    rfl
  | both =>
    have hFeed : '\n' ∉ line ++ ['\r'] := by
      rw [List.mem_append, List.mem_singleton, not_or]
      exact ⟨h.feed, by decide⟩
    have hSplit : line ++ LineEnd.both.chars ++ rest = (line ++ ['\r']) ++ '\n' :: rest := by
      simp [LineEnd.chars]
    rw [hSplit, JarManifest.joinLines, rawLines, Text.pieces_append_cons hFeed, List.map_cons,
      Text.beforeSuffix?_eq_some.2 rfl]
    rfl

/-- A fold is undone wherever the line itself goes. -/
theorem joinLine_piece (hFirst : first ≠ []) :
    joinLine (joinLine done first) (' ' :: piece) = joinLine done (first ++ piece) := by
  obtain ⟨c, rest, rfl⟩ := List.exists_cons_of_ne_nil hFirst
  by_cases hSpace : c = ' ' ∧ done ≠ []
  · obtain ⟨rfl, hDone⟩ := hSpace
    obtain ⟨last, before, rfl⟩ := List.exists_cons_of_ne_nil hDone
    rw [List.cons_append, joinLine, joinLine]
    split
    · rw [joinLine_space hFirst, List.cons_append]
    · rename_i hLast
      rw [List.isEmpty_iff] at hLast
      rw [joinLine_space fun hNil => hLast (List.append_eq_nil_iff.1 hNil).1, List.append_assoc]
  · have hStart : ∀ l, (c :: l).head? = some ' ' → done = [] := fun l hHead =>
      not_not.1 fun hDone => hSpace ⟨Option.some.inj hHead, hDone⟩
    rw [joinLine_start (hStart rest), joinLine_space hFirst, List.cons_append,
      joinLine_start (hStart _)]

/-- **The pieces of a line are joined** in front of anything that ends a line. -/
theorem joinLines_pieces (done : List (List Char)) (after : List Char)
    (next : List (List Char) → List (List Char))
    (hAfter : ∀ done line, IsLine line → joinLines done (line ++ after) = next (joinLine done line))
    (hBegun : first = [] → more = []) (hLines : ∀ piece ∈ first :: more, IsLine piece) :
    joinLines done (first ++ more.flatMap (fun piece => '\r' :: '\n' :: ' ' :: piece) ++ after) =
      next (joinLine done (first ++ more.flatten)) := by
  induction more generalizing first done with
  | nil => simpa using hAfter done first (hLines first List.mem_cons_self)
  | cons piece more ih =>
    obtain ⟨hFirst, hPiece, hMore⟩ := by simpa only [List.forall_mem_cons] using hLines
    have hSome : first ≠ [] := fun hNil => List.cons_ne_nil _ _ (hBegun hNil)
    have hSpace : IsLine (' ' :: piece) :=
      ⟨List.not_mem_cons_of_ne_of_not_mem (by decide) hPiece.feed,
        List.not_mem_cons_of_ne_of_not_mem (by decide) hPiece.carriageReturn⟩
    have hFolded : first ++ (piece :: more).flatMap (fun piece => '\r' :: '\n' :: ' ' :: piece) ++
        after = first ++ LineEnd.both.chars ++ ((' ' :: piece) ++
          more.flatMap (fun piece => '\r' :: '\n' :: ' ' :: piece) ++ after) := by
      simp [LineEnd.chars]
    rw [hFolded, hFirst.joinLines_append,
      ih (joinLine done first) (fun hNil => absurd hNil (List.cons_ne_nil _ _))
        (List.forall_mem_cons.2 ⟨hSpace, hMore⟩),
      List.cons_append, joinLine_piece hSome, List.flatten_cons]

end Lines

/-- A line in the pieces that folds cut it into, at any byte behind the first one. A piece may be
empty. -/
structure FoldedLine where
  first : Bytes
  more : List Bytes
  begun : first = [] → more = []
  oneLine : ∀ piece ∈ first :: more, 10 ∉ piece ∧ 13 ∉ piece

namespace FoldedLine

/-- The line without its folds. -/
def whole (l : FoldedLine) : Bytes := l.first ++ l.more.flatten

/-- The line with its folds. -/
def folded (l : FoldedLine) : Bytes := l.first ++ l.more.flatMap (13 :: 10 :: 32 :: ·)

/-- The line with every piece decoded for itself. -/
def text (l : FoldedLine) : String := String.ofList ((l.first :: l.more).flatMap Utf8.chars)

end FoldedLine

/-- Lines with their ends, and what stands behind the last end. -/
structure FoldedText where
  ended : List (FoldedLine × LineEnd)
  last : FoldedLine

namespace FoldedText

/-- The text with its lines written as `f` says. -/
def write (t : FoldedText) (f : FoldedLine → Bytes) : Bytes :=
  t.ended.flatMap (fun e => f e.1 ++ e.2.bytes) ++ f t.last

def lines (t : FoldedText) : List FoldedLine := t.ended.map Prod.fst ++ [t.last]

end FoldedText

/-- The bytes are read as a line, at the end of a text and before the end of a line. -/
structure ReadsAs (bytes : Bytes) (line : List Char) : Prop where
  last : ∀ done, joinLines done (Utf8.chars bytes) = joinLine done line
  ended : ∀ done e rest, joinLines done (Utf8.chars (bytes ++ LineEnd.bytes e ++ rest)) =
    joinLines (joinLine done line) (Utf8.chars rest)

theorem chars_append_lineEnd (bytes : Bytes) (e : LineEnd) (rest : Bytes) :
    Utf8.chars (bytes ++ e.bytes ++ rest) = Utf8.chars bytes ++ e.chars ++ Utf8.chars rest := by
  have hFeed : ∀ front, Utf8.chars (front ++ 10 :: rest) =
    Utf8.chars front ++ '\n' :: Utf8.chars rest :=
      fun front => Utf8.chars_append_ascii (by decide) front rest
  cases e with
  | feed => simpa [LineEnd.bytes, LineEnd.chars] using hFeed bytes
  | both =>
    have hBoth : Utf8.chars (bytes ++ 13 :: 10 :: rest) =
        Utf8.chars bytes ++ '\r' :: Utf8.chars (10 :: rest) :=
      Utf8.chars_append_ascii (by decide) bytes _
    simpa [LineEnd.bytes, LineEnd.chars, hBoth] using hFeed []

theorem isLine_chars {bytes : Bytes} (h : 10 ∉ bytes ∧ 13 ∉ bytes) : IsLine (Utf8.chars bytes) :=
  ⟨fun hMem => h.1 (Utf8.mem_of_mem_chars (by decide) (by decide) hMem),
    fun hMem => h.2 (Utf8.mem_of_mem_chars (by decide) (by decide) hMem)⟩

theorem readsAs_chars (bytes : Bytes) (h : IsLine (Utf8.chars bytes)) :
    ReadsAs bytes (Utf8.chars bytes) where
  last _ := h.joinLines
  ended _ e rest := by rw [chars_append_lineEnd, h.joinLines_append]

namespace FoldedLine

variable (l : FoldedLine)

theorem toList_text : l.text.toList = Utf8.chars l.first ++ (l.more.map Utf8.chars).flatten := by
  rw [text, String.toList_ofList, List.flatMap_cons, List.flatMap_def]

/-- **Folds are cut at before anything is decoded together.** -/
theorem chars_folded : Utf8.chars l.folded = Utf8.chars l.first ++
    (l.more.map Utf8.chars).flatMap fun piece => '\r' :: '\n' :: ' ' :: piece := by
  rw [folded]
  generalize l.first = first
  induction l.more generalizing first with
  | nil => simp
  | cons piece more ih =>
    have hReturn : ∀ rest, Utf8.chars (first ++ 13 :: rest) =
        Utf8.chars first ++ '\r' :: Utf8.chars rest :=
      Utf8.chars_append_ascii (by decide) first
    have hFeed : ∀ rest, Utf8.chars (10 :: rest) = '\n' :: Utf8.chars rest :=
      Utf8.chars_append_ascii (by decide) []
    have hSpace : ∀ rest, Utf8.chars (32 :: rest) = ' ' :: Utf8.chars rest :=
      Utf8.chars_append_ascii (by decide) []
    rw [List.flatMap_cons, List.cons_append, List.cons_append, List.cons_append, hReturn, hFeed,
      hSpace, ih, List.map_cons, List.flatMap_cons]
    simp

theorem isLine_pieces :
    ∀ piece ∈ Utf8.chars l.first :: l.more.map Utf8.chars, IsLine piece := by
  rw [← List.map_cons]
  exact List.forall_mem_map.2 fun piece hMem => isLine_chars (l.oneLine piece hMem)

theorem chars_begun (h : Utf8.chars l.first = []) : l.more.map Utf8.chars = [] := by
  have hFirst : l.first = [] := not_not.1 fun hSome => Utf8.chars_ne_nil hSome h
  rw [l.begun hFirst, List.map_nil]

theorem readsAs_folded : ReadsAs l.folded l.text.toList where
  last done := by
    have hLast := joinLines_pieces done [] id
      (fun done line hLine => by rw [List.append_nil, hLine.joinLines, id]) l.chars_begun
      l.isLine_pieces
    rwa [List.append_nil, id, ← chars_folded, ← toList_text] at hLast
  ended done e rest := by
    have hEnded := joinLines_pieces done (e.chars ++ Utf8.chars rest)
      (joinLines · (Utf8.chars rest))
      (fun done line hLine => by rw [← List.append_assoc, hLine.joinLines_append]) l.chars_begun
      l.isLine_pieces
    rwa [← chars_folded, ← List.append_assoc, ← chars_append_lineEnd, ← toList_text] at hEnded

theorem isLine_text : IsLine l.text.toList := by
  have hPieces := l.isLine_pieces
  rw [toList_text, ← List.flatten_cons]
  constructor
  all_goals
    rintro hMem
    obtain ⟨piece, hPiece, hMem⟩ := List.mem_flatten.1 hMem
  · exact (hPieces piece hPiece).feed hMem
  · exact (hPieces piece hPiece).carriageReturn hMem

end FoldedLine

variable {t : FoldedText} {f : FoldedLine → Bytes}

/-- Lines are joined as they are read. -/
theorem joinLines_write (h : ∀ l ∈ t.lines, ReadsAs (f l) l.text.toList)
    (done : List (List Char)) : joinLines done (Utf8.chars (t.write f)) =
      t.lines.foldl (fun done l => joinLine done l.text.toList) done := by
  obtain ⟨ended, last⟩ := t
  rw [FoldedText.lines, List.forall_mem_append, List.forall_mem_map] at h
  obtain ⟨hEnded, hLast⟩ := h
  rw [FoldedText.write, FoldedText.lines]
  dsimp only at hEnded hLast ⊢
  induction ended generalizing done with
  | nil =>
    have hRead := (List.forall_mem_singleton.1 hLast).last done
    rw [List.flatMap_nil, List.nil_append, hRead, List.map_nil, List.nil_append, List.foldl_cons,
      List.foldl_nil]
  | cons e more ih =>
    obtain ⟨hFirst, hMore⟩ := List.forall_mem_cons.1 hEnded
    rw [List.flatMap_cons, List.append_assoc, hFirst.ended, ih _ hMore, List.map_cons,
      List.cons_append, List.foldl_cons]

/-- A folded manifest is read like any whose lines hold what its pieces are decoded to. -/
theorem parse_write (h : ∀ l ∈ t.lines, Utf8.lenient (f l) = l.text) :
    parse (t.write FoldedLine.folded) = parse (t.write f) := by
  have hPlain : ∀ l ∈ t.lines, ReadsAs (f l) l.text.toList := by
    intro l hMem
    have hChars : Utf8.chars (f l) = l.text.toList := congrArg String.toList (h l hMem)
    have hReads := readsAs_chars (f l)
    rw [hChars] at hReads
    exact hReads l.isLine_text
  rw [parse_eq, parse_eq, joinLines_write hPlain, joinLines_write fun l _ => l.readsAs_folded]

/-- **Every piece of a folded line is decoded for itself,** and only then joined to the others. A
folded manifest is read as the unfolded one if no line changes by that, and a line changes exactly
if a fold is inside a character. -/
theorem parse_folded (t : FoldedText) :
    parse (t.write FoldedLine.folded) = parse (t.write fun l => Utf8.encode l.text) ∧
    ((∀ l ∈ t.lines, Utf8.lenient l.whole = l.text) →
      parse (t.write FoldedLine.folded) = parse (t.write FoldedLine.whole)) ∧
    ∀ l ∈ t.lines, ∀ line, l.whole = Utf8.encode line →
      (l.text = line ↔ ∀ piece ∈ l.more, Utf8.StartsCharacter piece) := by
  refine ⟨parse_write fun l _ => Utf8.lenient_encode l.text, parse_write, fun l _ line hLine => ?_⟩
  rw [← Utf8.flatMap_chars_eq_iff hLine, ← String.toList_inj, FoldedLine.text, String.toList_ofList]

/-- A line of an attribute, cut in front of the colon and in front of the value. -/
def cutOutside : FoldedLine :=
  ⟨[0x58], [[0x3A, 0x20], [0xC3, 0xA9]], by decide, by decide⟩

/-- The same line, cut inside the one character of its value. -/
def cutInside : FoldedLine :=
  ⟨[0x58, 0x3A, 0x20, 0xC3], [[0xA9]], by decide, by decide⟩

/-- A text of one line. -/
def FoldedLine.alone (l : FoldedLine) : FoldedText :=
  ⟨[(l, .both)], ⟨[], [], fun _ => rfl, by decide⟩⟩

theorem parse_folded_attribute :
    (∀ l ∈ cutOutside.alone.lines, Utf8.lenient l.whole = l.text) ∧
    parse (cutOutside.alone.write FoldedLine.folded) =
      parse (cutOutside.alone.write FoldedLine.whole) ∧
    cutInside.whole = Utf8.encode "X: é" ∧ cutInside.text ≠ "X: é" ∧
    (parse (cutInside.alone.write FoldedLine.whole)).mainAttribute? "X" = some "é" ∧
    (parse (cutInside.alone.write FoldedLine.folded)).mainAttribute? "X" =
      some "\uFFFD\uFFFD" := by
  have hOutside : ∀ l ∈ cutOutside.alone.lines, Utf8.lenient l.whole = l.text := by
    intro l hMem
    obtain rfl | hMem := List.mem_cons.1 hMem
    · decide +kernel
    · obtain rfl := List.mem_singleton.1 hMem
      rfl
  have hWhole : cutInside.whole = Utf8.encode "X: é" := by decide +kernel
  have hTail : ¬ Utf8.StartsCharacter [0xA9] := fun h => absurd (h 0xA9 rfl) (by decide)
  obtain ⟨hText, -, hInside⟩ := parse_folded cutInside.alone
  refine ⟨hOutside, (parse_folded cutOutside.alone).2.1 hOutside, hWhole, fun hSame => ?_,
    by decide +kernel, by rw [hText]; decide +kernel⟩
  have hStarts := (hInside cutInside List.mem_cons_self "X: é" hWhole).1 hSame
  exact hTail (hStarts [0xA9] List.mem_cons_self)

end Jarsmith.JarManifest
