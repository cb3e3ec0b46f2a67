import Jarsmith.Maven
import Jarsmith.Proofs.Text.Split

/-!
# Written coordinates

The written form of a coordinate leaves the usual packaging out. What stands behind its last `@` is
then read as the packaging, if one of its names holds that character.

* `MavenCoordinate.parse_eq_ok` — the texts that are read as a coordinate.
* `MavenCoordinate.parse_render_eq_ok` — when the written form is read back.
* `MavenCoordinate.render_spec` — the same for the text that a coordinate was read from, and when two
  coordinates share a written form.
-/

namespace Jarsmith.MavenCoordinate

variable {c d : MavenCoordinate} {text names packaging : String}

-- ---------------------------------------------------------------------------
-- Parts
-- ---------------------------------------------------------------------------

/-- The parts that are written with colons between them. -/
def parts (c : MavenCoordinate) : List String :=
  c.group :: c.artifact :: c.version :: c.classifier.toList

/-- The written form without the packaging. -/
def label (c : MavenCoordinate) : String := Text.columns ':' c.parts

/-- The coordinates that are read from texts. -/
structure IsReadable (c : MavenCoordinate) : Prop where
  parts : ∀ part ∈ c.parts, part.isEmpty = false ∧ ':' ∉ part.toList
  packaging : '@' ∉ c.packaging.toList

theorem eq_of_parts (hParts : c.parts = d.parts) (hPackaging : c.packaging = d.packaging) :
    c = d := by
  obtain ⟨group, artifact, version, classifier, packaging⟩ := c
  obtain ⟨group', artifact', version', classifier', packaging'⟩ := d
  cases classifier <;> cases classifier' <;> simp_all [parts]

theorem IsReadable.split_label (h : c.IsReadable) : Text.split ':' c.label = c.parts :=
  Text.split_columns (List.cons_ne_nil _ _) fun part hMem => (h.parts part hMem).2

theorem render_eq : c.render =
    if c.packaging = usualPackaging then c.label else c.label ++ "@" ++ c.packaging := by
  have hLabel : c.render =
      c.label ++ if c.packaging = usualPackaging then "" else "@" ++ c.packaging := by
    obtain ⟨group, artifact, version, _ | classifier, packaging⟩ := c <;>
      simp [← String.toList_inj, render, label, parts, Text.columns, Text.join]
  rw [hLabel]
  split
  · exact String.append_empty
  · exact (String.append_assoc ..).symm

-- ---------------------------------------------------------------------------
-- Reading
-- ---------------------------------------------------------------------------

theorem splitPackaging_eq : splitPackaging text = (names, packaging) ↔
    (text = names ++ "@" ++ packaging ∧ '@' ∉ packaging.toList) ∨
      text = names ∧ '@' ∉ names.toList ∧ packaging = usualPackaging := by
  have hWritten : text = names ++ "@" ++ packaging ↔
      text.toList = names.toList ++ '@' :: packaging.toList := by
    rw [← String.toList_inj, String.toList_append, String.toList_append, List.append_assoc]
    rfl
  rw [splitPackaging, hWritten]
  cases hSplit : Text.splitLast? '@' text with
  | none =>
    have hText := Text.splitLast?_eq_none.1 hSplit
    rw [Option.getD_none, Prod.mk.injEq]
    constructor
    · rintro ⟨rfl, rfl⟩
      exact .inr ⟨rfl, hText, rfl⟩
    · rintro (⟨hSame, -⟩ | ⟨rfl, -, rfl⟩)
      · rw [hSame] at hText
        exact absurd (List.mem_append_right _ List.mem_cons_self) hText
      · exact ⟨rfl, rfl⟩
  | some found =>
    obtain ⟨front, back⟩ := found
    rw [Option.getD_some, ← Option.some.injEq, ← hSplit, Text.splitLast?_eq_some, and_comm]
    refine (or_iff_left ?_).symm
    rintro ⟨rfl, hText, -⟩
    rw [Text.splitLast?_eq_none.2 hText] at hSplit
    cases hSplit

/-- The coordinate with the given parts, if these are three or four. -/
theorem ok_of_parts {parts : List String} (hParts : (match parts with
    | [group, artifact, version] => .ok ⟨group, artifact, version, none, packaging⟩
    | [group, artifact, version, classifier] =>
      .ok ⟨group, artifact, version, some classifier, packaging⟩
    | _ => .error (.invalidCoordinate text) : Result MavenCoordinate) = .ok c) :
    c.parts = parts ∧ c.packaging = packaging := by
  split at hParts <;> cases hParts <;> exact ⟨rfl, rfl⟩

/-- **A text is read as a coordinate** exactly if it is cut into its label and its packaging. -/
theorem parse_eq_ok :
    parse text = .ok c ↔ c.IsReadable ∧ splitPackaging text = (c.label, c.packaging) := by
  obtain ⟨names, packaging, hCut⟩ : ∃ names packaging, splitPackaging text = (names, packaging) :=
    ⟨_, _, rfl⟩
  rw [parse, hCut]
  dsimp only
  constructor
  · intro hParse
    split at hParse
    · cases hParse
    · rename_i hFull
      obtain ⟨hParts, rfl⟩ := ok_of_parts hParse
      refine ⟨⟨fun part hMem => ?_, ?_⟩, by rw [label, hParts, Text.columns_split]⟩
      · rw [hParts] at hMem
        rw [List.any_eq_true, not_exists] at hFull
        exact ⟨Bool.eq_false_iff.2 fun hEmpty => hFull part ⟨hMem, hEmpty⟩,
          Text.not_mem_of_mem_split hMem⟩
      · obtain ⟨-, hPackaging⟩ | ⟨-, -, hUsual⟩ := splitPackaging_eq.1 hCut
        · exact hPackaging
        · rw [hUsual]
          decide
  · rintro ⟨hReadable, hSame⟩
    obtain ⟨rfl, rfl⟩ := Prod.mk.inj hSame
    have hFull : ¬ c.parts.any (·.isEmpty) = true := by
      rw [List.any_eq_true]
      rintro ⟨part, hMem, hEmpty⟩
      exact absurd hEmpty (Bool.eq_false_iff.1 (hReadable.parts part hMem).1)
    rw [hReadable.split_label, if_neg hFull]
    obtain ⟨group, artifact, version, _ | classifier, packaging⟩ := c <;> rfl

-- ---------------------------------------------------------------------------
-- Reading what was written
-- ---------------------------------------------------------------------------

/-- The usual packaging is left out behind names that hold its mark. -/
def HidesPackaging (c : MavenCoordinate) : Prop :=
  c.packaging = usualPackaging ∧ '@' ∈ c.label.toList

/-- **The written form of a coordinate is read back** unless it hides the packaging. -/
theorem parse_render_eq_ok (h : c.IsReadable) : parse c.render = .ok c ↔ ¬ c.HidesPackaging := by
  rw [parse_eq_ok, and_iff_right h, splitPackaging_eq, render_eq, HidesPackaging]
  split
  · rename_i hUsual
    constructor
    · rintro (⟨hLabel, -⟩ | ⟨-, hNot, -⟩)
      · -- a text is not shorter than itself
        have hLength := congrArg (List.length ∘ String.toList) hLabel
        simp at hLength
      · exact fun hHides => hNot hHides.2
    · exact fun hNot => .inr ⟨rfl, fun hMem => hNot ⟨hUsual, hMem⟩, hUsual⟩
  · rename_i hOther
    exact iff_of_true (.inl ⟨rfl, h.packaging⟩) fun hHides => hOther hHides.1

/-- Two coordinates that are read back and written alike are equal, and so are two that are not. -/
theorem eq_iff_of_render (hc : c.IsReadable) (hd : d.IsReadable) (hSame : c.render = d.render) :
    c = d ↔ (c.HidesPackaging ↔ d.HidesPackaging) := by
  refine ⟨fun hEq => hEq ▸ Iff.rfl, fun hBoth => ?_⟩
  by_cases hHides : c.HidesPackaging
  · obtain ⟨hUsual', -⟩ := hBoth.1 hHides
    obtain ⟨hUsual, -⟩ := hHides
    rw [render_eq, render_eq, if_pos hUsual, if_pos hUsual'] at hSame
    refine eq_of_parts ?_ (hUsual.trans hUsual'.symm)
    rw [← hc.split_label, hSame, hd.split_label]
  · have hBack := (parse_render_eq_ok hc).2 hHides
    rw [hSame, (parse_render_eq_ok hd).2 fun h => hHides (hBoth.2 h)] at hBack
    exact (Except.ok.inj hBack).symm

/-- A text that spells the usual packaging out behind names that hold its mark. -/
def SpellsUsual (text : String) : Prop :=
  ∃ names, text = names ++ "@" ++ usualPackaging ∧ '@' ∈ names.toList

theorem hidesPackaging_iff (hParse : parse text = .ok c) :
    c.HidesPackaging ↔ SpellsUsual text := by
  obtain ⟨hReadable, hCut⟩ := parse_eq_ok.1 hParse
  constructor
  · rintro ⟨hUsual, hMem⟩
    obtain ⟨hText, -⟩ | ⟨-, hNot, -⟩ := splitPackaging_eq.1 hCut
    · exact ⟨c.label, hUsual ▸ hText, hMem⟩
    · exact absurd hMem hNot
  · rintro ⟨names, hText, hMem⟩
    have hNames : splitPackaging text = (names, usualPackaging) :=
      splitPackaging_eq.2 (.inl ⟨hText, by decide⟩)
    obtain ⟨rfl, hUsual⟩ := Prod.mk.inj (hNames.symm.trans hCut)
    exact ⟨hUsual.symm, hMem⟩

/-- **Coordinates are written as texts that are read back**, unless they were read from a text that
spells the usual packaging out behind names that hold its mark; and two coordinates that were read
from texts and are written alike are equal, unless just one of the texts is such a text. -/
theorem render_spec (hParse : parse text = .ok c) :
    (parse c.render = .ok c ↔ ¬ SpellsUsual text) ∧
    ∀ text' d, parse text' = .ok d → c.render = d.render →
      (c = d ↔ (SpellsUsual text ↔ SpellsUsual text')) := by
  have hReadable := (parse_eq_ok.1 hParse).1
  rw [← hidesPackaging_iff hParse]
  refine ⟨parse_render_eq_ok hReadable, fun text' d hParse' hSame => ?_⟩
  rw [← hidesPackaging_iff hParse']
  exact eq_iff_of_render hReadable (parse_eq_ok.1 hParse').1 hSame

/-- A mark in the artifact does no harm in front of another packaging. -/
theorem render_spec_marked :
    parse "a:b@x:c:d@zip" = .ok ⟨"a", "b@x", "c", some "d", "zip"⟩ ∧ ¬ SpellsUsual "a:b@x:c:d@zip" ∧
      parse (render ⟨"a", "b@x", "c", some "d", "zip"⟩) = .ok ⟨"a", "b@x", "c", some "d", "zip"⟩ := by
  have hParse : parse "a:b@x:c:d@zip" = .ok ⟨"a", "b@x", "c", some "d", "zip"⟩ := by rfl
  have hOther : ¬ SpellsUsual "a:b@x:c:d@zip" := fun hSpells =>
    absurd ((hidesPackaging_iff hParse).2 hSpells).1 (by decide)
  exact ⟨hParse, hOther, (render_spec hParse).1.2 hOther⟩

/-- A version with a mark is taken for a version with a packaging once its own packaging is left
out. -/
theorem not_read_back :
    ¬ (∀ text c, parse text = .ok c → parse c.render = .ok c) ∧
      ¬ ∀ text text' c d, parse text = .ok c → parse text' = .ok d → c.render = d.render → c = d := by
  have hVersion : parse "a:b:c@x@jar" = .ok ⟨"a", "b", "c@x", none, "jar"⟩ := by rfl
  have hPackaging : parse "a:b:c@x" = .ok ⟨"a", "b", "c", none, "x"⟩ := by rfl
  have hRender : render ⟨"a", "b", "c@x", none, "jar"⟩ = "a:b:c@x" := by decide
  have hRender' : render ⟨"a", "b", "c", none, "x"⟩ = "a:b:c@x" := by decide
  constructor
  · intro hBack
    have hRead := hBack _ _ hVersion
    rw [hRender, hPackaging] at hRead
    simp at hRead
  · intro hEqual
    have hVersions := hEqual _ _ _ _ hVersion hPackaging (hRender.trans hRender'.symm)
    simp at hVersions

end Jarsmith.MavenCoordinate
