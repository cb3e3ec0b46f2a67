import Jarsmith.Proofs.ClassFile.Annotations
import Jarsmith.Proofs.Pool.Edit

/-!
# A marker behind annotations

How an attribute is found by its name, and what its body holds after an annotation without elements
was put behind those that were there.

* `Pool.attribute?_eq_some`, `Pool.attribute?_eq_none` — the first attribute of a name.
* `AnnotationBody.parse_annotations` — which bodies hold which annotations.
* `markedAnnotations_some`, `markedAnnotations_none` — when a marker can be put behind annotations,
  and the body that comes out; `parse_marked` reads it back.
-/

namespace Jarsmith

open Outcome Reader

-- ---------------------------------------------------------------------------
-- Finding an attribute
-- ---------------------------------------------------------------------------

namespace Pool

variable {pool : Pool} {name : String} {l : List Attribute} {a : Attribute} {start place : Nat}

/-- The name of an attribute is a text, and another one than `name`. -/
def IsOther (pool : Pool) (name : String) (a : Attribute) : Prop :=
  ∃ raw, pool.find? a.name = some (.utf8 raw) ∧ decodeText raw ≠ .ok name

theorem spells_iff {raw : Bytes} :
    ModifiedUtf8.spells raw name = true ↔ decodeText raw = .ok name := by
  unfold ModifiedUtf8.spells decodeText
  cases ModifiedUtf8.textOf raw <;> simp [Except.mapError]

theorem rawText_eq_ok {index : UInt16} {raw : Bytes} :
    pool.rawText index = .ok raw ↔ pool.find? index = some (.utf8 raw) := by
  unfold rawText
  split
  · rename_i found hFound
    simp [hFound]
  · rename_i hOther
    exact iff_of_false nofun (hOther raw)

/-- Both readers of texts find the same ones. -/
theorem storedText_eq_ok {index : UInt16} {text : String} :
    pool.storedText index = .ok text ↔ pool.text index = .ok text := by
  simp only [storedText, bind_ok_iff, rawText_eq_ok, text_eq_ok]

theorem searchAttribute_cons {o : Option (Nat × Attribute)} :
    searchAttribute pool name start (a :: l) = .ok o ↔
      (pool.text a.name = .ok name ∧ some (start, a) = o) ∨
        pool.IsOther name a ∧ searchAttribute pool name (start + 1) l = .ok o := by
  simp only [searchAttribute, bind_ok_iff, rawText_eq_ok, text_eq_ok]
  constructor
  · rintro ⟨raw, hRaw, h⟩
    split at h
    · rename_i hSpells
      exact .inl ⟨⟨raw, hRaw, spells_iff.1 hSpells⟩, pure_ok_iff.1 h⟩
    · rename_i hSpells
      exact .inr ⟨⟨raw, hRaw, fun hText => hSpells (spells_iff.2 hText)⟩, h⟩
  · rintro (⟨⟨raw, hRaw, hText⟩, rfl⟩ | ⟨⟨raw, hRaw, hText⟩, h⟩)
    · exact ⟨raw, hRaw, by rw [if_pos (spells_iff.2 hText)]; rfl⟩
    · exact ⟨raw, hRaw, by rwa [if_neg fun hSpells => hText (spells_iff.1 hSpells)]⟩

theorem searchAttribute_eq_some : searchAttribute pool name start l = .ok (some (place, a)) ↔
    ∃ before after, l = before ++ a :: after ∧ start + before.length = place ∧
      (∀ b ∈ before, pool.IsOther name b) ∧ pool.text a.name = .ok name := by
  induction l generalizing start with
  | nil => exact iff_of_false nofun fun ⟨before, after, h, _⟩ => by cases before <;> cases h
  | cons b more ih =>
    rw [searchAttribute_cons, ih]
    constructor
    · rintro (⟨hText, h⟩ | ⟨hOther, before, after, rfl, rfl, hBefore, hText⟩)
      · cases h
        exact ⟨[], more, rfl, rfl, nofun, hText⟩
      · refine ⟨b :: before, after, rfl, ?_, List.forall_mem_cons.2 ⟨hOther, hBefore⟩, hText⟩
        rw [List.length_cons]
        omega
    · rintro ⟨before, after, hSplit, hPlace, hBefore, hText⟩
      cases before with
      | nil =>
        obtain ⟨rfl, rfl⟩ := List.cons.inj hSplit
        exact .inl ⟨hText, by rw [← hPlace]; rfl⟩
      | cons first before =>
        obtain ⟨rfl, rfl⟩ := List.cons.inj hSplit
        obtain ⟨hOther, hBefore⟩ := List.forall_mem_cons.1 hBefore
        rw [List.length_cons] at hPlace
        exact .inr ⟨hOther, before, after, rfl, by omega, hBefore, hText⟩

theorem searchAttribute_eq_none :
    searchAttribute pool name start l = .ok none ↔ ∀ a ∈ l, pool.IsOther name a := by
  induction l generalizing start with
  | nil => exact iff_of_true rfl nofun
  | cons a more ih =>
    rw [searchAttribute_cons, ih, List.forall_mem_cons]
    exact or_iff_right fun h => nomatch h.2

/-- The first attribute of a name: the names in front of it are other texts. -/
theorem attribute?_eq_some : pool.attribute? l name = .ok (some (place, a)) ↔
    ∃ before after, l = before ++ a :: after ∧ before.length = place ∧
      (∀ b ∈ before, pool.IsOther name b) ∧ pool.text a.name = .ok name := by
  rw [attribute?, searchAttribute_eq_some]
  simp only [Nat.zero_add]

theorem attribute?_eq_none :
    pool.attribute? l name = .ok none ↔ ∀ a ∈ l, pool.IsOther name a := searchAttribute_eq_none

end Pool

theorem setBody_append (before after : List Attribute) (a : Attribute) (info : Bytes) :
    setBody (before ++ a :: after) before.length info = before ++ ⟨a.name, info⟩ :: after := by
  induction before with
  | nil => rfl
  | cons b more ih => exact congrArg (b :: ·) ih

-- ---------------------------------------------------------------------------
-- Annotations in a row
-- ---------------------------------------------------------------------------

variable {info body : Bytes} {list : List AnnotationTree} {marker : UInt16}

/-- Which bodies hold which annotations. What stands behind them does not count. -/
theorem AnnotationBody.parse_annotations : parse .annotations info = .ok (.annotations list) ↔
    (list.length < 65536 ∧ ∀ t ∈ list, t.Fits (info.length + 2)) ∧
      ∃ rest, info = annotationsToBytes list ++ rest := by
  rw [parse, decoded_eq_ok, front, Option.map_eq_some_iff]
  constructor
  · rintro ⟨⟨_, rest⟩, hRead, rfl⟩
    obtain ⟨hFits, hInfo⟩ := (reads_read _ _).eq_some.1 hRead
    exact ⟨hFits, rest, hInfo⟩
  · rintro ⟨hFits, rest, hInfo⟩
    exact ⟨(.annotations list, rest), (reads_read _ _).eq_some.2 ⟨hFits, hInfo⟩, rfl⟩

theorem decoded_table_eq_ok : decoded (front (table (AnnotationTree.read (info.length + 2))) info) =
    .ok list ↔ AnnotationBody.parse .annotations info = .ok (.annotations list) := by
  have hTable := reads_table (reads_depth (info.length + 2)).2.1
  rw [AnnotationBody.parse_annotations, decoded_eq_ok, front, Option.map_eq_some_iff]
  constructor
  · rintro ⟨⟨_, rest⟩, hRead, rfl⟩
    obtain ⟨hFits, hInfo⟩ := hTable.eq_some.1 hRead
    exact ⟨hFits, rest, hInfo⟩
  · rintro ⟨hFits, rest, hInfo⟩
    exact ⟨(list, rest), hTable.eq_some.2 ⟨hFits, hInfo⟩, rfl⟩

/-- The body with the marker is read as the annotations that were there, and the marker. -/
theorem parse_marked (list : List AnnotationTree) (hList : list.length + 1 < 65536)
    (hFits : ∀ t ∈ list, ∃ depth, t.Fits depth) (hMarker : marker ≠ 0) :
    AnnotationBody.parse .annotations (annotationsToBytes (list ++ [.mk marker []])) =
      .ok (.annotations (list ++ [.mk marker []])) := by
  have hMark : (AnnotationTree.mk marker []).Fits 1 := ⟨hMarker, by decide, nofun⟩
  refine AnnotationBody.parse_annotations.2 ⟨⟨by rwa [List.length_append], fun t ht => ?_⟩, [],
    (List.append_nil _).symm⟩
  have hDepth : ∃ depth, t.Fits depth := by
    rcases List.mem_append.1 ht with hOld | hNew
    · exact hFits t hOld
    · obtain rfl := List.mem_singleton.1 hNew
      exact ⟨1, hMark⟩
  obtain ⟨depth, hDepth⟩ := hDepth
  have hLength := length_le_flatMap (w := AnnotationTree.toBytes) ht
  refine ((fits_length depth).2.1 t hDepth).mono ?_
  rw [annotationsToBytes, List.length_append]
  omega

/-- When a marker can be put behind the annotations of a body, and what comes out. -/
theorem markedAnnotations_some : markedAnnotations (some info) marker = .ok body ↔
    ∃ list, AnnotationBody.parse .annotations info = .ok (.annotations list) ∧
      list.length + 1 < 65536 ∧ annotationsToBytes (list ++ [.mk marker []]) = body := by
  simp only [markedAnnotations, bind_ok_iff, count16_eq_ok, pure_ok_iff, decoded_table_eq_ok]
  refine exists_congr fun list => and_congr_right fun _ => ?_
  constructor
  · rintro ⟨_, ⟨hLength, rfl⟩, rfl⟩
    exact ⟨hLength, by simp [annotationsToBytes]⟩
  · rintro ⟨hLength, rfl⟩
    exact ⟨_, ⟨hLength, rfl⟩, by simp [annotationsToBytes]⟩

theorem markedAnnotations_none :
    markedAnnotations none marker = .ok (annotationsToBytes [.mk marker []]) := rfl

end Jarsmith
