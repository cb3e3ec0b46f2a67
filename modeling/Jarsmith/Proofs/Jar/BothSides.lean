import Jarsmith.Jar.Merge
import Jarsmith.Proofs.ClassFile.Marker
import Jarsmith.Proofs.Pool.Texts

/-!
# Classes of both sides

A class that both sides have gets one annotation behind those that it has. Nothing else of it
changes: its constants keep their indices, and its other attributes, its members and its flags stay.

* `ClassFile.CanMark` — when a class can be marked.
* `ClassFile.Marked` — what a marked class has in common with the class that it was.
* `Jar.exists_markEntry` — a class is marked if and only if it can be.
* `Jar.marked_of_markEntry` — what is read from the entry that comes out.
-/

namespace Jarsmith

open Outcome

namespace ClassFile

variable {c m : ClassFile} {bytes : Bytes} {q : Pool} {before after : List Attribute}
  {a : Attribute} {list : List AnnotationTree}

/-- `list` stands in the body of `a`, which is the first attribute with invisible annotations. -/
structure Annotated (c : ClassFile) (before : List Attribute) (a : Attribute)
    (after : List Attribute) (list : List AnnotationTree) : Prop where
  attributes : c.attributes = before ++ a :: after
  first : ∀ b ∈ before, c.pool.IsOther AttributeName.invisibleAnnotations b
  name : c.pool.text a.name = .ok AttributeName.invisibleAnnotations
  body : AnnotationBody.parse .annotations a.info = .ok (.annotations list)

/-- The name of each attribute is a text, and none has invisible annotations. -/
def Unannotated (c : ClassFile) : Prop :=
  ∀ a ∈ c.attributes, c.pool.IsOther AttributeName.invisibleAnnotations a

/-- When a class can be marked: the annotations that are there can be read, and there is room for
one more, for the texts that the pool lacks and, if the class has no annotations, for an
attribute. -/
inductive CanMark (c : ClassFile) : Prop
  | behind (before after : List Attribute) (a : Attribute) (list : List AnnotationTree)
      (annotated : c.Annotated before a after list) (count : list.length + 1 < 65536)
      (length : (annotationsToBytes list).length + 4 < UInt32.size)
      (room : c.pool.size + c.pool.lacking [bothSides] < 65536)
  | first (unannotated : c.Unannotated) (count : c.attributes.length + 1 < 65536)
      (room : c.pool.size + c.pool.lacking [bothSides, AttributeName.invisibleAnnotations] < 65536)

/-- The attributes of a marked class: the marker stands behind the annotations that were there, or
in an attribute of its own behind the others. The pool gets the texts that it lacks for that. -/
inductive MarkedAttributes (c m : ClassFile) (marker : UInt16) : Prop
  | behind (before after : List Attribute) (a : Attribute) (list : List AnnotationTree)
      (info : Bytes) (annotated : c.Annotated before a after list)
      (attributes : m.attributes = before ++ ⟨a.name, info⟩ :: after)
      (body : AnnotationBody.parse .annotations info =
        .ok (.annotations (list ++ [.mk marker []])))
      (bytes : info = annotationsToBytes (list ++ [.mk marker []]))
      (size : m.pool.size = c.pool.size + c.pool.lacking [bothSides])
  | first (name : UInt16) (info : Bytes) (unannotated : c.Unannotated)
      (nameText : m.pool.text name = .ok AttributeName.invisibleAnnotations)
      (attributes : m.attributes = c.attributes ++ [⟨name, info⟩])
      (body : AnnotationBody.parse .annotations info = .ok (.annotations [.mk marker []]))
      (bytes : info = annotationsToBytes [.mk marker []])
      (size : m.pool.size =
        c.pool.size + c.pool.lacking [bothSides, AttributeName.invisibleAnnotations])

/-- What a marked class `m` has in common with the class `c` that it was: every constant keeps its
index, only the texts of the marker come behind them, and only the attribute of the marker
changes. -/
structure Marked (c m : ClassFile) : Prop where
  constants : ∀ {j : Nat} {k : Constant}, c.pool.entries[j]? = some k → m.pool.entries[j]? = some k
  texts : ∀ {j : Nat} {k : Constant}, m.pool.entries[j]? = some k → c.pool.size ≤ j →
    ∃ s ∈ [bothSides, AttributeName.invisibleAnnotations], k = .utf8 (ModifiedUtf8.encode s)
  rest : { m with pool := c.pool, attributes := c.attributes } = c
  marker : ∃ marker, m.pool.text marker = .ok bothSides ∧ MarkedAttributes c m marker

-- ---------------------------------------------------------------------------
-- The edit
-- ---------------------------------------------------------------------------

/-- What the marking makes of a class: the attribute with the marker, and one more text if the class
had none. -/
theorem yields_markBothSides : Pool.Yields c.markBothSides c.pool m q ↔
    ∃ marker p, Pool.Yields (Pool.internText bothSides) c.pool marker p ∧
      ((∃ before after a list, c.Annotated before a after list ∧ list.length + 1 < 65536 ∧ p = q ∧
          { c with attributes :=
            before ++ ⟨a.name, annotationsToBytes (list ++ [.mk marker []])⟩ :: after } = m) ∨
        c.Unannotated ∧ ∃ name,
          Pool.Yields (Pool.internText AttributeName.invisibleAnnotations) p name q ∧
            { c with attributes := c.attributes ++
              [⟨name, annotationsToBytes [.mk marker []]⟩] } = m) := by
  have hFound : ∀ {place a}, c.pool.attribute? c.attributes AttributeName.invisibleAnnotations =
      .ok (some (place, a)) → ∀ {list}, AnnotationBody.parse .annotations a.info =
        .ok (.annotations list) → ∃ before after, c.Annotated before a after list ∧
          before.length = place := by
    intro place a h list hBody
    obtain ⟨before, after, hSplit, hPlace, hFirst, hName⟩ := Pool.attribute?_eq_some.1 h
    exact ⟨before, after, ⟨hSplit, hFirst, hName, hBody⟩, hPlace⟩
  unfold markBothSides
  rw [Pool.yields_bind]
  refine exists_congr fun marker => exists_congr fun p => and_congr_right fun _ => ?_
  constructor
  · intro h
    obtain ⟨found, _, hLift, h⟩ := Pool.yields_bind.1 h
    obtain ⟨hSearch, rfl⟩ := Pool.yields_liftM.1 hLift
    cases found with
    | some entry =>
      obtain ⟨place, a⟩ := entry
      obtain ⟨info, _, hLift, h⟩ := Pool.yields_bind.1 h
      obtain ⟨hInfo, rfl⟩ := Pool.yields_liftM.1 hLift
      obtain ⟨rfl, rfl⟩ := Pool.yields_pure.1 h
      obtain ⟨list, hBody, hCount, rfl⟩ := markedAnnotations_some.1 hInfo
      obtain ⟨before, after, hAnnotated, rfl⟩ := hFound hSearch hBody
      refine .inl ⟨before, after, a, list, hAnnotated, hCount, rfl, ?_⟩
      rw [hAnnotated.attributes, setBody_append]
    | none =>
      obtain ⟨name, _, hName, h⟩ := Pool.yields_bind.1 h
      obtain ⟨info, _, hLift, h⟩ := Pool.yields_bind.1 h
      obtain ⟨hInfo, rfl⟩ := Pool.yields_liftM.1 hLift
      obtain ⟨rfl, rfl⟩ := Pool.yields_pure.1 h
      obtain rfl := Except.ok.inj (markedAnnotations_none.symm.trans hInfo)
      exact .inr ⟨Pool.attribute?_eq_none.1 hSearch, name, hName, rfl⟩
  · rintro (⟨before, after, a, list, hAnnotated, hCount, rfl, rfl⟩ | ⟨hNone, name, hName, rfl⟩)
    · have hSearch := Pool.attribute?_eq_some.2
        ⟨before, after, hAnnotated.attributes, rfl, hAnnotated.first, hAnnotated.name⟩
      refine Pool.yields_bind.2 ⟨_, p, Pool.yields_liftM.2 ⟨hSearch, rfl⟩, ?_⟩
      refine Pool.yields_bind.2 ⟨_, p, Pool.yields_liftM.2
        ⟨markedAnnotations_some.2 ⟨list, hAnnotated.body, hCount, rfl⟩, rfl⟩, ?_⟩
      rw [hAnnotated.attributes, setBody_append]
      exact Pool.yields_pure.2 ⟨rfl, rfl⟩
    · have hSearch := Pool.attribute?_eq_none.2 hNone
      refine Pool.yields_bind.2 ⟨none, p, Pool.yields_liftM.2 ⟨hSearch, rfl⟩, ?_⟩
      refine Pool.yields_bind.2 ⟨name, q, hName, ?_⟩
      exact Pool.yields_bind.2 ⟨_, q, Pool.yields_liftM.2 ⟨markedAnnotations_none, rfl⟩,
        Pool.yields_pure.2 ⟨rfl, rfl⟩⟩

-- ---------------------------------------------------------------------------
-- Marked classes
-- ---------------------------------------------------------------------------

theorem length_bothSides : (ModifiedUtf8.encode bothSides).length < 65536 := by decide

theorem length_invisibleAnnotations :
    (ModifiedUtf8.encode AttributeName.invisibleAnnotations).length < 65536 := by decide

theorem encode_ne : ModifiedUtf8.encode AttributeName.invisibleAnnotations ≠
    ModifiedUtf8.encode bothSides := by decide

theorem length_annotationsToBytes_concat {marker : UInt16} :
    (annotationsToBytes (list ++ [.mk marker []])).length =
      (annotationsToBytes list).length + 4 := by
  simp [annotationsToBytes, AnnotationTree.toBytes, elementsToBytes, putU16]
  omega

/-- What the marking leaves when it succeeds. -/
theorem marked_of_yields (hParse : parse bytes = .ok c)
    (h : Pool.Yields c.markBothSides c.pool m q) :
    q.Intact ∧ Marked c { m with pool := q } := by
  have hIntact := intact_parse hParse
  have hZero := slotZero_decode (decode_of_parse hParse)
  obtain ⟨marker, p, hMarker, hCase⟩ := yields_markBothSides.1 h
  obtain ⟨hIntact₁, hAdds₁, hSize₁, hText₁⟩ := hIntact.internText hMarker
  have hIndex : marker ≠ 0 := Pool.ne_zero_of_text (hAdds₁.kept hZero) hText₁
  obtain ⟨before, after, a, list, hAnnotated, hCount, rfl, rfl⟩ | ⟨hNone, name, hName, rfl⟩ := hCase
  · have hFits := (AnnotationBody.parse_annotations.1 hAnnotated.body).1.2
    have hBody := parse_marked list hCount (fun t ht => ⟨_, hFits t ht⟩) hIndex
    exact ⟨hIntact₁, hAdds₁.kept, (hAdds₁.mono (by simp)).fresh, rfl, marker, hText₁,
      .behind before after a list _ hAnnotated rfl hBody rfl hSize₁⟩
  · obtain ⟨hIntact₂, hAdds₂, hSize₂, hText₂⟩ := hIntact₁.internText hName
    have hAdds := hAdds₁.trans hAdds₂
    have hBody := parse_marked [] (by decide) nofun hIndex
    rw [Pool.lacking_internText hIntact.knows hIntact.sound encode_ne hMarker, hSize₁,
      Nat.add_assoc, ← Pool.lacking_cons] at hSize₂
    exact ⟨hIntact₂, hAdds.kept, hAdds.fresh, rfl, marker, hAdds₂.text hText₁,
      .first name _ hNone hText₂ rfl hBody rfl hSize₂⟩

/-- Every attribute of a marked class has a name. -/
theorem name_ne_zero (hParse : parse bytes = .ok c) (hMarked : Marked c m) :
    ∀ a ∈ m.attributes, a.name ≠ 0 := by
  have hZero := hMarked.constants (slotZero_decode (decode_of_parse hParse))
  have hOld : ∀ a ∈ c.attributes, a.name ≠ 0 := fun a ha =>
    ((fits_parse hParse).attributes.2 a ha).name
  obtain ⟨marker, -, hMarker⟩ := hMarked.marker
  cases hMarker with
  | behind before after a list info annotated attributes =>
    rw [annotated.attributes] at hOld
    rw [attributes]
    simp only [List.forall_mem_append, List.forall_mem_cons] at hOld ⊢
    exact hOld
  | first name info unannotated nameText attributes =>
    rw [attributes, List.forall_mem_append, List.forall_mem_singleton]
    exact ⟨hOld, Pool.ne_zero_of_text hZero nameText⟩

/-- A marked class can be written if its pool and its attributes are not too long, and it is read
back. -/
theorem toBytes_marked (hParse : parse bytes = .ok c) (hMarked : Marked c m)
    (hIntact : m.pool.Intact) (hSize : m.pool.size < 65536)
    (hWrite : Attribute.CanWrite m.attributes) :
    ∃ written, m.toBytes = .ok written ∧ parse written = .ok m := by
  have hSame : m = { c with pool := m.pool, attributes := m.attributes } := by
    rw [← hMarked.rest]
  rw [hSame]
  exact exists_toBytes_attributes hParse hIntact ⟨hMarked.constants, hMarked.texts⟩
    (name_ne_zero hParse hMarked) hSize hWrite

/-- A marked class that can be written comes from a class that could be marked. -/
theorem canMark_of_marked (hMarked : Marked c m) (hSize : m.pool.size < 65536)
    (hWrite : Attribute.CanWrite m.attributes) : c.CanMark := by
  obtain ⟨marker, -, hMarker⟩ := hMarked.marker
  cases hMarker with
  | behind before after a list info annotated attributes body bytes size =>
    have hCount := (AnnotationBody.parse_annotations.1 body).1.1
    have hLength : info.length < UInt32.size :=
      hWrite.2 ⟨a.name, info⟩ (by simp [attributes])
    rw [bytes, length_annotationsToBytes_concat] at hLength
    rw [List.length_append] at hCount
    exact .behind before after a list annotated hCount hLength (size ▸ hSize)
  | first name info unannotated nameText attributes body bytes size =>
    have hCount := hWrite.1
    rw [attributes, List.length_append] at hCount
    exact .first unannotated hCount (size ▸ hSize)

/-- A class whose first attribute is not named by a text cannot be marked. -/
theorem not_canMark_of_unnamed {more : List Attribute} (h : c.attributes = a :: more)
    (hName : ∀ raw, c.pool.find? a.name ≠ some (.utf8 raw)) : ¬ c.CanMark := by
  intro hCan
  cases hCan with
  | behind before after named list annotated =>
    have hSplit := annotated.attributes
    rw [h] at hSplit
    cases before with
    | nil =>
      obtain ⟨rfl, -⟩ := List.cons.inj hSplit
      obtain ⟨raw, hRaw, -⟩ := Pool.text_eq_ok.1 annotated.name
      exact hName raw hRaw
    | cons b before =>
      obtain ⟨rfl, -⟩ := List.cons.inj hSplit
      obtain ⟨raw, hRaw, -⟩ := annotated.first a List.mem_cons_self
      exact hName raw hRaw
  | first unannotated =>
    obtain ⟨raw, hRaw, -⟩ := unannotated a (h ▸ List.mem_cons_self)
    exact hName raw hRaw

/-- A class that can be marked comes out of the edit with attributes that can be written. -/
theorem exists_yields (hParse : parse bytes = .ok c) (hCan : c.CanMark) :
    ∃ m q, Pool.Yields c.markBothSides c.pool m q ∧ q.size < 65536 ∧
      Attribute.CanWrite m.attributes := by
  have hIntact := intact_parse hParse
  have hc := (fits_parse hParse).attributes
  cases hCan with
  | behind before after a list annotated count length room =>
    obtain ⟨marker, p, hMarker⟩ :=
      Pool.exists_internText hIntact.knows hIntact.sound length_bothSides room
    obtain ⟨-, -, hSize, -⟩ := hIntact.internText hMarker
    refine ⟨_, p, yields_markBothSides.2 ⟨marker, p, hMarker,
      .inl ⟨before, after, a, list, annotated, count, rfl, rfl⟩⟩, hSize ▸ room, ?_⟩
    rw [annotated.attributes] at hc
    obtain ⟨hLength, hAll⟩ := hc.canWrite
    rw [List.forall_mem_append, List.forall_mem_cons] at hAll
    refine ⟨by simpa using hLength, ?_⟩
    rw [List.forall_mem_append, List.forall_mem_cons]
    exact ⟨hAll.1, by rwa [length_annotationsToBytes_concat], hAll.2.2⟩
  | first unannotated count room =>
    rw [Pool.lacking_cons] at room
    obtain ⟨marker, p, hMarker⟩ :=
      Pool.exists_internText hIntact.knows hIntact.sound length_bothSides (by omega)
    obtain ⟨hIntact₁, -, hSize₁, -⟩ := hIntact.internText hMarker
    have hRoom : p.size + p.lacking [AttributeName.invisibleAnnotations] < 65536 := by
      rw [Pool.lacking_internText hIntact.knows hIntact.sound encode_ne hMarker]
      omega
    obtain ⟨name, q, hName⟩ :=
      Pool.exists_internText hIntact₁.knows hIntact₁.sound length_invisibleAnnotations hRoom
    obtain ⟨-, -, hSize₂, -⟩ := hIntact₁.internText hName
    refine ⟨_, q, yields_markBothSides.2 ⟨marker, p, hMarker, .inr ⟨unannotated, name, hName, rfl⟩⟩,
      hSize₂ ▸ hRoom, ?_⟩
    have hLength : (annotationsToBytes [.mk marker []]).length = 6 :=
      @length_annotationsToBytes_concat [] marker
    refine ⟨by rwa [List.length_append], ?_⟩
    rw [List.forall_mem_append, List.forall_mem_singleton]
    exact ⟨hc.canWrite.2, by rw [hLength]; decide⟩

end ClassFile

-- ---------------------------------------------------------------------------
-- Entries
-- ---------------------------------------------------------------------------

namespace Jar

open ClassFile

variable {e e' : JarEntry}

theorem markEntry_eq_ok : markEntry e = .ok e' ↔ ∃ c m q written, parse e.data = .ok c ∧
    Pool.Yields c.markBothSides c.pool m q ∧ { m with pool := q }.toBytes = .ok written ∧
      e.withData written = e' := by
  unfold markEntry
  rw [bind_ok_iff]
  refine exists_congr fun c => ?_
  constructor
  · rintro ⟨hParse, h⟩
    split at h
    · rename_i m q hRun
      obtain ⟨written, hWritten, h⟩ := bind_ok_iff.1 h
      exact ⟨m, q, written, hParse, hRun, hWritten, pure_ok_iff.1 h⟩
    · exact absurd h (by simp)
  · rintro ⟨m, q, written, hParse, hRun, hWritten, rfl⟩
    refine ⟨hParse, ?_⟩
    rw [Pool.Yields] at hRun
    rw [hRun]
    exact bind_ok_iff.2 ⟨written, hWritten, rfl⟩

/-- **A class is marked** if and only if it can be read and marked. -/
theorem exists_markEntry :
    (∃ e', markEntry e = .ok e') ↔ ∃ c, parse e.data = .ok c ∧ c.CanMark := by
  constructor
  · rintro ⟨e', h⟩
    obtain ⟨c, m, q, written, hParse, hMark, hWritten, -⟩ := markEntry_eq_ok.1 h
    obtain ⟨hSize, hWrite⟩ := canWrite_of_toBytes hWritten
    exact ⟨c, hParse, canMark_of_marked (marked_of_yields hParse hMark).2 hSize hWrite⟩
  · rintro ⟨c, hParse, hCan⟩
    obtain ⟨m, q, hMark, hSize, hWrite⟩ := exists_yields hParse hCan
    obtain ⟨hIntact, hMarked⟩ := marked_of_yields hParse hMark
    obtain ⟨written, hWritten, -⟩ := toBytes_marked hParse hMarked hIntact hSize hWrite
    exact ⟨_, markEntry_eq_ok.2 ⟨c, m, q, written, hParse, hMark, hWritten, rfl⟩⟩

/-- **What is read from the entry of a marked class** is the class with the marker. -/
theorem marked_of_markEntry (h : markEntry e = .ok e') : ∃ c m written, parse e.data = .ok c ∧
    parse written = .ok m ∧ Marked c m ∧ e' = e.withData written := by
  obtain ⟨c, m, q, written, hParse, hMark, hWritten, rfl⟩ := markEntry_eq_ok.1 h
  obtain ⟨hSize, hWrite⟩ := canWrite_of_toBytes hWritten
  obtain ⟨hIntact, hMarked⟩ := marked_of_yields hParse hMark
  obtain ⟨written', hWritten', hRead⟩ := toBytes_marked hParse hMarked hIntact hSize hWrite
  obtain rfl := Except.ok.inj (hWritten.symm.trans hWritten')
  exact ⟨c, _, written, hParse, hRead, hMarked, rfl⟩

end Jar

end Jarsmith
