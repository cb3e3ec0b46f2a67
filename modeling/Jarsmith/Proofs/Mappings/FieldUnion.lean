import Jarsmith.Proofs.Mappings.Fields

/-!
# Fields of a class in a union

Which names a search finds for the fields of a class that two tables list. A renaming is lost where
the two tables list a field name in different ways: a field with a descriptor supersedes the one
without, and one without a descriptor only reaches the fields that are listed.

* `ClassMapping.FieldNames` — what a search finds after a later entry.
* `MappingSet.KeepsFieldNames` — no renaming is lost.
* `MappingSet.fieldNames_merge` — what a search finds in a union.
* `MappingSet.not_keepsFieldNames` — tables whose union loses a renaming.
-/

namespace Jarsmith

namespace ClassMapping

variable {name n e : String} {earlier later merged old new : ClassMapping}

/-- What a search for the field `n` with the descriptor `e` finds when `new` has been taken into
`old`. -/
structure FieldNames (old new merged : ClassMapping) (n e : String) : Prop where
  /-- A renaming wins, unless it is one without a descriptor and only other fields of the name are
  listed. -/
  renamed : ∀ key f, new.field? n (some e) = some (key, f) → f.named ≠ n →
    (key.descriptor = some e ∨ (old.field? n (some e)).isSome ∨ ¬ old.listsField n = true) →
    merged.fieldName? n e = some f.named
  /-- Where there is none the old name stays, unless it was given without a descriptor and another
  field of the name is taken in first. -/
  kept : (∀ key f, new.field? n (some e) = some (key, f) → f.named = n) →
    ∀ key f, old.field? n (some e) = some (key, f) →
    (key.descriptor = some e ∨
      ∀ k g, new.field? n none = some (k, g) → k.descriptor = none ∨ k.descriptor = some e) →
    merged.fieldName? n e = some f.named
  /-- A name that was given without a descriptor is gone when only other fields of the name are
  taken in. -/
  superseded : ∀ key f, old.field? n (some e) = some (key, f) → key.descriptor = none →
    new.field? n (some e) = none → new.listsField n = true → merged.fieldName? n e = none

section Entries

variable (hNew : new.Unambiguous) (hNames : earlier.fieldNames = old.fieldNames)

include hNew hNames

theorem fieldName?_renamed {key : FieldKey} {f : FieldMapping}
    (hField : new.field? n (some e) = some (key, f)) (hNamed : f.named ≠ n)
    (hReaches : key.descriptor = some e ∨ (old.field? n (some e)).isSome ∨
      ¬ old.listsField n = true) :
    (earlier.overriddenBy name new).fieldName? n e = some f.named := by
  obtain ⟨hKey, hGet⟩ := field?_eq_some hField
  rw [fieldName?_eq]
  rcases hKey with rfl | ⟨rfl, hExact⟩
  · -- a renaming with the descriptor stands first
    have hLoose : new.fields.get? ⟨n, none⟩ = none := hNew.get?_loose hGet
    obtain ⟨before, after, hSplit, -⟩ := OrderedMap.exists_split hGet
    rw [get?_fieldNames_described hLoose hSplit, if_neg hNamed, Option.some_or]
  · -- one without a descriptor reaches what is listed, or is listed itself
    rw [get?_fieldNames_loose hNew hGet, get?_fieldNames_loose hNew hGet, listsField_congr hNames,
      hNames]
    by_cases hLists : old.listsField n = true
    · have hFound : old.fieldName? n e ≠ none := by
        rcases hReaches with hDescriptor | hFound | hUnlisted
        · cases hDescriptor
        · rw [fieldName?, ne_eq, Option.map_eq_none_iff]
          exact Option.isSome_iff_ne_none.1 hFound
        · exact absurd hLists hUnlisted
      rw [fieldName?_eq] at hFound
      rw [if_pos hLists, if_pos hLists]
      simp only [if_neg hNamed]
      cases hOld : old.fieldNames.get? ⟨n, some e⟩ with
      | some x => rfl
      | none =>
        cases hOldLoose : old.fieldNames.get? ⟨n, none⟩ with
        | some x => rfl
        | none => exact absurd (by rw [hOld, hOldLoose]; rfl) hFound
    · rw [if_neg hLists, if_neg hLists, if_neg (Option.some_ne_none e), if_pos rfl, Option.none_or]

omit hNames in
/-- A field that a search without a descriptor finds comes before all others of its name. -/
theorem exists_split_of_first {g : FieldMapping} (hField : new.fields.get? ⟨n, some e⟩ = some g)
    (hFirst : ∀ k g, new.field? n none = some (k, g) →
      k.descriptor = none ∨ k.descriptor = some e) :
    ∃ before after, new.fields.entries = before ++ (⟨n, some e⟩, g) :: after ∧
      ∀ e' ∈ before, e'.1.name ≠ n := by
  have hLoose : new.fields.get? ⟨n, none⟩ = none := hNew.get?_loose hField
  obtain ⟨d, g', hSearch, hGet⟩ := exists_field?_of_listsField (listsField_of_get? hField)
  have hDescriptor : d = some e := by
    rcases hFirst _ _ hSearch with rfl | hSame
    · rw [hLoose] at hGet
      cases hGet
    · exact hSame
  subst hDescriptor
  obtain rfl := Option.some.inj (hField.symm.trans hGet)
  rw [field?_loose, hLoose] at hSearch
  obtain ⟨-, before, after, hSplit, hBefore⟩ := List.find?_eq_some_iff_append.1 hSearch
  refine ⟨before, after, hSplit, fun e' hMem hName => ?_⟩
  have hNot := hBefore e' hMem
  rw [hName, beq_self_eq_true] at hNot
  cases hNot

theorem fieldName?_kept
    (hKeeps : ∀ key f, new.field? n (some e) = some (key, f) → f.named = n)
    {key : FieldKey} {f : FieldMapping} (hField : old.field? n (some e) = some (key, f))
    (hFirst : key.descriptor = some e ∨
      ∀ k g, new.field? n none = some (k, g) → k.descriptor = none ∨ k.descriptor = some e) :
    (earlier.overriddenBy name new).fieldName? n e = some f.named := by
  have hFound : old.fieldName? n e = some f.named := by rw [fieldName?, hField]; rfl
  obtain ⟨hKey, hGet⟩ := field?_eq_some hField
  have hOldName : old.fieldNames.get? key = some f.named := by rw [get?_fieldNames, hGet]; rfl
  rw [fieldName?_eq]
  cases hExact : new.fields.get? ⟨n, some e⟩ with
  | some g =>
    -- the later entry lists this very field, without renaming it
    have hLoose : new.fields.get? ⟨n, none⟩ = none := hNew.get?_loose hExact
    have hNamed : g.named = n := hKeeps ⟨n, some e⟩ g (by rw [field?_described, hExact]; rfl)
    rcases hKey with rfl | ⟨rfl, hOldExact⟩
    · obtain ⟨before, after, hSplit, -⟩ := OrderedMap.exists_split hExact
      rw [get?_fieldNames_described hLoose hSplit, if_pos hNamed, hNames, hOldName]
      rfl
    · have hFirst := hFirst.resolve_left (Option.some_ne_none e).symm
      obtain ⟨before, after, hSplit, hBefore⟩ := exists_split_of_first hNew hExact hFirst
      have hOldNone : old.fieldNames.get? ⟨n, some e⟩ = none := by
        rw [get?_fieldNames, hOldExact]
        rfl
      have hStill : ((renamedBy name earlier new).mergeFields before).fieldNames.get? ⟨n, none⟩ =
          some f.named := by
        rw [get?_fieldNames_mergeFields_ne hBefore, ← hOldName, ← hNames]
        rfl
      rw [get?_fieldNames_described hLoose hSplit, if_pos hNamed, hNames, hOldNone, hStill]
      rfl
  | none =>
    cases hLoose : new.fields.get? ⟨n, none⟩ with
    | some g =>
      -- it lists all fields of the name, without renaming them
      have hNamed : g.named = n := hKeeps ⟨n, none⟩ g (by
        rw [field?_described, hExact, hLoose]
        rfl)
      have hLists : earlier.listsField n = true := by
        rw [listsField_congr hNames]
        rcases hKey with rfl | ⟨rfl, -⟩ <;> exact listsField_of_get? hGet
      rw [get?_fieldNames_loose hNew hLoose, get?_fieldNames_loose hNew hLoose, if_pos hLists,
        if_pos hLists, ← hFound, fieldName?_eq, hNames]
      simp only [if_pos hNamed, Option.map_id']
    | none =>
      rw [get?_fieldNames_of_not_described hLoose hExact, hNames]
      rcases hKey with rfl | ⟨rfl, hOldExact⟩
      · rw [hOldName]
        rfl
      · -- nothing takes the place of the field without a descriptor
        have hFirst := hFirst.resolve_left (Option.some_ne_none e).symm
        have hUnlisted : ¬ new.listsField n = true := by
          intro hLists
          obtain ⟨d, g, hSearch, hNewGet⟩ := exists_field?_of_listsField hLists
          rcases hFirst _ _ hSearch with rfl | rfl
          · rw [hLoose] at hNewGet
            cases hNewGet
          · rw [hExact] at hNewGet
            cases hNewGet
        rw [get?_fieldNames_unlisted hUnlisted, hNames, hOldName, get?_fieldNames, hOldExact]
        rfl

omit hNew in
theorem fieldName?_superseded {key : FieldKey} {f : FieldMapping}
    (hField : old.field? n (some e) = some (key, f)) (hKeyNone : key.descriptor = none)
    (hNone : new.field? n (some e) = none) (hLists : new.listsField n = true) :
    (earlier.overriddenBy name new).fieldName? n e = none := by
  obtain ⟨hKey, -⟩ := field?_eq_some hField
  have hOldExact : old.fields.get? ⟨n, some e⟩ = none := by
    rcases hKey with rfl | ⟨-, hOldExact⟩
    · cases hKeyNone
    · exact hOldExact
  rw [field?_described, Option.or_eq_none_iff, Option.map_eq_none_iff,
    Option.map_eq_none_iff] at hNone
  obtain ⟨hExact, hLoose⟩ := hNone
  obtain ⟨d, g, -, hGet⟩ := exists_field?_of_listsField hLists
  cases d with
  | none =>
    rw [hLoose] at hGet
    cases hGet
  | some e' =>
    rw [fieldName?_eq, get?_fieldNames_of_not_described hLoose hExact,
      get?_fieldNames_superseded hLoose hGet, hNames, get?_fieldNames, hOldExact]
    rfl

/-- **The fields of a class after a later entry**, found by name and descriptor. -/
theorem fieldNames_taken : FieldNames old new (earlier.overriddenBy name new) n e where
  renamed _ _ hField hNamed hReaches := fieldName?_renamed hNew hNames hField hNamed hReaches
  kept hKeeps _ _ hField hFirst := fieldName?_kept hNew hNames hKeeps hField hFirst
  superseded _ _ hField hKey hNone hLists :=
    fieldName?_superseded hNames hField hKey hNone hLists

end Entries

end ClassMapping

namespace MappingSet

variable {s t m : MappingSet} {c name owner : String} {target later : ClassMapping}

-- ---------------------------------------------------------------------------
-- Overlays
-- ---------------------------------------------------------------------------

theorem mem_keys_of_fieldNamed? {theirs key : FieldKey}
    (hNamed : m.fieldNamed? target theirs = some key) : key ∈ target.fields.keys := by
  obtain ⟨e, hFind, rfl⟩ := Option.map_eq_some_iff.1 hNamed
  exact List.mem_map_of_mem (List.mem_of_find?_eq_some hFind)

/-- **An overlay changes no field**: not a name, and not which fields are listed. -/
theorem fieldNames_overlaid (hTarget : target.Unambiguous) :
    (target.overriddenBy owner (m.overlay owner target later)).fieldNames = target.fieldNames := by
  rw [ClassMapping.fieldNames_overriddenBy]
  refine List.foldlRecOn (motive := fun c : ClassMapping => c.fieldNames = target.fieldNames) _ _ rfl
    ?_
  rintro c hSame ⟨key, f⟩ hMem
  obtain ⟨theirs, g, -, hNamed, rfl⟩ := exists_of_fields_overlay (OrderedMap.get?_eq_some.2 hMem)
  have hKey : key ∈ c.fields.keys := by
    rw [← ClassMapping.keys_fieldNames, hSame, ClassMapping.keys_fieldNames]
    exact mem_keys_of_fieldNamed? hNamed
  rw [← hSame]
  exact ClassMapping.fieldNames_mergeField_of_identity
    ((ClassMapping.unambiguous_congr hSame).2 hTarget) hKey rfl

-- ---------------------------------------------------------------------------
-- Unions
-- ---------------------------------------------------------------------------

/-- No class lists a field name both with and without a descriptor. -/
def Unambiguous (m : MappingSet) : Prop := ∀ e ∈ m.classes.entries, e.2.Unambiguous

instance (m : MappingSet) : Decidable m.Unambiguous :=
  inferInstanceAs (Decidable (∀ e ∈ m.classes.entries, e.2.Unambiguous))

theorem Unambiguous.of_class? {entry : ClassMapping} (hm : m.Unambiguous)
    (hClass : m.class? c = some entry) : entry.Unambiguous :=
  hm (c, entry) (OrderedMap.get?_eq_some.1 hClass)

/-- The entry of another class leaves the fields of `c` alone, whether it overlays `c` or not. -/
theorem fieldNames_add_ne {st : Merging} {entry : ClassMapping} (later : ClassMapping)
    (hName : name ≠ c) (hClass : st.set.class? c = some entry) (hEntry : entry.Unambiguous) :
    ∃ entry', (st.add name later).set.class? c = some entry' ∧
      entry'.fieldNames = entry.fieldNames := by
  have hAdds := st.adds_add name later
  generalize st.add name later = st' at hAdds ⊢
  cases hAdds with
  | own _ => exact ⟨entry, by rw [class?_insert, if_neg hName]; exact hClass, rfl⟩
  | @overlaid owner target _ _ _ hTarget =>
    by_cases hOwner : owner = c
    · subst hOwner
      obtain rfl := Option.some.inj (hClass.symm.trans hTarget)
      exact ⟨_, class?_insert.trans (if_pos rfl), fieldNames_overlaid hEntry⟩
    · exact ⟨entry, by rw [class?_insert, if_neg hOwner]; exact hClass, rfl⟩
  | fresh _ _ => exact ⟨entry, by rw [class?_insert, if_neg hName]; exact hClass, rfl⟩

theorem fieldNames_foldl_ne {l : List (String × ClassMapping)} {st : Merging} {entry : ClassMapping}
    (hNames : ∀ e ∈ l, e.1 ≠ c) (hClass : st.set.class? c = some entry)
    (hEntry : entry.Unambiguous) :
    ∃ entry', (l.foldl (fun st e => st.add e.1 e.2) st).set.class? c = some entry' ∧
      entry'.fieldNames = entry.fieldNames := by
  refine List.foldlRecOn (motive := fun st : Merging => ∃ entry', st.set.class? c = some entry' ∧
    entry'.fieldNames = entry.fieldNames) l _ ⟨entry, hClass, rfl⟩ ?_
  rintro st ⟨entry', hClass', hSame⟩ e hMem
  obtain ⟨entry'', hClass'', hSame'⟩ := fieldNames_add_ne e.2 (hNames e hMem) hClass'
    ((ClassMapping.unambiguous_congr hSame).2 hEntry)
  exact ⟨entry'', hClass'', hSame'.trans hSame⟩

/-- **The fields of a class that both tables list.** In a union, a search for a field by name and
descriptor finds the later renaming, or else the earlier name, as far as `ClassMapping.FieldNames`
says. -/
theorem fieldNames_merge (hs : s.Unambiguous) (ht : t.Unambiguous) {old new : ClassMapping}
    (hOld : s.class? c = some old) (hNew : t.class? c = some new) :
    ∃ merged, (s.merge t).class? c = some merged ∧
      ∀ n e, ClassMapping.FieldNames old new merged n e := by
  -- the other entries of the later table come before and after the one of the class
  obtain ⟨before, after, hSplit, hBefore, hAfter⟩ := OrderedMap.exists_split hNew
  have hStart : (Merging.start s).set.class? c = some old := hOld
  obtain ⟨old', hOld', hSame⟩ := fieldNames_foldl_ne hBefore hStart (hs.of_class? hOld)
  have hUnambiguous : old'.Unambiguous :=
    (ClassMapping.unambiguous_congr hSame).2 (hs.of_class? hOld)
  have hOwn : ((before.foldl (fun st e => Merging.add st e.1 e.2) (Merging.start s)).add c
      new).set.class? c = some (old'.overriddenBy c new) := by
    rw [Merging.add, hOld']
    exact class?_insert.trans (if_pos rfl)
  obtain ⟨merged, hMerged, hSameMerged⟩ := fieldNames_foldl_ne hAfter hOwn
    (ClassMapping.unambiguous_overriddenBy hUnambiguous)
  have hUnion : (s.merge t).class? c = some merged := by
    rw [merge_eq, hSplit, List.foldl_append, List.foldl_cons]
    exact hMerged
  refine ⟨merged, hUnion, fun n e => ?_⟩
  have hTaken : ClassMapping.FieldNames old new (old'.overriddenBy c new) n e :=
    ClassMapping.fieldNames_taken (ht.of_class? hNew) hSame
  have hFound : merged.fieldName? n e = (old'.overriddenBy c new).fieldName? n e := by
    rw [ClassMapping.fieldName?_eq, ClassMapping.fieldName?_eq, hSameMerged]
  constructor
  · rw [hFound]
    exact hTaken.renamed
  · rw [hFound]
    exact hTaken.kept
  · rw [hFound]
    exact hTaken.superseded

/-- A class with fields that are listed in either way, and its name. -/
def layeredBase : MappingSet :=
  ((((∅ : MappingSet).addClass "a" "x/A").addField "a" "f" none "count").addField "a" "g" (some "I")
    "width").addField "a" "h" (some "I") "depth"

/-- The same fields in the other way, behind an entry that overlays the class. -/
def layeredTop : MappingSet :=
  ((((∅ : MappingSet).documentField "x/A" "depth" (some "I") "How deep.").addField "a" "f" (some "I")
    "total").addField "a" "f" (some "J") "f").addField "a" "g" none "breadth"

theorem fieldNames_merge_layered :
    layeredBase.Unambiguous ∧ layeredTop.Unambiguous ∧
    ∃ old new merged, layeredBase.class? "a" = some old ∧ layeredTop.class? "a" = some new ∧
      (layeredBase.merge layeredTop).class? "a" = some merged ∧
      (∀ n e, ClassMapping.FieldNames old new merged n e) ∧
      merged.fieldName? "f" "I" = some "total" ∧ merged.fieldName? "g" "I" = some "breadth" ∧
      merged.fieldName? "h" "I" = some "depth" := by
  have hBase : layeredBase.Unambiguous := by decide
  have hTop : layeredTop.Unambiguous := by decide
  obtain ⟨merged, hMerged, hFields⟩ := fieldNames_merge (c := "a") hBase hTop rfl rfl
  refine ⟨hBase, hTop, _, _, merged, rfl, rfl, hMerged, hFields, ?_, ?_, ?_⟩
  · exact (hFields "f" "I").renamed _ _ rfl (by decide) (.inl rfl)
  · exact (hFields "g" "I").renamed _ _ rfl (by decide) (.inr (.inl rfl))
  · exact (hFields "h" "I").kept (fun _ _ hNone => nomatch hNone) _ _ rfl (.inl rfl)

-- ---------------------------------------------------------------------------
-- Names that are lost
-- ---------------------------------------------------------------------------

/-- No name of a field is lost, in whichever way the two tables list it. -/
def KeepsFieldNames (s t : MappingSet) : Prop :=
  s.Unambiguous → t.Unambiguous →
    ∀ c old new, s.class? c = some old → t.class? c = some new →
      ∃ merged, (s.merge t).class? c = some merged ∧ ∀ n e,
        (∀ key f, new.field? n (some e) = some (key, f) → f.named ≠ n →
          merged.fieldName? n e = some f.named) ∧
        ((∀ key f, new.field? n (some e) = some (key, f) → f.named = n) →
          ∀ key f, old.field? n (some e) = some (key, f) → merged.fieldName? n e = some f.named)

/-- A field without a descriptor. -/
def looseField : MappingSet := (∅ : MappingSet).addField "a" "f" none "count"

/-- One field of that name, with a descriptor. -/
def describedField : MappingSet := (∅ : MappingSet).addField "a" "f" (some "I") "total"

/-- Two fields of that name which keep it. -/
def keptFields : MappingSet :=
  ((∅ : MappingSet).addField "a" "f" (some "I") "f").addField "a" "f" (some "J") "f"

/-- A name without a descriptor does not survive a field with another descriptor, does not reach a
field that is not listed yet, and is passed on to the first of several fields only. -/
theorem not_keepsFieldNames : ¬ KeepsFieldNames looseField describedField ∧
    ¬ KeepsFieldNames describedField looseField ∧ ¬ KeepsFieldNames looseField keptFields := by
  refine ⟨fun hKeeps => ?_, fun hKeeps => ?_, fun hKeeps => ?_⟩
  · obtain ⟨merged, hMerged, hNames⟩ := hKeeps (by decide) (by decide) "a" _ _ rfl rfl
    obtain rfl := Option.some.inj hMerged
    have hName := (hNames "f" "J").2 (fun _ _ hNone => nomatch hNone) _ _ rfl
    revert hName
    decide
  · obtain ⟨merged, hMerged, hNames⟩ := hKeeps (by decide) (by decide) "a" _ _ rfl rfl
    obtain rfl := Option.some.inj hMerged
    have hName := (hNames "f" "J").1 _ _ rfl (by decide)
    revert hName
    decide
  · obtain ⟨merged, hMerged, hNames⟩ := hKeeps (by decide) (by decide) "a" _ _ rfl rfl
    obtain rfl := Option.some.inj hMerged
    have hName := (hNames "f" "J").2 (fun _ _ hFound => by cases hFound; rfl) _ _ rfl
    revert hName
    decide

end MappingSet

end Jarsmith
