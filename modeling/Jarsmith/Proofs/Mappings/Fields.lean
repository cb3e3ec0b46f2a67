import Jarsmith.Proofs.Mappings.Merge

/-!
# Names of fields in a union

A field is listed with or without a descriptor, and a table that can be relied on never lists a name
both ways in one class. What a union gives for a field then depends on which of the two ways each
table has chosen.

* `ClassMapping.Unambiguous` — no name is listed both ways; `unambiguous_overriddenBy` says that
  merging keeps it so.
* `ClassMapping.get?_fieldNames_loose`, `ClassMapping.get?_fieldNames_described` — the fields of one
  name after a later entry.
-/

namespace Jarsmith

namespace ClassMapping

/-- The listed fields with their target names. -/
def fieldNames (c : ClassMapping) : OrderedMap FieldKey String :=
  c.fields.mapValues fun _ f => f.named

/-- The target name that a search for a field with a descriptor finds. -/
def fieldName? (c : ClassMapping) (name descriptor : String) : Option String :=
  (c.field? name (some descriptor)).map (·.2.named)

/-- No field name is listed both with and without a descriptor. -/
def Unambiguous (c : ClassMapping) : Prop :=
  ∀ a ∈ c.fields.keys, ∀ b ∈ c.fields.keys,
    a.name = b.name → a.descriptor = none → b.descriptor = none

instance (c : ClassMapping) : Decidable c.Unambiguous :=
  inferInstanceAs (Decidable (∀ a ∈ c.fields.keys, ∀ b ∈ c.fields.keys,
    a.name = b.name → a.descriptor = none → b.descriptor = none))

variable {name n e : String} {d : Option String} {c earlier later : ClassMapping} {key : FieldKey}
  {f : FieldMapping}

@[simp] theorem keys_fieldNames : c.fieldNames.keys = c.fields.keys := OrderedMap.keys_mapValues

theorem get?_fieldNames : c.fieldNames.get? key = (c.fields.get? key).map (·.named) :=
  OrderedMap.get?_mapValues

theorem field?_described : c.field? n (some e) =
    ((c.fields.get? ⟨n, some e⟩).map fun f => (⟨n, some e⟩, f)).or
      ((c.fields.get? ⟨n, none⟩).map fun f => (⟨n, none⟩, f)) := rfl

theorem fieldName?_eq : c.fieldName? n e =
    (c.fieldNames.get? ⟨n, some e⟩).or (c.fieldNames.get? ⟨n, none⟩) := by
  rw [fieldName?, field?_described, get?_fieldNames, get?_fieldNames]
  cases c.fields.get? ⟨n, some e⟩ with
  | none => cases c.fields.get? ⟨n, none⟩ <;> rfl
  | some f => rfl

theorem field?_loose : c.field? n none =
    ((c.fields.get? ⟨n, none⟩).map fun f => (⟨n, none⟩, f)).or
      (c.fields.entries.find? fun e => e.1.name == n) := rfl

/-- What a search with a descriptor finds is listed, with that descriptor or without one. -/
theorem field?_eq_some (hField : c.field? n (some e) = some (key, f)) :
    (key = ⟨n, some e⟩ ∨ (key = ⟨n, none⟩ ∧ c.fields.get? ⟨n, some e⟩ = none)) ∧
      c.fields.get? key = some f := by
  rw [field?_described] at hField
  cases hExact : c.fields.get? ⟨n, some e⟩ with
  | some g =>
    rw [hExact] at hField
    cases hField
    exact ⟨.inl rfl, hExact⟩
  | none =>
    rw [hExact] at hField
    obtain ⟨g, hLoose, hPair⟩ := Option.map_eq_some_iff.1 hField
    cases hPair
    exact ⟨.inr ⟨rfl, rfl⟩, hLoose⟩

/-- Whether an entry is ambiguous depends on the names of its fields only. -/
theorem unambiguous_congr (hNames : earlier.fieldNames = c.fieldNames) :
    earlier.Unambiguous ↔ c.Unambiguous := by
  rw [Unambiguous, Unambiguous, ← keys_fieldNames, hNames, keys_fieldNames]

theorem unambiguous_iff : c.Unambiguous ↔
    ∀ n e, c.fieldNames.get? ⟨n, none⟩ ≠ none → c.fieldNames.get? ⟨n, some e⟩ = none := by
  simp only [ne_eq, OrderedMap.get?_eq_none, keys_fieldNames, not_not]
  constructor
  · intro hKeys n e hLoose hDescribed
    cases hKeys _ hLoose _ hDescribed rfl rfl
  · rintro hLooks ⟨n, _⟩ ha ⟨_, d⟩ hb rfl rfl
    cases d with
    | none => rfl
    | some e => exact absurd hb (hLooks n e ha)

theorem Unambiguous.get?_loose (hc : c.Unambiguous) (hField : c.fields.get? ⟨n, some e⟩ = some f) :
    c.fields.get? ⟨n, none⟩ = none := by
  rw [OrderedMap.get?_eq_none]
  intro hMem
  cases hc _ hMem _ (OrderedMap.mem_keys.2 ⟨f, hField⟩) rfl rfl

-- ---------------------------------------------------------------------------
-- One later field
-- ---------------------------------------------------------------------------

/-- Whether any field of a name is listed. -/
def listsField (c : ClassMapping) (n : String) : Bool := c.fields.keys.any fun k => k.name == n

theorem fields_mergeField_of_listed (hLists : c.listsField n = true) :
    (c.mergeField ⟨n, none⟩ f).fields =
      c.fields.mapValues fun k g => if k.name = n then g.overriddenBy n f else g := by
  have hAny : (c.fields.keys.any fun k => k.name == n) = true := hLists
  simp only [mergeField]
  rw [if_pos hAny]

theorem fields_mergeField_of_not_listed (hLists : ¬ c.listsField n = true) :
    (c.mergeField ⟨n, none⟩ f).fields = c.fields.insert ⟨n, none⟩ f := by
  have hAny : ¬ (c.fields.keys.any fun k => k.name == n) = true := hLists
  simp only [mergeField]
  rw [if_neg hAny]

theorem listsField_iff : c.listsField n = true ↔ ∃ d, c.fieldNames.get? ⟨n, d⟩ ≠ none := by
  simp only [listsField, List.any_eq_true, beq_iff_eq, ne_eq, OrderedMap.get?_eq_none,
    keys_fieldNames, not_not]
  constructor
  · rintro ⟨⟨_, d⟩, hMem, rfl⟩
    exact ⟨d, hMem⟩
  · rintro ⟨d, hMem⟩
    exact ⟨_, hMem, rfl⟩

theorem listsField_of_get? (hField : c.fields.get? ⟨n, d⟩ = some f) : c.listsField n = true := by
  rw [listsField_iff]
  refine ⟨d, ?_⟩
  rw [get?_fieldNames, hField]
  exact Option.some_ne_none f.named

theorem exists_field?_of_listsField (hLists : c.listsField n = true) :
    ∃ d g, c.field? n none = some (⟨n, d⟩, g) ∧ c.fields.get? ⟨n, d⟩ = some g := by
  rw [field?_loose]
  cases hLoose : c.fields.get? ⟨n, none⟩ with
  | some g => exact ⟨none, g, rfl, hLoose⟩
  | none =>
    cases hFirst : c.fields.entries.find? fun e => e.1.name == n with
    | some first =>
      obtain ⟨⟨m, d⟩, g⟩ := first
      have hName := List.find?_some hFirst
      obtain rfl : m = n := beq_iff_eq.1 hName
      exact ⟨d, g, rfl, OrderedMap.get?_eq_some.2 (List.mem_of_find?_eq_some hFirst)⟩
    | none =>
      rw [listsField, List.any_eq_true] at hLists
      obtain ⟨k, hKey, hName⟩ := hLists
      obtain ⟨g, hGet⟩ := OrderedMap.mem_keys.1 hKey
      exact absurd hName (List.find?_eq_none.1 hFirst (k, g) (OrderedMap.get?_eq_some.1 hGet))

theorem listsField_congr (hNames : earlier.fieldNames = c.fieldNames) :
    earlier.listsField n = c.listsField n := by
  rw [listsField, listsField, ← keys_fieldNames, hNames, keys_fieldNames]

theorem get?_fieldNames_mergeField_ne (hName : key.name ≠ n) :
    (c.mergeField key f).fieldNames.get? ⟨n, d⟩ = c.fieldNames.get? ⟨n, d⟩ := by
  have hKey : ∀ d', (⟨key.name, d'⟩ : FieldKey) ≠ ⟨n, d⟩ := fun d' hEq =>
    hName (congrArg FieldKey.name hEq)
  obtain ⟨m, d'⟩ := key
  rw [get?_fieldNames, get?_fieldNames]
  cases d' with
  | none =>
    simp only [mergeField]
    split
    · rw [OrderedMap.get?_mapValues, Option.map_map]
      simp only [if_neg (Ne.symm hName), Function.comp_def]
    · rw [OrderedMap.get?_insert, if_neg (hKey none)]
  | some e =>
    simp only [mergeField]
    rw [OrderedMap.get?_insert, if_neg (hKey _), OrderedMap.get?_erase, if_neg (hKey _)]

/-- One without a descriptor overrides all fields of its name, and is listed only if there are
none. -/
theorem get?_fieldNames_mergeField_loose : (c.mergeField ⟨n, none⟩ f).fieldNames.get? ⟨n, d⟩ =
    if c.listsField n = true then
      (c.fieldNames.get? ⟨n, d⟩).map fun old => if f.named = n then old else f.named
    else if d = none then some f.named else none := by
  rw [get?_fieldNames]
  by_cases hLists : c.listsField n = true
  · rw [if_pos hLists, fields_mergeField_of_listed hLists, OrderedMap.get?_mapValues,
      get?_fieldNames, Option.map_map,
      Option.map_map]
    simp [Function.comp_def, FieldMapping.overriddenBy]
  · have hNone : c.fields.get? ⟨n, d⟩ = none := by
      rw [listsField_iff] at hLists
      have hAbsent := not_exists.1 hLists d
      rw [not_not, get?_fieldNames, Option.map_eq_none_iff] at hAbsent
      exact hAbsent
    rw [if_neg hLists, fields_mergeField_of_not_listed hLists, OrderedMap.get?_insert, hNone]
    cases d <;> simp

/-- One with a descriptor takes the place of the one without. -/
theorem get?_fieldNames_mergeField_described :
    (c.mergeField ⟨n, some e⟩ f).fieldNames.get? ⟨n, d⟩ =
      if d = none then none
      else if d = some e then some (if f.named = n then
        ((c.fieldNames.get? ⟨n, some e⟩).or (c.fieldNames.get? ⟨n, none⟩)).getD f.named
        else f.named)
      else c.fieldNames.get? ⟨n, d⟩ := by
  rw [get?_fieldNames, get?_fieldNames, get?_fieldNames, get?_fieldNames]
  simp only [mergeField]
  rw [OrderedMap.get?_insert, OrderedMap.get?_erase, OrderedMap.get?_erase]
  cases d with
  | none => simp
  | some d =>
    by_cases hSame : d = e
    · subst hSame
      cases c.fields.get? ⟨n, some d⟩ <;> cases c.fields.get? ⟨n, none⟩ <;>
        simp [FieldMapping.overriddenBy]
    · simp [hSame, Ne.symm hSame]

theorem unambiguous_mergeField (hc : c.Unambiguous) : (c.mergeField key f).Unambiguous := by
  rw [unambiguous_iff] at hc ⊢
  intro n e hLoose
  by_cases hName : key.name = n
  · obtain ⟨_, d⟩ := key
    subst hName
    cases d with
    | none =>
      rw [get?_fieldNames_mergeField_loose] at hLoose ⊢
      split at hLoose
      · rename_i hLists
        rw [if_pos hLists, hc _ e (fun hNone => hLoose (by rw [hNone]; rfl))]
        rfl
      · rename_i hLists
        rw [if_neg hLists, if_neg (Option.some_ne_none e)]
    | some _ =>
      rw [get?_fieldNames_mergeField_described, if_pos rfl] at hLoose
      exact absurd rfl hLoose
  · rw [get?_fieldNames_mergeField_ne hName] at hLoose ⊢
    exact hc n e hLoose

/-- A later field that is listed already and keeps its name changes no name. -/
theorem fieldNames_mergeField_of_identity (hc : c.Unambiguous) (hKey : key ∈ c.fields.keys)
    (hNamed : f.named = key.name) : (c.mergeField key f).fieldNames = c.fieldNames := by
  obtain ⟨n, d⟩ := key
  have hSame : ∀ g : FieldMapping, (g.overriddenBy n f).named = g.named := fun g =>
    if_pos hNamed
  cases d with
  | none =>
    have hLists : c.listsField n = true := by
      rw [listsField, List.any_eq_true]
      exact ⟨_, hKey, beq_self_eq_true n⟩
    rw [fieldNames, fieldNames, fields_mergeField_of_listed hLists]
    ext1
    simp only [OrderedMap.mapValues, List.map_map]
    refine List.map_congr_left fun e _ => ?_
    dsimp only [Function.comp_apply]
    split
    · rw [hSame]
    · rfl
  | some e =>
    obtain ⟨g, hGet⟩ := OrderedMap.mem_keys.1 hKey
    have hLoose : c.fields.get? ⟨n, none⟩ = none := hc.get?_loose hGet
    have hMerge : (c.mergeField ⟨n, some e⟩ f).fields =
        c.fields.insert ⟨n, some e⟩ (g.overriddenBy n f) := by
      simp only [mergeField]
      rw [OrderedMap.erase_of_get? hLoose, hGet]
      rfl
    rw [fieldNames, fieldNames, hMerge, OrderedMap.mapValues_insert, hSame]
    refine OrderedMap.insert_of_get? ?_
    rw [OrderedMap.get?_mapValues, hGet]
    rfl

-- ---------------------------------------------------------------------------
-- Many later fields
-- ---------------------------------------------------------------------------

section Many

variable {l before after : List (FieldKey × FieldMapping)}

theorem fieldNames_overriddenBy : (earlier.overriddenBy name later).fieldNames =
    ((renamedBy name earlier later).mergeFields later.fields.entries).fieldNames := by
  rw [fieldNames, fields_overriddenBy]
  rfl

theorem mergeFields_append : c.mergeFields (before ++ (key, f) :: after) =
    ((c.mergeFields before).mergeField key f).mergeFields after := by
  rw [mergeFields, List.foldl_append, List.foldl_cons]
  rfl

theorem get?_fieldNames_mergeFields_ne (hNames : ∀ e ∈ l, e.1.name ≠ n) :
    (c.mergeFields l).fieldNames.get? ⟨n, d⟩ = c.fieldNames.get? ⟨n, d⟩ :=
  OrderedMap.foldl_unchanged (fun c : ClassMapping => c.fieldNames.get? ⟨n, d⟩) fun _ e hMem =>
    get?_fieldNames_mergeField_ne (hNames e hMem)

theorem get?_fieldNames_mergeFields_some (hLoose : ∀ e' ∈ l, e'.1 ≠ ⟨n, none⟩)
    (hKey : ∀ e' ∈ l, e'.1 ≠ ⟨n, some e⟩) :
    (c.mergeFields l).fieldNames.get? ⟨n, some e⟩ = c.fieldNames.get? ⟨n, some e⟩ := by
  refine OrderedMap.foldl_unchanged (fun c : ClassMapping => c.fieldNames.get? ⟨n, some e⟩) ?_
  rintro c' ⟨⟨m, d⟩, f⟩ hMem
  by_cases hName : m = n
  · subst hName
    cases d with
    | none => exact absurd rfl (hLoose _ hMem)
    | some e' =>
      have hNe : ¬ some e = some e' := fun hEq => hKey _ hMem (by rw [hEq])
      rw [get?_fieldNames_mergeField_described, if_neg (Option.some_ne_none e), if_neg hNe]
  · exact get?_fieldNames_mergeField_ne hName

/-- An entry without a descriptor that is not listed does not come back. -/
theorem get?_fieldNames_mergeFields_none (hLoose : ∀ e ∈ l, e.1 ≠ ⟨n, none⟩)
    (hNone : c.fieldNames.get? ⟨n, none⟩ = none) :
    (c.mergeFields l).fieldNames.get? ⟨n, none⟩ = none := by
  refine List.foldlRecOn (motive := fun c' : ClassMapping =>
    c'.fieldNames.get? ⟨n, none⟩ = none) l _ hNone ?_
  rintro c' hNone ⟨⟨m, d⟩, f⟩ hMem
  by_cases hName : m = n
  · subst hName
    cases d with
    | none => exact absurd rfl (hLoose _ hMem)
    | some e' => rw [get?_fieldNames_mergeField_described, if_pos rfl]
  · rw [get?_fieldNames_mergeField_ne hName]
    exact hNone

end Many

-- ---------------------------------------------------------------------------
-- A later entry of the class
-- ---------------------------------------------------------------------------

theorem unambiguous_overriddenBy (hEarlier : earlier.Unambiguous) :
    (earlier.overriddenBy name later).Unambiguous := by
  rw [unambiguous_congr fieldNames_overriddenBy]
  exact List.foldlRecOn (motive := Unambiguous) _ _ hEarlier fun _ hc _ _ =>
    unambiguous_mergeField hc

theorem get?_fieldNames_unlisted (hLists : ¬ later.listsField n = true) :
    (earlier.overriddenBy name later).fieldNames.get? ⟨n, d⟩ = earlier.fieldNames.get? ⟨n, d⟩ := by
  rw [fieldNames_overriddenBy]
  refine get?_fieldNames_mergeFields_ne fun e hMem hName => hLists ?_
  rw [listsField, List.any_eq_true]
  exact ⟨e.1, List.mem_map_of_mem hMem, beq_iff_eq.2 hName⟩

/-- **A later field without a descriptor** overrides the fields of its name, or is listed if there
are none. -/
theorem get?_fieldNames_loose (hLater : later.Unambiguous)
    (hField : later.fields.get? ⟨n, none⟩ = some f) :
    (earlier.overriddenBy name later).fieldNames.get? ⟨n, d⟩ =
      if earlier.listsField n = true then
        (earlier.fieldNames.get? ⟨n, d⟩).map fun old => if f.named = n then old else f.named
      else if d = none then some f.named else none := by
  obtain ⟨before, after, hSplit, hBefore, hAfter⟩ := OrderedMap.exists_split hField
  -- no other later field has this name
  have hKeys : ∀ e ∈ later.fields.entries, e.1.name = n → e.1 = ⟨n, none⟩ := by
    rintro ⟨⟨m, d⟩, g⟩ hMem hName
    have hDescriptor : d = none :=
      hLater _ (OrderedMap.mem_keys.2 ⟨f, hField⟩) _ (List.mem_map_of_mem hMem) hName.symm rfl
    rw [← hName, ← hDescriptor]
  rw [hSplit] at hKeys
  have hOthersBefore : ∀ e ∈ before, e.1.name ≠ n := fun e hMem hName =>
    hBefore e hMem (hKeys e (List.mem_append_left _ hMem) hName)
  have hOthersAfter : ∀ e ∈ after, e.1.name ≠ n := fun e hMem hName =>
    hAfter e hMem (hKeys e (List.mem_append_right _ (List.mem_cons_of_mem _ hMem)) hName)
  have hLists : ((renamedBy name earlier later).mergeFields before).listsField n =
      earlier.listsField n := by
    rw [Bool.eq_iff_iff, listsField_iff, listsField_iff]
    simp only [get?_fieldNames_mergeFields_ne hOthersBefore]
    rfl
  rw [fieldNames_overriddenBy, hSplit, mergeFields_append,
    get?_fieldNames_mergeFields_ne hOthersAfter, get?_fieldNames_mergeField_loose, hLists,
    get?_fieldNames_mergeFields_ne hOthersBefore]
  rfl

section Described

variable {before after : List (FieldKey × FieldMapping)}
  (hLoose : later.fields.get? ⟨n, none⟩ = none)

include hLoose

theorem ne_loose_of_mem {e' : FieldKey × FieldMapping} (hMem : e' ∈ later.fields.entries) :
    e'.1 ≠ ⟨n, none⟩ := by
  rw [OrderedMap.get?_eq_none] at hLoose
  exact fun hKey => hLoose (hKey ▸ List.mem_map_of_mem hMem)

/-- **A later field with a descriptor** overrides the one of its name and descriptor, or else that
without a descriptor, if that is still there. -/
theorem get?_fieldNames_described
    (hSplit : later.fields.entries = before ++ (⟨n, some e⟩, f) :: after) :
    (earlier.overriddenBy name later).fieldNames.get? ⟨n, some e⟩ =
      some (if f.named = n then
        ((earlier.fieldNames.get? ⟨n, some e⟩).or
          (((renamedBy name earlier later).mergeFields before).fieldNames.get? ⟨n, none⟩)).getD
            f.named
        else f.named) := by
  obtain ⟨hBefore, hAfter⟩ := OrderedMap.ne_of_split hSplit
  have hAll : ∀ e' ∈ before ++ (⟨n, some e⟩, f) :: after, e'.1 ≠ ⟨n, none⟩ := fun e' hMem =>
    ne_loose_of_mem hLoose (hSplit ▸ hMem)
  rw [fieldNames_overriddenBy, hSplit, mergeFields_append,
    get?_fieldNames_mergeFields_some
      (fun e' hMem => hAll e' (List.mem_append_right _ (List.mem_cons_of_mem _ hMem))) hAfter,
    get?_fieldNames_mergeField_described, if_neg (Option.some_ne_none e), if_pos rfl,
    get?_fieldNames_mergeFields_some (fun e' hMem => hAll e' (List.mem_append_left _ hMem)) hBefore]
  rfl

theorem get?_fieldNames_of_not_described (hOther : later.fields.get? ⟨n, some e⟩ = none) :
    (earlier.overriddenBy name later).fieldNames.get? ⟨n, some e⟩ =
      earlier.fieldNames.get? ⟨n, some e⟩ := by
  rw [OrderedMap.get?_eq_none] at hOther
  rw [fieldNames_overriddenBy, get?_fieldNames_mergeFields_some
    (fun e' hMem => ne_loose_of_mem hLoose hMem)
    fun e' hMem hKey => hOther (hKey ▸ List.mem_map_of_mem hMem)]
  rfl

/-- A later field with a descriptor supersedes the field without one. -/
theorem get?_fieldNames_superseded (hField : later.fields.get? ⟨n, some e⟩ = some f) :
    (earlier.overriddenBy name later).fieldNames.get? ⟨n, none⟩ = none := by
  obtain ⟨before, after, hSplit, -⟩ := OrderedMap.exists_split hField
  rw [fieldNames_overriddenBy, hSplit, mergeFields_append]
  refine get?_fieldNames_mergeFields_none (fun e' hMem => ne_loose_of_mem hLoose ?_) ?_
  · rw [hSplit]
    exact List.mem_append_right _ (List.mem_cons_of_mem _ hMem)
  · rw [get?_fieldNames_mergeField_described, if_pos rfl]

end Described

end ClassMapping

end Jarsmith
