import Jarsmith.Proofs.Mappings.FieldUnion
import Jarsmith.Proofs.Mappings.Records

/-!
# Merging tables of records

The union of two tables of records works on the records: a field that is superseded is taken out and
put back under the key of the later one, a class is changed where it stands, and an entry in target
names is turned into records in source names before it is taken in. The class that an index of target
names gives is looked up, and it has to be there.

* `RecordTable.merge?` — the union, if every class is found that is looked up.
* `MappingSet.merge?_records` — it is, and the union is the one of the mapping sets.
* `MappingSet.unambiguous_merge` — no field name comes to be listed both ways.
* `RecordTable.Built` — the tables that there are.
* `RecordTable.merge_keeps_tables` — every union of tables without such names is one of them, with
  every record under its own key.
-/

namespace Jarsmith

-- ---------------------------------------------------------------------------
-- Taking in later records
-- ---------------------------------------------------------------------------

/-- What a record of a field is after a later one. -/
def FieldRecord.overriddenBy (earlier later : FieldRecord) : FieldRecord :=
  { earlier with
    named := if later.named = later.name then earlier.named else later.named
    javadoc := later.javadoc.or earlier.javadoc }

/-- What a record of a method is after a later one. -/
def MethodRecord.overriddenBy (earlier later : MethodRecord) : MethodRecord :=
  { earlier with
    named := if later.named = later.name then earlier.named else later.named
    parameters := earlier.parameters.overriddenBy later.parameters
    javadoc := later.javadoc.or earlier.javadoc }

namespace ClassRecord

/-- Takes in a later record of a field. One without a descriptor changes all records of its name where
they stand. One with a descriptor takes the one without out, and goes on from it if it has no
predecessor of its own. -/
def mergeField (c : ClassRecord) (later : FieldRecord) : ClassRecord :=
  match later.descriptor with
  | none =>
    if c.fields.values.any fun f => f.name == later.name then
      { c with fields := c.fields.mapValues fun _ f =>
          if f.name = later.name then f.overriddenBy later else f }
    else { c with fields := c.fields.insert ⟨later.name, none⟩ later }
  | some _ =>
    let loose := c.fields.get? ⟨later.name, none⟩
    let fields := c.fields.erase ⟨later.name, none⟩
    { c with fields := fields.insert later.key <|
        match fields.get? later.key with
        | some earlier => earlier.overriddenBy later
        | none => { loose.getD later with descriptor := later.descriptor }.overriddenBy later }

/-- Takes in a later record of a method. -/
def mergeMethod (c : ClassRecord) (later : MethodRecord) : ClassRecord :=
  { c with methods := c.methods.insert later.key <|
      match c.methods.get? later.key with
      | some earlier => earlier.overriddenBy later
      | none => later }

/-- What a record of a class is after a later one. -/
def overriddenBy (earlier later : ClassRecord) : ClassRecord :=
  let c := { earlier with
    named := if later.named = later.name then earlier.named else later.named
    javadoc := later.javadoc.or earlier.javadoc }
  let c := later.fields.values.foldl mergeField c
  later.methods.values.foldl mergeMethod c

/-- Whether a record renames nothing. -/
def isIdentity (c : ClassRecord) : Bool :=
  c.name == c.named && c.fields.values.all (fun f => f.name == f.named)
    && c.methods.values.all (fun m => m.name == m.named)

end ClassRecord

namespace RecordTable

/-- The target names of the listed classes by their source names. -/
def targets (t : RecordTable) : OrderedMap String String :=
  .ofList (t.classes.values.map fun c => (c.name, c.named))

/-- A descriptor with the target names of the listed classes. -/
def listedDescriptor (t : RecordTable) (descriptor : String) : String :=
  Descriptor.rename (fun name => (t.targets.get? name).getD name) descriptor

/-- The field of `target` that the later record `theirs` is about in the target namespace. -/
def fieldNamed? (t : RecordTable) (target : ClassRecord) (theirs : FieldRecord) :
    Option FieldRecord :=
  target.fields.values.find? fun ours => ours.named == theirs.name &&
    match ours.descriptor, theirs.descriptor with
    | some d, some e => t.listedDescriptor d == e
    | _, _ => true

/-- The source name and descriptor of the method of `target` that the later record `theirs` is about
in the target namespace. -/
def methodNamed? (t : RecordTable) (target : ClassRecord) (theirs : MethodRecord) :
    Option MethodKey :=
  match target.methods.values.find? fun ours =>
      ours.named == theirs.name && t.listedDescriptor ours.descriptor == theirs.descriptor with
  | some ours => some ours.key
  | none => if target.name = target.named then some theirs.key else none

/-- Takes in what the later record `theirs` says about a field of `target`. -/
def overlayField (t : RecordTable) (target c : ClassRecord) (theirs : FieldRecord) : ClassRecord :=
  match t.fieldNamed? target theirs with
  | some ours => c.insertField ⟨ours.name, ours.descriptor, ours.name, theirs.javadoc⟩
  | none => c

/-- Takes in what the later record `theirs` says about a method of `target`. -/
def overlayMethod (t : RecordTable) (target c : ClassRecord) (theirs : MethodRecord) : ClassRecord :=
  match t.methodNamed? target theirs with
  | some key =>
    c.insertMethod ⟨key.name, key.descriptor, key.name, theirs.parameters, theirs.javadoc⟩
  | none => c

/-- What `later`, a record in target names, says about the class `target`, in source names. -/
def overlay (t : RecordTable) (target later : ClassRecord) : ClassRecord :=
  let c := { ClassRecord.new target.name target.name with javadoc := later.javadoc }
  let c := later.fields.values.foldl (t.overlayField target) c
  later.methods.values.foldl (t.overlayMethod target) c

/-- A table on the way to a union: its classes, and the class that last took a target name. -/
structure Merging where
  table : RecordTable
  byNamed : OrderedMap String String

/-- Takes in a later record of a class. A class that the index gives has to be listed. -/
def Merging.add? (s : Merging) (later : ClassRecord) : Option Merging :=
  match s.table.classes.get? later.name with
  | some earlier =>
    let c := earlier.overriddenBy later
    some ⟨⟨s.table.classes.insert later.name c⟩, s.byNamed.insert c.named c.name⟩
  | none =>
    match if later.isIdentity then s.byNamed.get? later.name else none with
    | some owner => (s.table.classes.get? owner).map fun target =>
      { s with table := ⟨s.table.classes.insert owner
          (target.overriddenBy (s.table.overlay target later))⟩ }
    | none =>
      some ⟨⟨s.table.classes.insert later.name later⟩, s.byNamed.insert later.named later.name⟩

/-- A table before anything is taken in. -/
def Merging.start (t : RecordTable) : Merging :=
  ⟨t, t.classes.values.foldl (fun byNamed c => byNamed.insert c.named c.name) ∅⟩

/-- The union of two tables; `later` wins every conflict. -/
def merge? (t later : RecordTable) : Option RecordTable :=
  (later.classes.values.foldlM Merging.add? (Merging.start t)).map (·.table)

end RecordTable

-- ---------------------------------------------------------------------------
-- Members
-- ---------------------------------------------------------------------------

namespace ClassMapping

variable {name : String} {c earlier later : ClassMapping}

theorem any_fields_record {n : String} :
    ((c.record name).fields.values.any fun f => f.name == n) =
      c.fields.keys.any fun k => k.name == n := by
  rw [values_fields_record, List.any_map, OrderedMap.keys, List.any_map]
  rfl

/-- A later record without a descriptor changes the records of its name as the later entry does. -/
theorem record_mergeField_loose (c : ClassMapping) (n : String) (f : FieldMapping) :
    (c.mergeField ⟨n, none⟩ f).record name = (c.record name).mergeField (f.record ⟨n, none⟩) := by
  have hChange : ∀ e ∈ c.fields.entries,
      (if e.1.name = n then e.2.overriddenBy n f else e.2).record e.1 =
        if (e.2.record e.1).name = n then (e.2.record e.1).overriddenBy (f.record ⟨n, none⟩)
        else e.2.record e.1 := by
    intro e _
    show _ = if e.1.name = n then _ else _
    split <;> rfl
  show (if _ then _ else _ : ClassMapping).record name =
    if (c.record name).fields.values.any fun g => g.name == n then _ else _
  rw [any_fields_record]
  split
  · refine congrArg (fun fields => { c.record name with fields := fields }) ?_
    exact (OrderedMap.mapValues_mapValues.trans (OrderedMap.mapValues_congr hChange)).trans
      OrderedMap.mapValues_mapValues.symm
  · exact c.record_insertField ⟨n, none⟩ f

theorem record_mergeField (c : ClassMapping) (key : FieldKey) (f : FieldMapping) :
    (c.mergeField key f).record name = (c.record name).mergeField (f.record key) := by
  obtain ⟨n, d⟩ := key
  cases d with
  | none => exact c.record_mergeField_loose n f
  | some d =>
    simp only [mergeField, ClassRecord.mergeField, record, FieldMapping.record, FieldRecord.key,
      OrderedMap.mapValues_insert, ← OrderedMap.mapValues_erase, OrderedMap.get?_mapValues]
    congr 2
    cases (c.fields.erase ⟨n, none⟩).get? ⟨n, some d⟩ with
    | some earlier => rfl
    | none => cases c.fields.get? ⟨n, none⟩ <;> rfl

theorem record_mergeMethod (c : ClassMapping) (key : MethodKey) (m : MethodMapping) :
    (c.mergeMethod key m).record name = (c.record name).mergeMethod (m.record key) := by
  simp only [mergeMethod, ClassRecord.mergeMethod, record, MethodMapping.key_record,
    OrderedMap.mapValues_insert, OrderedMap.get?_mapValues]
  congr 2
  cases c.methods.get? key <;> rfl

/-- A record after a later one for the same class. -/
theorem record_overriddenBy (name : String) (earlier later : ClassMapping) :
    (earlier.overriddenBy name later).record name =
      (earlier.record name).overriddenBy (later.record name) := by
  rw [ClassRecord.overriddenBy, values_fields_record, values_methods_record, List.foldl_map,
    List.foldl_map]
  have hFields : later.fields.entries.foldl (fun c e => c.mergeField (e.2.record e.1))
      ((renamedBy name earlier later).record name) = (withFieldsOf name earlier later).record name :=
    List.foldl_hom (record name) fun c e => (c.record_mergeField e.1 e.2).symm
  have hMethods : later.methods.entries.foldl (fun c e => c.mergeMethod (e.2.record e.1))
      ((withFieldsOf name earlier later).record name) =
        (earlier.overriddenBy name later).record name :=
    List.foldl_hom (record name) fun c e => (c.record_mergeMethod e.1 e.2).symm
  rw [← hMethods, ← hFields]
  rfl

theorem isIdentity_record (name : String) (c : ClassMapping) :
    (c.record name).isIdentity = c.isIdentity name := by
  rw [ClassRecord.isIdentity, values_fields_record, values_methods_record, List.all_map, List.all_map]
  rfl

end ClassMapping

-- ---------------------------------------------------------------------------
-- Overlays
-- ---------------------------------------------------------------------------

namespace MappingSet

open ClassMapping

variable {m s t : MappingSet} {owner : String} {target later : ClassMapping}

theorem listedDescriptor_records (m : MappingSet) (descriptor : String) :
    m.records.listedDescriptor descriptor = m.listedDescriptor descriptor := by
  have hList : m.records.classes.values.map (fun c => (c.name, c.named)) =
      m.classes.entries.map fun e => (e.1, e.2.named) := by
    rw [records, OrderedMap.values_mapValues, List.map_map]
    rfl
  have hTargets : m.records.targets = m.classes.mapValues fun _ c => c.named := by
    rw [RecordTable.targets, hList]
    exact OrderedMap.ofList_map_entries (f := fun _ (c : ClassMapping) => c.named)
  simp only [RecordTable.listedDescriptor, hTargets, OrderedMap.get?_mapValues]
  rfl

theorem fieldNamed?_records (key : FieldKey) (f : FieldMapping) :
    (m.records.fieldNamed? (target.record owner) (f.record key)).map (·.key) =
      m.fieldNamed? target key := by
  rw [RecordTable.fieldNamed?, values_fields_record, List.find?_map, Option.map_map, fieldNamed?]
  simp only [listedDescriptor_records]
  rfl

theorem methodNamed?_records (key : MethodKey) (e : MethodMapping) :
    m.records.methodNamed? (target.record owner) (e.record key) =
      m.methodNamed? owner target key := by
  rw [RecordTable.methodNamed?, values_methods_record, List.find?_map, methodNamed?]
  simp only [listedDescriptor_records]
  have hSame : (fun ours : MethodKey × MethodMapping =>
      ours.2.named == key.name && m.listedDescriptor ours.1.descriptor == key.descriptor) =
      (fun ours : MethodRecord => ours.named == (e.record key).name &&
        m.listedDescriptor ours.descriptor == (e.record key).descriptor) ∘
        fun ours => ours.2.record ours.1 := rfl
  rw [← hSame]
  cases target.methods.entries.find? fun ours =>
    ours.2.named == key.name && m.listedDescriptor ours.1.descriptor == key.descriptor <;> rfl

theorem record_overlayField (c : ClassMapping) (key : FieldKey) (f : FieldMapping) :
    record owner { c with fields := match m.fieldNamed? target key with
      | some ours => c.fields.insert ours ⟨ours.name, f.javadoc⟩
      | none => c.fields } =
      m.records.overlayField (target.record owner) (c.record owner) (f.record key) := by
  have hNamed : (m.records.fieldNamed? (target.record owner) (f.record key)).map (·.key) =
    m.fieldNamed? target key := fieldNamed?_records key f
  rw [← hNamed, RecordTable.overlayField]
  cases m.records.fieldNamed? (target.record owner) (f.record key) with
  | some ours => exact c.record_insertField ours.key _
  | none => rfl

theorem record_overlayMethod (c : ClassMapping) (key : MethodKey) (e : MethodMapping) :
    record owner { c with methods := match m.methodNamed? owner target key with
      | some ours => c.methods.insert ours { e with named := ours.name }
      | none => c.methods } =
      m.records.overlayMethod (target.record owner) (c.record owner) (e.record key) := by
  rw [RecordTable.overlayMethod, methodNamed?_records]
  cases m.methodNamed? owner target key with
  | some ours => exact c.record_insertMethod ours _
  | none => rfl

/-- **Records in target names are carried back as entries are.** -/
theorem record_overlay (m : MappingSet) (owner name : String) (target later : ClassMapping) :
    (m.overlay owner target later).record owner =
      m.records.overlay (target.record owner) (later.record name) := by
  rw [RecordTable.overlay, values_fields_record, values_methods_record, List.foldl_map,
    List.foldl_map]
  have hFields := record_foldl_fields owner ⟨owner, later.javadoc, ∅, ∅⟩ later.fields.entries
    (fun c e => m.records.overlayField (target.record owner) c (e.2.record e.1))
    fun fields e => record_overlayField ⟨owner, later.javadoc, fields, ∅⟩ e.1 e.2
  have hMethods := record_foldl_methods owner { m.overlay owner target later with methods := ∅ }
    later.methods.entries
    (fun c e => m.records.overlayMethod (target.record owner) c (e.2.record e.1))
    fun methods e =>
      record_overlayMethod { m.overlay owner target later with methods := methods } e.1 e.2
  exact hMethods.trans (congrArg (List.foldl _ · _) hFields)

-- ---------------------------------------------------------------------------
-- Unions
-- ---------------------------------------------------------------------------

namespace Merging

variable {st : Merging} {name : String} {later : ClassMapping}

/-- A mapping set on the way to a union, as a table of records. -/
def records (st : Merging) : RecordTable.Merging := ⟨st.set.records, st.byNamed⟩

/-- Every class that the index of target names gives is listed. -/
def Indexed (st : Merging) : Prop :=
  ∀ named owner, st.byNamed.get? named = some owner → st.set.class? owner ≠ none

theorem indexed_start (m : MappingSet) : (start m).Indexed := by
  intro named owner hIndex
  refine OrderedMap.of_get?_foldl (P := fun _ owner => m.class? owner ≠ none)
    (fun byNamed e he => .inr ⟨e.2.named, e.1, ?_, rfl⟩) hIndex
  rw [class?, OrderedMap.get?_eq_some.2 he]
  exact Option.some_ne_none e.2

theorem Indexed.insert {classes : OrderedMap String ClassMapping} {entry : ClassMapping}
    {named : String} (hIndexed : Indexed ⟨⟨classes⟩, st.byNamed⟩) :
    Indexed ⟨⟨classes.insert name entry⟩, st.byNamed.insert named name⟩ := by
  intro other owner hIndex
  rw [class?_insert_ne_none]
  rw [OrderedMap.get?_insert] at hIndex
  split at hIndex
  · exact .inl (Option.some.inj hIndex)
  · exact .inr (hIndexed other owner hIndex)

/-- A step lists what it puts into the index, and takes no class away. -/
theorem Indexed.add (hIndexed : st.Indexed) (name : String) (later : ClassMapping) :
    (st.add name later).Indexed := by
  have hAdds := st.adds_add name later
  generalize st.add name later = st' at hAdds ⊢
  cases hAdds with
  | own _ => exact hIndexed.insert
  | fresh _ _ => exact hIndexed.insert
  | overlaid _ _ _ _ =>
    exact fun named owner hIndex => class?_insert_ne_none.2 (.inr (hIndexed named owner hIndex))

/-- **A step on the records is the step on the entries**, and it finds every class that it looks up. -/
theorem add?_records (hIndexed : st.Indexed) (name : String) (later : ClassMapping) :
    st.records.add? (later.record name) = some (st.add name later).records := by
  have hInsert : ∀ (owner : String) (c : ClassMapping) (byNamed : OrderedMap String String),
      (⟨⟨st.set.records.classes.insert owner (c.record owner)⟩, byNamed⟩ : RecordTable.Merging) =
        records ⟨⟨st.set.classes.insert owner c⟩, byNamed⟩ := fun _ _ byNamed =>
    congrArg (fun classes => RecordTable.Merging.mk ⟨classes⟩ byNamed)
      OrderedMap.mapValues_insert.symm
  have hClass : st.records.table.classes.get? (later.record name).name =
      (st.set.class? name).map (ClassMapping.record name) := get?_classes_records
  rw [RecordTable.Merging.add?, hClass, isIdentity_record, add]
  cases st.set.class? name with
  | some earlier =>
    dsimp only [Option.map_some]
    rw [← record_overriddenBy]
    exact congrArg some (hInsert name _ _)
  | none =>
    show (match if later.isIdentity name then st.byNamed.get? name else none with
      | some owner => _ | none => _) = _
    cases hOwner : if later.isIdentity name then st.byNamed.get? name else none with
    | none => exact congrArg some (hInsert name _ _)
    | some owner =>
      have hIndex : st.byNamed.get? name = some owner := by
        split at hOwner
        · exact hOwner
        · cases hOwner
      obtain ⟨target, hTarget⟩ := Option.ne_none_iff_exists'.1 (hIndexed name owner hIndex)
      have hGet : st.records.table.classes.get? owner = some (target.record owner) := by
        rw [records, get?_classes_records, hTarget, Option.map_some]
      dsimp only
      rw [hGet, Option.bind_some, hTarget, Option.map_some, Option.map_some]
      show some (RecordTable.Merging.mk ⟨st.set.records.classes.insert owner
        ((target.record owner).overriddenBy
          (st.set.records.overlay (target.record owner) (later.record name)))⟩ st.byNamed) = _
      rw [← record_overlay, ← record_overriddenBy]
      exact congrArg some (hInsert owner _ _)

/-- A run over later records is the run over the entries. -/
theorem foldlM_add?_records (hIndexed : st.Indexed) (l : List (String × ClassMapping)) :
    (l.map fun e => e.2.record e.1).foldlM RecordTable.Merging.add? st.records =
      some (l.foldl (fun st e => st.add e.1 e.2) st).records := by
  induction l generalizing st with
  | nil => rfl
  | cons e rest ih =>
    rw [List.map_cons, List.foldlM_cons, add?_records hIndexed]
    exact ih (hIndexed.add e.1 e.2)

end Merging

/-- **The union of two tables of records is that of the mapping sets.** It finds every class that it
looks up, and every record stands under its own key again. -/
theorem merge?_records (s t : MappingSet) : s.records.merge? t.records = some (s.merge t).records := by
  have hStart : RecordTable.Merging.start s.records = (Merging.start s).records := by
    rw [RecordTable.Merging.start, records, OrderedMap.values_mapValues, List.foldl_map]
    rfl
  have hValues : t.records.classes.values = t.classes.entries.map fun e => e.2.record e.1 :=
    OrderedMap.values_mapValues
  rw [RecordTable.merge?, hStart, hValues, Merging.foldlM_add?_records (Merging.indexed_start s),
    merge_eq]
  rfl

/-- A step of a union keeps the classes unambiguous. -/
theorem unambiguous_add {st : Merging} {name : String} (hSet : st.set.Unambiguous)
    (hLater : later.Unambiguous) : (st.add name later).set.Unambiguous := by
  have hAdds := st.adds_add name later
  generalize st.add name later = st' at hAdds ⊢
  have hInsert : ∀ {owner : String} {c : ClassMapping}, c.Unambiguous →
      Unambiguous ⟨st.set.classes.insert owner c⟩ := fun hc =>
    OrderedMap.forall_entries_insert (P := fun e : String × ClassMapping => e.2.Unambiguous) hSet hc
  cases hAdds with
  | own hClass => exact hInsert (unambiguous_overriddenBy (hSet.of_class? hClass))
  | overlaid _ _ _ hTarget => exact hInsert (unambiguous_overriddenBy (hSet.of_class? hTarget))
  | fresh _ _ => exact hInsert hLater

/-- **A union of tables without ambiguous fields has none.** -/
theorem unambiguous_merge (hs : s.Unambiguous) (ht : t.Unambiguous) : (s.merge t).Unambiguous := by
  rw [merge_eq]
  exact List.foldlRecOn (motive := fun st : Merging => st.set.Unambiguous) _ _ hs
    fun _ hSet e he => unambiguous_add hSet (ht e he)

theorem unambiguous_records (m : MappingSet) : m.records.Unambiguous ↔ m.Unambiguous := by
  have hClass : ∀ e : String × ClassMapping,
      (∀ f ∈ (e.2.record e.1).fields.values, ∀ g ∈ (e.2.record e.1).fields.values,
        f.name = g.name → f.descriptor = none → g.descriptor = none) ↔ e.2.Unambiguous := by
    intro e
    simp only [values_fields_record, ClassMapping.Unambiguous, OrderedMap.keys, List.forall_mem_map]
    rfl
  simp only [RecordTable.Unambiguous, records, OrderedMap.mapValues, List.forall_mem_map]
  exact forall₂_congr fun e _ => hClass e

end MappingSet

-- ---------------------------------------------------------------------------
-- Tables that there are
-- ---------------------------------------------------------------------------

namespace RecordTable

/-- The tables that can be made: built step by step, reversed, and merged. -/
inductive Built : RecordTable → Prop
  | empty : Built empty
  | take {t : RecordTable} (step : BuildStep) : Built t → Built (t.take step)
  | reverse {t : RecordTable} : Built t → Built t.reverse
  | merge {s t u : RecordTable} : Built s → Built t → s.merge? t = some u → Built u

/-- Every table is that of a mapping set. -/
theorem Built.exists_records {t : RecordTable} (hBuilt : t.Built) :
    ∃ m : MappingSet, t = m.records := by
  induction hBuilt with
  | empty => exact ⟨∅, rfl⟩
  | take step _ ih =>
    obtain ⟨m, rfl⟩ := ih
    exact ⟨m.take step, (m.records_take step).symm⟩
  | reverse _ ih =>
    obtain ⟨m, rfl⟩ := ih
    exact ⟨m.reverse, m.records_reverse.symm⟩
  | merge _ _ hMerge ihS ihT =>
    obtain ⟨m, rfl⟩ := ihS
    obtain ⟨n, rfl⟩ := ihT
    rw [MappingSet.merge?_records] at hMerge
    exact ⟨m.merge n, (Option.some.inj hMerge).symm⟩

variable {s : RecordTable} {ts : List RecordTable}

/-- Two tables without ambiguous fields have a union, and it is such a table again. -/
theorem exists_merge {t : RecordTable} (hs : s.Built ∧ s.Unambiguous) (ht : t.Built ∧ t.Unambiguous) :
    ∃ u, s.merge? t = some u ∧ (u.Built ∧ u.Unambiguous) ∧ u.plain = s.plain.merge t.plain := by
  obtain ⟨m, rfl⟩ := hs.1.exists_records
  obtain ⟨n, rfl⟩ := ht.1.exists_records
  have hMerge := MappingSet.merge?_records m n
  refine ⟨_, hMerge, ⟨.merge hs.1 ht.1 hMerge, ?_⟩, ?_⟩
  · rw [MappingSet.unambiguous_records] at hs ht ⊢
    exact MappingSet.unambiguous_merge hs.2 ht.2
  · rw [MappingSet.plain_records, MappingSet.plain_records, MappingSet.plain_records]

theorem Built.keyed {t : RecordTable} (hBuilt : t.Built) : t.Keyed := by
  obtain ⟨m, rfl⟩ := hBuilt.exists_records
  exact m.keyed_records

/-- **Tables without ambiguous fields can be merged one after the other.** In the union no class holds a
field both with and without a descriptor, and every record stands under its own key. -/
theorem merge_keeps_tables (hs : s.Built ∧ s.Unambiguous) (hts : ∀ t ∈ ts, t.Built ∧ t.Unambiguous) :
    ∃ u, ts.foldlM merge? s = some u ∧ u.Built ∧ u.Unambiguous ∧ u.Keyed ∧
      u.plain = (ts.map plain).foldl MappingSet.merge s.plain := by
  -- what a union leaves is as good a start for the next one
  induction ts generalizing s with
  | nil => exact ⟨s, rfl, hs.1, hs.2, hs.1.keyed, rfl⟩
  | cons t rest ih =>
    obtain ⟨ht, hRest⟩ := List.forall_mem_cons.1 hts
    obtain ⟨v, hMerge, hv, hPlain⟩ := exists_merge hs ht
    obtain ⟨u, hUnion, hu⟩ := ih hv hRest
    refine ⟨u, ?_, ?_⟩
    · rw [List.foldlM_cons, hMerge]
      exact hUnion
    · rwa [List.map_cons, List.foldl_cons, ← hPlain]

/-- A class with a field that is listed without a descriptor. -/
def looseTable : RecordTable :=
  (empty.take (.ofClass "a" "x/A")).take (.ofField "a" ⟨"f", none⟩ "count")

/-- The field with a descriptor, and one that is documented by the target name of its class. -/
def laterTables : List RecordTable :=
  [empty.take (.ofField "a" ⟨"f", some "I"⟩ "total"),
    empty.take (.fieldText "x/A" ⟨"total", none⟩ "How many.")]

theorem merge_keeps_tables_layered : looseTable.Unambiguous ∧ (∀ t ∈ laterTables, t.Unambiguous) ∧
    ∃ u, laterTables.foldlM merge? looseTable = some u ∧ u.Built ∧ u.Unambiguous ∧ u.Keyed ∧
      u.plain = (laterTables.map plain).foldl MappingSet.merge looseTable.plain := by
  have hLoose : looseTable.Unambiguous := by decide
  have hLater : ∀ t ∈ laterTables, t.Unambiguous := by decide
  have hBuilt : ∀ t ∈ laterTables, t.Built := by
    rw [laterTables, List.forall_mem_cons, List.forall_mem_singleton]
    exact ⟨Built.empty.take _, Built.empty.take _⟩
  exact ⟨hLoose, hLater, merge_keeps_tables ⟨(Built.empty.take _).take _, hLoose⟩
    fun t ht => ⟨hBuilt t ht, hLater t ht⟩⟩

end RecordTable

end Jarsmith
