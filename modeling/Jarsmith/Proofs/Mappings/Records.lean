import Jarsmith.Mappings.Basic
import Jarsmith.Proofs.OrderedMap

/-!
# Tables of records

A table can be kept as records that say themselves what they are about: a class by its source name, a
field or a method by its name and its descriptor. What an entry is about then stands twice, in its key
and in the record, and every operation on the table has to keep the two in step. A mapping set says it
once, by the key alone.

* `RecordTable.Keyed` — every record stands under the key that is formed from it.
* `MappingSet.records` — a mapping set as a table of records.
* `BuildStep` — what a table takes in while it is built.
* `MappingSet.records_take`, `MappingSet.records_reverse` — a table of records that is built or
  reversed is the one of the mapping set.
-/

namespace Jarsmith

-- ---------------------------------------------------------------------------
-- Changed values of a map
-- ---------------------------------------------------------------------------

namespace OrderedMap

variable {κ α β γ : Type} {m : OrderedMap κ α} {k : κ} {a : α} {f : κ → α → β}

theorem values_mapValues : (m.mapValues f).values = m.entries.map fun e => f e.1 e.2 := by
  rw [values, mapValues, List.map_map]
  rfl

theorem mapValues_mapValues {g : κ → β → γ} :
    (m.mapValues f).mapValues g = m.mapValues fun k a => g k (f k a) := by
  ext1
  exact List.map_map

theorem mapValues_eq_self {g : κ → α → α} (hSame : ∀ e ∈ m.entries, g e.1 e.2 = e.2) :
    m.mapValues g = m := by
  ext1
  refine (List.map_congr_left fun e he => ?_).trans (List.map_id _)
  exact Prod.ext rfl (hSame e he)

theorem mapValues_congr {g : κ → α → β} (hSame : ∀ e ∈ m.entries, f e.1 e.2 = g e.1 e.2) :
    m.mapValues f = m.mapValues g := by
  ext1
  exact List.map_congr_left fun e he => Prod.ext rfl (hSame e he)

variable [DecidableEq κ]

theorem mapValues_erase : (m.erase k).mapValues f = (m.mapValues f).erase k := by
  have hRemove : ∀ l : List (κ × α), (remove k l).map (fun e => (e.1, f e.1 e.2)) =
      remove k (l.map fun e => (e.1, f e.1 e.2)) := by
    intro l
    induction l with
    | nil => rfl
    | cons e rest ih =>
      rw [List.map_cons, remove, remove]
      split
      · rfl
      · rw [List.map_cons, ih]
  ext1
  exact hRemove m.entries

theorem mapValues_update {fresh : α} {change : α → α} {change' : β → β}
    (hChange : ∀ a, f k (change a) = change' (f k a)) :
    (m.update k fresh change).mapValues f = (m.mapValues f).update k (f k fresh) change' := by
  rw [update, mapValues_insert, hChange, update, get?_mapValues]
  cases m.get? k <;> rfl

theorem ofList_map_entries : ofList (m.entries.map fun e => (e.1, f e.1 e.2)) = m.mapValues f := by
  ext1
  refine entries_ofList ?_
  rw [List.map_map]
  exact m.nodup

end OrderedMap

-- ---------------------------------------------------------------------------
-- Records
-- ---------------------------------------------------------------------------

/-- What a table says about a field, and which field it is. -/
structure FieldRecord where
  name : String
  descriptor : Option String
  named : String
  javadoc : Option String
  deriving DecidableEq

/-- What a table says about a method, and which method it is. -/
structure MethodRecord where
  name : String
  descriptor : String
  named : String
  parameters : SlotNames
  javadoc : Option String
  deriving DecidableEq

/-- What a table says about a class and its members, and which class it is. -/
structure ClassRecord where
  name : String
  named : String
  javadoc : Option String
  fields : OrderedMap FieldKey FieldRecord
  methods : OrderedMap MethodKey MethodRecord

/-- A table whose entries say themselves what they are about. -/
structure RecordTable where
  classes : OrderedMap String ClassRecord

/-- The key that is formed from a field. -/
def FieldRecord.key (f : FieldRecord) : FieldKey := ⟨f.name, f.descriptor⟩

/-- The key that is formed from a method. -/
def MethodRecord.key (m : MethodRecord) : MethodKey := ⟨m.name, m.descriptor⟩

/-- The entry of a class stands under the name of the class, and its members under theirs. -/
structure ClassRecord.Keyed (name : String) (c : ClassRecord) : Prop where
  name : c.name = name
  fields : ∀ e ∈ c.fields.entries, e.1 = e.2.key
  methods : ∀ e ∈ c.methods.entries, e.1 = e.2.key

namespace RecordTable

/-- Every record stands under the key that is formed from it. -/
def Keyed (t : RecordTable) : Prop := ∀ e ∈ t.classes.entries, e.2.Keyed e.1

/-- No class holds records of one field name both with and without a descriptor. -/
def Unambiguous (t : RecordTable) : Prop :=
  ∀ e ∈ t.classes.entries, ∀ f ∈ e.2.fields.values, ∀ g ∈ e.2.fields.values,
    f.name = g.name → f.descriptor = none → g.descriptor = none

instance (t : RecordTable) : Decidable t.Unambiguous :=
  inferInstanceAs (Decidable (∀ e ∈ t.classes.entries, ∀ f ∈ e.2.fields.values,
    ∀ g ∈ e.2.fields.values, f.name = g.name → f.descriptor = none → g.descriptor = none))

/-- The table without entries. -/
def empty : RecordTable := ⟨∅⟩

end RecordTable

-- ---------------------------------------------------------------------------
-- Mapping sets as records
-- ---------------------------------------------------------------------------

/-- The record of the field with the key `key`. -/
def FieldMapping.record (key : FieldKey) (f : FieldMapping) : FieldRecord :=
  ⟨key.name, key.descriptor, f.named, f.javadoc⟩

/-- The record of the method with the key `key`. -/
def MethodMapping.record (key : MethodKey) (m : MethodMapping) : MethodRecord :=
  ⟨key.name, key.descriptor, m.named, m.parameters, m.javadoc⟩

/-- The record of the class called `name`. -/
def ClassMapping.record (name : String) (c : ClassMapping) : ClassRecord :=
  ⟨name, c.named, c.javadoc, c.fields.mapValues FieldMapping.record,
    c.methods.mapValues MethodMapping.record⟩

/-- A mapping set as a table of records. -/
def MappingSet.records (m : MappingSet) : RecordTable := ⟨m.classes.mapValues ClassMapping.record⟩

/-- What a record says about its field. -/
def FieldRecord.plain (f : FieldRecord) : FieldMapping := ⟨f.named, f.javadoc⟩

/-- What a record says about its method. -/
def MethodRecord.plain (m : MethodRecord) : MethodMapping := ⟨m.named, m.parameters, m.javadoc⟩

/-- What a record says about its class and the members of it. -/
def ClassRecord.plain (c : ClassRecord) : ClassMapping :=
  ⟨c.named, c.javadoc, c.fields.mapValues fun _ f => f.plain, c.methods.mapValues fun _ m => m.plain⟩

/-- The mapping set that says the same by its keys. -/
def RecordTable.plain (t : RecordTable) : MappingSet := ⟨t.classes.mapValues fun _ c => c.plain⟩

@[simp] theorem FieldMapping.key_record (key : FieldKey) (f : FieldMapping) :
    (f.record key).key = key := rfl

@[simp] theorem MethodMapping.key_record (key : MethodKey) (m : MethodMapping) :
    (m.record key).key = key := rfl

theorem ClassMapping.keyed_record (name : String) (c : ClassMapping) :
    (c.record name).Keyed name where
  name := rfl
  fields e he := by
    obtain ⟨e, -, rfl⟩ := List.mem_map.1 he
    rfl
  methods e he := by
    obtain ⟨e, -, rfl⟩ := List.mem_map.1 he
    rfl

@[simp] theorem ClassMapping.plain_record (name : String) (c : ClassMapping) :
    (c.record name).plain = c := by
  rw [ClassRecord.plain, record, OrderedMap.mapValues_mapValues, OrderedMap.mapValues_mapValues,
    OrderedMap.mapValues_eq_self fun _ _ => rfl, OrderedMap.mapValues_eq_self fun _ _ => rfl]

namespace MappingSet

variable {m : MappingSet} {name : String}

theorem keyed_records (m : MappingSet) : m.records.Keyed := by
  intro e he
  obtain ⟨e, -, rfl⟩ := List.mem_map.1 he
  exact e.2.keyed_record e.1

@[simp] theorem plain_records (m : MappingSet) : m.records.plain = m := by
  rw [RecordTable.plain, records, OrderedMap.mapValues_mapValues,
    OrderedMap.mapValues_eq_self fun e _ => e.2.plain_record e.1]

theorem get?_classes_records : m.records.classes.get? name =
    (m.class? name).map (ClassMapping.record name) := OrderedMap.get?_mapValues

end MappingSet

-- ---------------------------------------------------------------------------
-- Building
-- ---------------------------------------------------------------------------

namespace ClassRecord

/-- A class without members and documentation. -/
def new (name named : String) : ClassRecord := ⟨name, named, none, ∅, ∅⟩

/-- Puts the record of a field under its key. -/
def insertField (c : ClassRecord) (f : FieldRecord) : ClassRecord :=
  { c with fields := c.fields.insert f.key f }

/-- Puts the record of a method under its key. -/
def insertMethod (c : ClassRecord) (m : MethodRecord) : ClassRecord :=
  { c with methods := c.methods.insert m.key m }

/-- Lists a method; what is known about it besides its name stays. -/
def addMethod (c : ClassRecord) (key : MethodKey) (named : String) : ClassRecord :=
  match c.methods.get? key with
  | some m => { c with methods := c.methods.insert key { m with named := named } }
  | none => c.insertMethod ⟨key.name, key.descriptor, named, ∅, none⟩

/-- Changes the record of a method; a method without one gets one that renames nothing. -/
def editMethod (c : ClassRecord) (key : MethodKey) (change : MethodRecord → MethodRecord) :
    ClassRecord :=
  { c with methods := c.methods.update key ⟨key.name, key.descriptor, key.name, ∅, none⟩ change }

/-- Documents a field; a field without a record gets one that renames nothing. -/
def documentField (c : ClassRecord) (key : FieldKey) (text : String) : ClassRecord :=
  match c.fields.get? key with
  | some f => { c with fields := c.fields.insert key { f with javadoc := some text } }
  | none => c.insertField ⟨key.name, key.descriptor, key.name, some text⟩

end ClassRecord

namespace RecordTable

/-- Lists a class; a class that is listed already is renamed. -/
def addClass (t : RecordTable) (name named : String) : RecordTable :=
  ⟨t.classes.update name (.new name named) fun c => { c with named := named }⟩

/-- Changes the record of a class; a class without one gets one that renames nothing. -/
def editClass (t : RecordTable) (name : String) (change : ClassRecord → ClassRecord) : RecordTable :=
  ⟨t.classes.update name (.new name name) change⟩

end RecordTable

/-- What a table takes in while it is built. -/
inductive BuildStep where
  | ofClass (name named : String)
  | ofField (owner : String) (key : FieldKey) (named : String)
  | ofMethod (owner : String) (key : MethodKey) (named : String)
  | ofParameter (owner : String) (key : MethodKey) (slot : UInt16) (parameter : String)
  | classText (owner text : String)
  | fieldText (owner : String) (key : FieldKey) (text : String)
  | methodText (owner : String) (key : MethodKey) (text : String)

/-- A mapping set after a step. -/
def MappingSet.take (m : MappingSet) : BuildStep → MappingSet
  | .ofClass name named => m.addClass name named
  | .ofField owner key named => m.addField owner key.name key.descriptor named
  | .ofMethod owner key named => m.addMethod owner key.name key.descriptor named
  | .ofParameter owner key slot parameter =>
    m.addParameter owner key.name key.descriptor slot parameter
  | .classText owner text => m.documentClass owner text
  | .fieldText owner key text => m.documentField owner key.name key.descriptor text
  | .methodText owner key text => m.documentMethod owner key.name key.descriptor text

/-- A table of records after a step. -/
def RecordTable.take (t : RecordTable) : BuildStep → RecordTable
  | .ofClass name named => t.addClass name named
  | .ofField owner key named =>
    t.editClass owner (·.insertField ⟨key.name, key.descriptor, named, none⟩)
  | .ofMethod owner key named => t.editClass owner (·.addMethod key named)
  | .ofParameter owner key slot parameter => t.editClass owner (·.editMethod key fun m =>
    { m with parameters := m.parameters.insert slot parameter })
  | .classText owner text => t.editClass owner fun c => { c with javadoc := some text }
  | .fieldText owner key text => t.editClass owner (·.documentField key text)
  | .methodText owner key text =>
    t.editClass owner (·.editMethod key fun m => { m with javadoc := some text })

namespace ClassMapping

variable {owner : String}

theorem values_fields_record {c : ClassMapping} :
    (c.record owner).fields.values = c.fields.entries.map fun e => e.2.record e.1 :=
  OrderedMap.values_mapValues

theorem values_methods_record {c : ClassMapping} :
    (c.record owner).methods.values = c.methods.entries.map fun e => e.2.record e.1 :=
  OrderedMap.values_mapValues

theorem record_insertField (c : ClassMapping) (key : FieldKey) (f : FieldMapping) :
    record owner { c with fields := c.fields.insert key f } =
      (c.record owner).insertField (f.record key) := by
  rw [record, OrderedMap.mapValues_insert]
  rfl

theorem record_insertMethod (c : ClassMapping) (key : MethodKey) (m : MethodMapping) :
    record owner { c with methods := c.methods.insert key m } =
      (c.record owner).insertMethod (m.record key) := by
  rw [record, OrderedMap.mapValues_insert]
  rfl

/-- Fields that are taken in one after the other are taken in as records. -/
theorem record_foldl_fields {ε : Type} (owner : String) (c : ClassMapping) (l : List ε)
    {f : OrderedMap FieldKey FieldMapping → ε → OrderedMap FieldKey FieldMapping}
    (g : ClassRecord → ε → ClassRecord)
    (hStep : ∀ fields e, record owner { c with fields := f fields e } =
      g (record owner { c with fields := fields }) e) :
    record owner { c with fields := l.foldl f c.fields } = l.foldl g (c.record owner) :=
  (List.foldl_hom (fun fields => record owner { c with fields := fields })
    fun fields e => (hStep fields e).symm).symm

theorem record_foldl_methods {ε : Type} (owner : String) (c : ClassMapping) (l : List ε)
    {f : OrderedMap MethodKey MethodMapping → ε → OrderedMap MethodKey MethodMapping}
    (g : ClassRecord → ε → ClassRecord)
    (hStep : ∀ methods e, record owner { c with methods := f methods e } =
      g (record owner { c with methods := methods }) e) :
    record owner { c with methods := l.foldl f c.methods } = l.foldl g (c.record owner) :=
  (List.foldl_hom (fun methods => record owner { c with methods := methods })
    fun methods e => (hStep methods e).symm).symm

theorem record_addField (c : ClassMapping) (key : FieldKey) (named : String) :
    (c.addField key named).record owner =
      (c.record owner).insertField ⟨key.name, key.descriptor, named, none⟩ :=
  c.record_insertField key ⟨named, none⟩

theorem record_addMethod (c : ClassMapping) (key : MethodKey) (named : String) :
    (c.addMethod key named).record owner = (c.record owner).addMethod key named := by
  rw [record, addMethod, OrderedMap.update, OrderedMap.mapValues_insert, ClassRecord.addMethod, record]
  dsimp only
  rw [OrderedMap.get?_mapValues]
  cases c.methods.get? key <;> rfl

theorem record_editMethod (c : ClassMapping) (key : MethodKey)
    {change : MethodMapping → MethodMapping} {change' : MethodRecord → MethodRecord}
    (hChange : ∀ m, (change m).record key = change' (m.record key)) :
    (c.editMethod key change).record owner = (c.record owner).editMethod key change' := by
  rw [record, editMethod, OrderedMap.mapValues_update hChange]
  rfl

theorem record_documentField (c : ClassMapping) (key : FieldKey) (text : String) :
    (c.documentField key text).record owner = (c.record owner).documentField key text := by
  rw [record, documentField, OrderedMap.update, OrderedMap.mapValues_insert,
    ClassRecord.documentField, record]
  dsimp only
  rw [OrderedMap.get?_mapValues]
  cases c.fields.get? key <;> rfl

end ClassMapping

namespace MappingSet

variable {m : MappingSet} {name owner : String}

theorem records_addClass (m : MappingSet) (name named : String) :
    (m.addClass name named).records = m.records.addClass name named :=
  congrArg RecordTable.mk (OrderedMap.mapValues_update fun _ => rfl)

theorem records_editClass {change : ClassMapping → ClassMapping} {change' : ClassRecord → ClassRecord}
    (hChange : ∀ c, (change c).record owner = change' (c.record owner)) :
    (m.editClass owner change).records = m.records.editClass owner change' :=
  congrArg RecordTable.mk (OrderedMap.mapValues_update hChange)

/-- **A table of records that is built says the same by its keys and by its records.** -/
theorem records_take (m : MappingSet) (step : BuildStep) :
    (m.take step).records = m.records.take step := by
  cases step with
  | ofClass name named => exact m.records_addClass name named
  | ofField owner key named => exact records_editClass fun c => c.record_addField key named
  | ofMethod owner key named => exact records_editClass fun c => c.record_addMethod key named
  | ofParameter owner key slot parameter =>
    exact records_editClass fun c => c.record_editMethod key fun _ => rfl
  | classText owner text => exact records_editClass fun _ => rfl
  | fieldText owner key text => exact records_editClass fun c => c.record_documentField key text
  | methodText owner key text =>
    exact records_editClass fun c => c.record_editMethod key fun _ => rfl

end MappingSet

-- ---------------------------------------------------------------------------
-- Reversing
-- ---------------------------------------------------------------------------

namespace RecordTable

/-- The field of the table in the other direction. -/
def reverseField (t : RecordTable) (f : FieldRecord) : FieldRecord :=
  ⟨f.named, f.descriptor.map t.plain.mapDescriptor, f.name, f.javadoc⟩

/-- The method of the table in the other direction. -/
def reverseMethod (t : RecordTable) (m : MethodRecord) : MethodRecord :=
  ⟨m.named, t.plain.mapDescriptor m.descriptor, m.name, m.parameters, m.javadoc⟩

/-- The members of `c` in the other direction, over those of `into`. -/
def reverseMembers (t : RecordTable) (c into : ClassRecord) : ClassRecord :=
  let into := { into with javadoc := c.javadoc }
  let into := c.fields.values.foldl (fun into f => into.insertField (t.reverseField f)) into
  c.methods.values.foldl (fun into m => into.insertMethod (t.reverseMethod m)) into

/-- The table in the other direction. Two classes with one target name fall together. -/
def reverse (t : RecordTable) : RecordTable :=
  t.classes.values.foldl (fun acc c =>
    (acc.addClass c.named c.name).editClass c.named (t.reverseMembers c)) empty

end RecordTable

namespace MappingSet

variable {m : MappingSet} {name owner : String}

theorem reverseField_record (key : FieldKey) (f : FieldMapping) :
    m.records.reverseField (f.record key) = FieldMapping.record
      ⟨f.named, key.descriptor.map m.mapDescriptor⟩ ⟨key.name, f.javadoc⟩ := by
  rw [RecordTable.reverseField, plain_records]
  rfl

theorem reverseMethod_record (key : MethodKey) (e : MethodMapping) :
    m.records.reverseMethod (e.record key) = MethodMapping.record
      ⟨e.named, m.mapDescriptor key.descriptor⟩ { e with named := key.name } := by
  rw [RecordTable.reverseMethod, plain_records]
  rfl

theorem record_reverseMembers (c into : ClassMapping) :
    (m.reverseMembers c { into with javadoc := c.javadoc }).record name =
      m.records.reverseMembers (c.record owner) (into.record name) := by
  simp only [RecordTable.reverseMembers, ClassMapping.values_fields_record,
    ClassMapping.values_methods_record, List.foldl_map]
  -- the fields are taken in first, and then the methods
  have hFields := ClassMapping.record_foldl_fields name { into with javadoc := c.javadoc }
    c.fields.entries (fun into e => into.insertField (m.records.reverseField (e.2.record e.1)))
    fun fields e => by
      rw [reverseField_record]
      exact ClassMapping.record_insertField { into with javadoc := c.javadoc, fields := fields } _ _
  have hMethods := ClassMapping.record_foldl_methods name
    { m.reverseMembers c { into with javadoc := c.javadoc } with methods := into.methods }
    c.methods.entries (fun into e => into.insertMethod (m.records.reverseMethod (e.2.record e.1)))
    fun methods e => by
      rw [reverseMethod_record]
      exact ClassMapping.record_insertMethod
        { m.reverseMembers c { into with javadoc := c.javadoc } with methods := methods } _ _
  exact hMethods.trans (congrArg (List.foldl _ · _) hFields)

theorem records_reverse (m : MappingSet) : m.reverse.records = m.records.reverse := by
  have hValues : m.records.classes.values = m.classes.entries.map fun e => e.2.record e.1 :=
    OrderedMap.values_mapValues
  rw [RecordTable.reverse, hValues, List.foldl_map]
  refine (List.foldl_hom records fun acc e => ?_).symm
  rw [records_editClass fun into => record_reverseMembers e.2 into, records_addClass]
  rfl

end MappingSet

end Jarsmith
