import Jarsmith.Proofs.ClassFile.Annotations

/-!
# Bodies of attributes

A typed view of an attribute reads the front of the body. If nothing stands behind it, the body is
the written form of what was read, so a view that is changed and written back loses nothing.

* `Attribute.isFilled` — nothing stands behind the view of an attribute.
* `ClassFile.BodiesFilled` — nothing stands behind the view of any attribute.
* `Attribute.annotations_of_isFilled`, `Attribute.code_of_isFilled` and their siblings — the body of
  each kind is a written form.
-/

namespace Jarsmith

open Outcome Reader

namespace Reader

variable {α : Type} {r : Reader α} {info : Bytes}

/-- Whether a value at the front of a body takes all of it. A body without a value is not
objected to. -/
def fills (r : Reader α) (info : Bytes) : Bool := (r info).all (·.2.isEmpty)

theorem fills_iff :
    r.fills info = true ↔ ∀ v rest, r info = some (v, rest) → rest = [] := by
  unfold fills
  rw [Option.all_eq_true]
  constructor
  · exact fun h v rest hRead => List.isEmpty_iff.1 (h _ hRead)
  · exact fun h a hRead => List.isEmpty_iff.2 (h a.1 a.2 hRead)

end Reader

namespace Attribute

/-- Whether nothing stands behind the view of the body of an attribute called `kind`. -/
def fillsBody (kind : String) (info : Bytes) : Bool :=
  match AnnotationShape.ofName? kind with
  | some shape => (AnnotationBody.read shape (info.length + 2)).fills info
  | none =>
    if kind = AttributeName.signature then index.fills info
    else if kind = AttributeName.code then CodeBody.read.fills info
    else if kind = AttributeName.localVariableTable
        ∨ kind = AttributeName.localVariableTypeTable then
      (table LocalVariable.read).fills info
    else if kind = AttributeName.methodParameters then
      (smallTable MethodParameter.read).fills info
    else if kind = AttributeName.innerClasses then (table InnerClass.read).fills info
    else if kind = AttributeName.enclosingMethod then EnclosingMethod.read.fills info
    else if kind = AttributeName.record then (table RecordComponent.read).fills info
    else true

/-- Whether nothing stands behind the view of the body. -/
def isFilled (pool : Pool) (a : Attribute) : Bool :=
  match pool.storedText a.name with
  | .ok kind => fillsBody kind a.info
  | .error _ => true

/-- The attributes that stand in the body of a method or in the components of a record. -/
def nested (pool : Pool) (a : Attribute) : List Attribute :=
  match pool.storedText a.name with
  | .ok kind =>
    if kind = AttributeName.code then
      (front CodeBody.read a.info).elim [] (·.attributes)
    else if kind = AttributeName.record then
      (front (table RecordComponent.read) a.info).elim [] (·.flatMap (·.attributes))
    else []
  | .error _ => []

section Kinds

variable {pool : Pool} {a : Attribute} {kind : String}

theorem fillsBody_of_isFilled (hFilled : a.isFilled pool = true)
    (hKind : pool.storedText a.name = .ok kind) : fillsBody kind a.info = true := by
  unfold isFilled at hFilled
  rwa [hKind] at hFilled

theorem annotations_of_isFilled {shape : AnnotationShape} {body : AnnotationBody}
    (hFilled : a.isFilled pool = true) (hKind : pool.storedText a.name = .ok kind)
    (hShape : AnnotationShape.ofName? kind = some shape)
    (hBody : AnnotationBody.parse shape a.info = .ok body) :
    body.Fits (a.info.length + 2) shape ∧ a.info = body.toBytes := by
  have hFills := fillsBody_of_isFilled hFilled hKind
  rw [fillsBody, hShape] at hFills
  exact (AnnotationBody.reads_read shape _).eq_of_front (fills_iff.1 hFills) hBody

theorem signature_of_isFilled {i : UInt16} (hFilled : a.isFilled pool = true)
    (hKind : pool.storedText a.name = .ok AttributeName.signature)
    (hIndex : singleIndex a.info = .ok i) : a.info = putU16 i := by
  have hFills : index.fills a.info = true := fillsBody_of_isFilled hFilled hKind
  exact (reads_index.eq_of_front (fills_iff.1 hFills) hIndex).2

theorem code_of_isFilled {code : Code} (hFilled : a.isFilled pool = true)
    (hKind : pool.storedText a.name = .ok AttributeName.code)
    (hCode : Code.split a.info = .ok code) :
    ∃ b : CodeBody, b.Fits ∧ a.info = b.written ∧ code = ⟨b.head, b.attributes⟩ := by
  have hFills : CodeBody.read.fills a.info = true := fillsBody_of_isFilled hFilled hKind
  exact Code.split_eq_ok (fills_iff.1 hFills) hCode

theorem localVariables_of_isFilled {rows : List LocalVariable} (hFilled : a.isFilled pool = true)
    (hKind : pool.storedText a.name = .ok kind)
    (hTable : kind = AttributeName.localVariableTable ∨
      kind = AttributeName.localVariableTypeTable)
    (hRows : LocalVariable.table a.info = .ok rows) :
    a.info = tableBytes LocalVariable.toBytes rows := by
  have hFills : (table LocalVariable.read).fills a.info = true := by
    have hFills := fillsBody_of_isFilled hFilled hKind
    obtain rfl | rfl := hTable <;> exact hFills
  exact ((Reader.reads_table LocalVariable.reads_read).eq_of_front (fills_iff.1 hFills) hRows).2

theorem parameters_of_isFilled {rows : List MethodParameter} (hFilled : a.isFilled pool = true)
    (hKind : pool.storedText a.name = .ok AttributeName.methodParameters)
    (hRows : MethodParameter.table a.info = .ok rows) :
    a.info = UInt8.ofNat rows.length :: rows.flatMap MethodParameter.toBytes := by
  have hFills : (smallTable MethodParameter.read).fills a.info = true :=
    fillsBody_of_isFilled hFilled hKind
  exact ((reads_smallTable MethodParameter.reads_read).eq_of_front (fills_iff.1 hFills) hRows).2

theorem innerClasses_of_isFilled {rows : List InnerClass} (hFilled : a.isFilled pool = true)
    (hKind : pool.storedText a.name = .ok AttributeName.innerClasses)
    (hRows : InnerClass.table a.info = .ok rows) :
    a.info = tableBytes InnerClass.toBytes rows := by
  have hFills : (table InnerClass.read).fills a.info = true := fillsBody_of_isFilled hFilled hKind
  exact ((Reader.reads_table InnerClass.reads_read).eq_of_front (fills_iff.1 hFills) hRows).2

theorem enclosingMethod_of_isFilled {e : EnclosingMethod} (hFilled : a.isFilled pool = true)
    (hKind : pool.storedText a.name = .ok AttributeName.enclosingMethod)
    (hBody : EnclosingMethod.parse a.info = .ok e) : a.info = e.toBytes := by
  have hFills : EnclosingMethod.read.fills a.info = true := fillsBody_of_isFilled hFilled hKind
  exact (EnclosingMethod.reads_read.eq_of_front (fills_iff.1 hFills) hBody).2

theorem record_of_isFilled {components : List RecordComponent} (hFilled : a.isFilled pool = true)
    (hKind : pool.storedText a.name = .ok AttributeName.record)
    (hComponents : RecordComponent.table a.info = .ok components) :
    a.info = tableBytes RecordComponent.written components := by
  have hFills : (table RecordComponent.read).fills a.info = true :=
    fillsBody_of_isFilled hFilled hKind
  exact ((Reader.reads_table RecordComponent.reads_read).eq_of_front (fills_iff.1 hFills)
    hComponents).2

-- ---------------------------------------------------------------------------
-- Attributes inside attributes
-- ---------------------------------------------------------------------------

theorem nested_of_code {code : Code} (hKind : pool.storedText a.name = .ok AttributeName.code)
    (hCode : Code.split a.info = .ok code) : a.nested pool = code.attributes := by
  simp only [Code.split, bind_ok_iff] at hCode
  obtain ⟨b, hBody, hCode⟩ := hCode
  split at hCode
  · simp at hCode
  · cases hCode
    rw [nested, hKind, decoded_eq_ok.1 hBody]
    rfl

theorem nested_of_record {components : List RecordComponent}
    (hKind : pool.storedText a.name = .ok AttributeName.record)
    (hComponents : RecordComponent.table a.info = .ok components) :
    a.nested pool = components.flatMap (·.attributes) := by
  rw [nested, hKind, decoded_eq_ok.1 hComponents]
  rfl

end Kinds

/-- Nothing stands behind the views of the attributes in a list and of those inside them. -/
def Filled (pool : Pool) (l : List Attribute) : Prop :=
  ∀ a ∈ l, a.isFilled pool = true ∧ ∀ b ∈ a.nested pool, b.isFilled pool = true

instance (pool : Pool) (l : List Attribute) : Decidable (Filled pool l) :=
  inferInstanceAs (Decidable
    (∀ a ∈ l, a.isFilled pool = true ∧ ∀ b ∈ a.nested pool, b.isFilled pool = true))

end Attribute

namespace ClassFile

variable {c : ClassFile} {m : Member}

/-- Nothing stands behind the view of any attribute of a class, its members, their code and the
components of a record. -/
def BodiesFilled (c : ClassFile) : Prop :=
  Attribute.Filled c.pool
    (c.attributes ++ c.fields.flatMap (·.attributes) ++ c.methods.flatMap (·.attributes))

instance (c : ClassFile) : Decidable c.BodiesFilled :=
  inferInstanceAs (Decidable (Attribute.Filled _ _))

namespace BodiesFilled

theorem attributes (hFilled : c.BodiesFilled) : Attribute.Filled c.pool c.attributes :=
  fun a ha => hFilled a (List.mem_append_left _ (List.mem_append_left _ ha))

theorem field (hFilled : c.BodiesFilled) (hm : m ∈ c.fields) :
    Attribute.Filled c.pool m.attributes := fun a ha =>
  hFilled a (List.mem_append_left _ (List.mem_append_right _ (List.mem_flatMap.2 ⟨m, hm, ha⟩)))

theorem method (hFilled : c.BodiesFilled) (hm : m ∈ c.methods) :
    Attribute.Filled c.pool m.attributes := fun a ha =>
  hFilled a (List.mem_append_right _ (List.mem_flatMap.2 ⟨m, hm, ha⟩))

end BodiesFilled

end ClassFile

end Jarsmith
