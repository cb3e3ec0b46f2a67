import Jarsmith.Proofs.Mappings.Lines
import Jarsmith.Proofs.OrderedMap

/-!
# Rows

A table of names as a list of rows: each class is followed by its fields and its methods. This is
what the line formats write, each in its own way, and a reader of lines that takes every row in ends
with the table.

* `MappingSet.rows` — the rows of a table; `MappingSet.foldl_rows` leads back to the table.
* `MappingSet.loosely` — the table that keeps no descriptors of fields.
* `Written` — lines that write rows, among lines that write nothing.
* `TakesRows` — what a line of a row does to a reader; `TakesRows.run` is the law for all lines.
-/

namespace Jarsmith

/-- A member of a class with its target name. -/
inductive MemberRow where
  | field (key : FieldKey) (named : String)
  | method (key : MethodKey) (named : String)

/-- A class, or a member of the class `owner`, with its target name. -/
inductive Row where
  | ofClass (name named : String)
  | ofMember (owner : String) (member : MemberRow)

/-- Lists the member in a class. -/
def MemberRow.addTo (c : ClassMapping) : MemberRow → ClassMapping
  | field key named => c.addField key named
  | method key named => c.addMethod key named

/-- Lists the row in a table. -/
def Row.addTo (m : MappingSet) : Row → MappingSet
  | ofClass name named => m.addClass name named
  | ofMember owner member => m.editClass owner member.addTo

def fieldRows (l : List (FieldKey × FieldMapping)) : List MemberRow :=
  l.map fun e => .field e.1 e.2.named

def methodRows (l : List (MethodKey × MethodMapping)) : List MemberRow :=
  l.map fun e => .method e.1 e.2.named

/-- The members of a class. -/
def ClassMapping.memberRows (c : ClassMapping) : List MemberRow :=
  fieldRows c.fields.entries ++ methodRows c.methods.entries

/-- A class and its members. -/
def ClassMapping.rows (name : String) (c : ClassMapping) : List Row :=
  .ofClass name c.named :: c.memberRows.map (.ofMember name)

/-- The rows of a table, in its order. -/
def MappingSet.rows (m : MappingSet) : List Row := m.classes.entries.flatMap fun e => e.2.rows e.1

namespace MappingSet

variable {m : MappingSet} {e : String × ClassMapping}

theorem mem_rows_ofClass (hClass : e ∈ m.classes.entries) : .ofClass e.1 e.2.named ∈ m.rows :=
  List.mem_flatMap.2 ⟨e, hClass, List.mem_cons_self⟩

theorem mem_rows_ofMember (hClass : e ∈ m.classes.entries) {member : MemberRow}
    (hMember : member ∈ e.2.memberRows) : .ofMember e.1 member ∈ m.rows :=
  List.mem_flatMap.2 ⟨e, hClass, List.mem_cons_of_mem _ (List.mem_map_of_mem hMember)⟩

theorem mem_rows_field (hClass : e ∈ m.classes.entries) {f : FieldKey × FieldMapping}
    (hField : f ∈ e.2.fields.entries) : .ofMember e.1 (.field f.1 f.2.named) ∈ m.rows :=
  mem_rows_ofMember hClass
    (List.mem_append_left _
      (List.mem_map_of_mem (f := fun f => MemberRow.field f.1 f.2.named) hField))

theorem mem_rows_method (hClass : e ∈ m.classes.entries) {f : MethodKey × MethodMapping}
    (hMethod : f ∈ e.2.methods.entries) : .ofMember e.1 (.method f.1 f.2.named) ∈ m.rows :=
  mem_rows_ofMember hClass
    (List.mem_append_right _
      (List.mem_map_of_mem (f := fun f => MemberRow.method f.1 f.2.named) hMethod))

end MappingSet

-- ---------------------------------------------------------------------------
-- Fields without descriptors
-- ---------------------------------------------------------------------------

/-- The field without its descriptor. -/
def FieldKey.loosely (key : FieldKey) : FieldKey := { key with descriptor := none }

/-- The row without the descriptor of its field. -/
def MemberRow.loosely : MemberRow → MemberRow
  | field key named => field key.loosely named
  | method key named => method key named

/-- The row without the descriptor of its field. -/
def Row.loosely : Row → Row
  | ofClass name named => ofClass name named
  | ofMember owner member => ofMember owner member.loosely

theorem Row.loosely_loosely (r : Row) : r.loosely.loosely = r.loosely := by
  rcases r with _ | ⟨_, _ | _⟩ <;> rfl

/-- The class without the descriptors of its fields. Of several fields with one name the last one
gives the target name. -/
def ClassMapping.loosely (c : ClassMapping) : ClassMapping :=
  { c with fields := .ofList (c.fields.entries.map fun e => (e.1.loosely, e.2)) }

/-- The table without the descriptors of its fields. -/
def MappingSet.loosely (m : MappingSet) : MappingSet :=
  ⟨m.classes.mapValues fun _ c => c.loosely⟩

-- ---------------------------------------------------------------------------
-- A table from its rows
-- ---------------------------------------------------------------------------

/-- Nothing is known of the class and its members besides their names. -/
structure ClassMapping.NamesOnly (c : ClassMapping) : Prop where
  javadoc : c.javadoc = none
  fields : ∀ e ∈ c.fields.entries, e.2 = ⟨e.2.named, none⟩
  methods : ∀ e ∈ c.methods.entries, e.2 = ⟨e.2.named, ∅, none⟩

instance (c : ClassMapping) : Decidable c.NamesOnly :=
  decidable_of_iff (c.javadoc = none ∧ (∀ e ∈ c.fields.entries, e.2 = ⟨e.2.named, none⟩) ∧
      ∀ e ∈ c.methods.entries, e.2 = ⟨e.2.named, ∅, none⟩)
    ⟨fun ⟨hDoc, hFields, hMethods⟩ => ⟨hDoc, hFields, hMethods⟩,
      fun ⟨hDoc, hFields, hMethods⟩ => ⟨hDoc, hFields, hMethods⟩⟩

/-- The table gives names, and neither documentation nor parameters. -/
def MappingSet.NamesOnly (m : MappingSet) : Prop := ∀ e ∈ m.classes.entries, e.2.NamesOnly

instance (m : MappingSet) : Decidable m.NamesOnly := inferInstanceAs (Decidable (∀ _ ∈ _, _))

namespace ClassMapping

variable {c x : ClassMapping}

theorem foldl_fieldRows {l : List (FieldKey × FieldMapping)}
    (hNames : ∀ e ∈ l, e.2 = ⟨e.2.named, none⟩) :
    (fieldRows l).foldl MemberRow.addTo x =
      { x with fields := l.foldl (fun m (k, a) => m.insert k a) x.fields } := by
  induction l generalizing x with
  | nil => rfl
  | cons e more ih =>
    obtain ⟨hEntry, hMore⟩ := List.forall_mem_cons.1 hNames
    have hAdd : (MemberRow.field e.1 e.2.named).addTo x =
        { x with fields := x.fields.insert e.1 e.2 } := by
      rw [hEntry]
      rfl
    rw [fieldRows, List.map_cons, List.foldl_cons, hAdd]
    exact ih hMore

theorem foldl_methodRows {l : List (MethodKey × MethodMapping)}
    (hNames : ∀ e ∈ l, e.2 = ⟨e.2.named, ∅, none⟩)
    (hNodup : ((x.methods.entries ++ l).map Prod.fst).Nodup) :
    (methodRows l).foldl MemberRow.addTo x =
      { x with methods := l.foldl (fun m (k, a) => m.insert k a) x.methods } := by
  induction l generalizing x with
  | nil => rfl
  | cons e more ih =>
    obtain ⟨hEntry, hMore⟩ := List.forall_mem_cons.1 hNames
    have hNew : e.1 ∉ x.methods.keys := by
      rw [List.map_append] at hNodup
      exact fun hMem => (List.nodup_append.1 hNodup).2.2 _ hMem _ List.mem_cons_self rfl
    have hAdd : (MemberRow.method e.1 e.2.named).addTo x =
        { x with methods := x.methods.insert e.1 e.2 } := by
      rw [hEntry, MemberRow.addTo, addMethod, OrderedMap.update_of_not_mem hNew]
    have hSplit : x.methods.entries ++ e :: more = x.methods.entries ++ [e] ++ more := by
      rw [List.append_assoc, List.singleton_append]
    rw [methodRows, List.map_cons, List.foldl_cons, hAdd]
    refine ih hMore ?_
    rw [OrderedMap.entries_insert_of_not_mem hNew, ← hSplit]
    exact hNodup

/-- A class is its name, its fields and its methods. -/
theorem foldl_addTo {l : List (FieldKey × FieldMapping)}
    (hFields : ∀ e ∈ l, e.2 = ⟨e.2.named, none⟩)
    (hMethods : ∀ e ∈ c.methods.entries, e.2 = ⟨e.2.named, ∅, none⟩) :
    (fieldRows l ++ methodRows c.methods.entries).foldl MemberRow.addTo (.new c.named) =
      ⟨c.named, none, .ofList l, c.methods⟩ := by
  have hNodup : ((∅ : OrderedMap MethodKey MethodMapping).entries ++ c.methods.entries).map
      Prod.fst |>.Nodup := c.methods.nodup
  have hSame := OrderedMap.ext (OrderedMap.entries_ofList c.methods.nodup)
  rw [List.foldl_append, foldl_fieldRows hFields, foldl_methodRows hMethods hNodup]
  exact congrArg (mk c.named none (.ofList l)) hSame

theorem foldl_memberRows (hNames : c.NamesOnly) :
    c.memberRows.foldl MemberRow.addTo (.new c.named) = c := by
  have hFields := OrderedMap.ext (OrderedMap.entries_ofList c.fields.nodup)
  rw [memberRows, foldl_addTo hNames.fields hNames.methods, hFields, ← hNames.javadoc]

theorem foldl_loosely (hNames : c.NamesOnly) :
    (c.memberRows.map MemberRow.loosely).foldl MemberRow.addTo (.new c.named) = c.loosely := by
  have hRows : c.memberRows.map MemberRow.loosely =
      fieldRows (c.fields.entries.map fun e => (e.1.loosely, e.2)) ++
        methodRows c.methods.entries := by
    unfold memberRows fieldRows methodRows
    rw [List.map_append, List.map_map, List.map_map, List.map_map]
    rfl
  rw [hRows, foldl_addTo _ hNames.methods, loosely, ← hNames.javadoc]
  intro e hMem
  obtain ⟨f, hField, rfl⟩ := List.mem_map.1 hMem
  exact hNames.fields f hField

end ClassMapping

namespace MappingSet

variable {m : MappingSet}

/-- Members of one class change the entry of that class. -/
theorem foldl_ofMember {classes : OrderedMap String ClassMapping} {name : String}
    {c : ClassMapping} (members : List MemberRow) :
    (members.map (Row.ofMember name)).foldl Row.addTo ⟨classes.insert name c⟩ =
      ⟨classes.insert name (members.foldl MemberRow.addTo c)⟩ := by
  rw [List.foldl_map]
  refine List.foldl_hom (fun c => (⟨classes.insert name c⟩ : MappingSet)) fun c member => ?_
  rw [Row.addTo, editClass, OrderedMap.update_insert]

/-- The rows of a class that is new go behind the other classes. -/
theorem foldl_classRows {classes : OrderedMap String ClassMapping} {name named : String}
    (members : List MemberRow) (hNew : name ∉ classes.keys) :
    (Row.ofClass name named :: members.map (.ofMember name)).foldl Row.addTo ⟨classes⟩ =
      ⟨classes.insert name (members.foldl MemberRow.addTo (.new named))⟩ := by
  have hAdd : (Row.ofClass name named).addTo ⟨classes⟩ =
      ⟨classes.insert name (ClassMapping.new named)⟩ := by
    rw [Row.addTo, addClass, OrderedMap.update_of_not_mem hNew]
    rfl
  rw [List.foldl_cons, hAdd, foldl_ofMember]

/-- The rows of all classes, with changed members, are a table of changed classes. -/
theorem foldl_flatMap_rows (change : MemberRow → MemberRow) (g : ClassMapping → ClassMapping)
    (hClasses : ∀ e ∈ m.classes.entries,
      (e.2.memberRows.map change).foldl MemberRow.addTo (.new e.2.named) = g e.2) :
    (m.classes.entries.flatMap fun e => Row.ofClass e.1 e.2.named ::
        (e.2.memberRows.map change).map (.ofMember e.1)).foldl Row.addTo ∅ =
      ⟨m.classes.mapValues fun _ c => g c⟩ := by
  rw [List.foldl_flatMap]
  refine OrderedMap.foldl_entries (g := fun _ c => g c) mk fun classes e hMem hNew => ?_
  rw [foldl_classRows _ hNew, hClasses e hMem]

/-- **A table is made of its rows.** -/
theorem foldl_rows (hNames : m.NamesOnly) : m.rows.foldl Row.addTo ∅ = m := by
  have hRows : m.rows = m.classes.entries.flatMap fun e => Row.ofClass e.1 e.2.named ::
      (e.2.memberRows.map id).map (.ofMember e.1) := by
    simp only [List.map_id]
    rfl
  rw [hRows, foldl_flatMap_rows id id]
  · exact congrArg mk (OrderedMap.ext (List.map_id _))
  · intro e hMem
    rw [List.map_id]
    exact ClassMapping.foldl_memberRows (hNames e hMem)

/-- Without the descriptors of the fields, the rows make the table that keeps none. -/
theorem foldl_rows_loosely (hNames : m.NamesOnly) :
    (m.rows.map Row.loosely).foldl Row.addTo ∅ = m.loosely := by
  have hRows : m.rows.map Row.loosely = m.classes.entries.flatMap fun e =>
      Row.ofClass e.1 e.2.named :: (e.2.memberRows.map MemberRow.loosely).map (.ofMember e.1) := by
    rw [rows, List.map_flatMap]
    congr 1
    funext e
    rw [ClassMapping.rows, List.map_cons, List.map_map, List.map_map]
    rfl
  rw [hRows, foldl_flatMap_rows MemberRow.loosely ClassMapping.loosely]
  · rfl
  · exact fun e hMem => ClassMapping.foldl_loosely (hNames e hMem)

end MappingSet

-- ---------------------------------------------------------------------------
-- Rows under their class
-- ---------------------------------------------------------------------------

/-- Every member stands under the row of its class; `owner` is the class that came last. -/
def Row.Nested : Option String → List Row → Prop
  | _, [] => True
  | _, .ofClass name _ :: more => Nested (some name) more
  | owner, .ofMember name _ :: more => owner = some name ∧ Nested owner more

theorem Row.nested_ofMember {name : String} {members : List MemberRow} {more : List Row}
    (hMore : Nested (some name) more) :
    Nested (some name) (members.map (Row.ofMember name) ++ more) := by
  induction members with
  | nil => exact hMore
  | cons member rest ih => exact ⟨rfl, ih⟩

theorem MappingSet.nested_rows (m : MappingSet) : Row.Nested none m.rows := by
  have hNested : ∀ (l : List (String × ClassMapping)) (owner : Option String),
      Row.Nested owner (l.flatMap fun e => e.2.rows e.1) := by
    intro l
    induction l with
    | nil => exact fun _ => trivial
    | cons e more ih => exact fun _ => Row.nested_ofMember (ih (some e.1))
  exact hNested m.classes.entries none

theorem Row.nested_loosely {rows : List Row} {owner : Option String} (hRows : Nested owner rows) :
    Nested owner (rows.map Row.loosely) := by
  induction rows generalizing owner with
  | nil => trivial
  | cons r more ih =>
    cases r with
    | ofClass name named => exact ih hRows
    | ofMember name member => exact ⟨hRows.1, ih hRows.2⟩

-- ---------------------------------------------------------------------------
-- Reading rows
-- ---------------------------------------------------------------------------

/-- Lines that write rows one after the other, among lines that write nothing. -/
inductive Written (writes : Row → String → Prop) (silent : String → Prop) :
    List Row → List String → Prop where
  | nil : Written writes silent [] []
  | silent {line : String} {rows : List Row} {lines : List String} :
      silent line → Written writes silent rows lines → Written writes silent rows (line :: lines)
  | row {line : String} {r : Row} {rows : List Row} {lines : List String} :
      writes r line → Written writes silent rows lines →
        Written writes silent (r :: rows) (line :: lines)

theorem Written.of_map {writes : Row → String → Prop} {silent : String → Prop}
    {write : Row → String} {rows : List Row} (hWrites : ∀ r ∈ rows, writes r (write r)) :
    Written writes silent rows (rows.map write) := by
  induction rows with
  | nil => exact .nil
  | cons r more ih =>
    obtain ⟨hRow, hMore⟩ := List.forall_mem_cons.1 hWrites
    exact .row hRow (ih hMore)

namespace Written

variable {writes : Row → String → Prop} {silent : String → Prop} {rows : List Row}
  {lines : List String}

/-- What holds of the rows holds of the rows that are written. -/
theorem of_forall {P : Row → Prop} (hRows : ∀ r ∈ rows, P r)
    (hLines : Written writes silent rows lines) :
    Written (fun r line => P r ∧ writes r line) silent rows lines := by
  induction hLines with
  | nil => exact .nil
  | silent hSilent _ ih => exact .silent hSilent (ih hRows)
  | row hRow _ ih =>
    obtain ⟨hFirst, hMore⟩ := List.forall_mem_cons.1 hRows
    exact .row ⟨hFirst, hRow⟩ (ih hMore)

theorem forall_lines {Q : String → Prop} (hWrites : ∀ r line, writes r line → Q line)
    (hSilent : ∀ line, silent line → Q line) (hLines : Written writes silent rows lines) :
    ∀ line ∈ lines, Q line := by
  induction hLines with
  | nil => exact nofun
  | silent hLine _ ih => exact List.forall_mem_cons.2 ⟨hSilent _ hLine, ih⟩
  | row hRow _ ih => exact List.forall_mem_cons.2 ⟨hWrites _ _ hRow, ih⟩

theorem exists_lines (hRows : ∀ r ∈ rows, ∃ line, writes r line) :
    ∃ lines, Written writes silent rows lines := by
  induction rows with
  | nil => exact ⟨[], .nil⟩
  | cons r more ih =>
    obtain ⟨⟨line, hLine⟩, hMore⟩ := List.forall_mem_cons.1 hRows
    obtain ⟨lines, hLines⟩ := ih hMore
    exact ⟨line :: lines, .row hLine hLines⟩

end Written

section Reading

variable {σ α : Type} {step : σ → String → Except LineFault σ} {view : σ → α} {add : α → Row → α}
  {stands : σ → Option String → Prop} {writes : Row → String → Prop} {silent : String → Prop}

/-- A reader takes in the rows that lines write. What it has read is seen through `view`, and
`stands` is what holds of it below the last class. -/
structure TakesRows (step : σ → String → Except LineFault σ) (view : σ → α) (add : α → Row → α)
    (stands : σ → Option String → Prop) (writes : Row → String → Prop) (silent : String → Prop) :
    Prop where
  ofClass {p : σ} {owner : Option String} {name named line : String} :
    writes (.ofClass name named) line → stands p owner →
      ∃ q, step p line = .ok q ∧ view q = add (view p) (.ofClass name named) ∧ stands q (some name)
  ofMember {p : σ} {name line : String} {member : MemberRow} :
    writes (.ofMember name member) line → stands p (some name) →
      ∃ q, step p line = .ok q ∧ view q = add (view p) (.ofMember name member) ∧
        stands q (some name)
  silent {p : σ} {line : String} : silent line → step p line = .ok p

/-- **A reader that takes rows in** ends with all of them. -/
theorem TakesRows.run (hTakes : TakesRows step view add stands writes silent) {rows : List Row}
    {lines : List String} (hLines : Written writes silent rows lines) {p : σ}
    {owner : Option String} (hNested : Row.Nested owner rows) (hStands : stands p owner) :
    ∃ q, lines.foldlM step p = .ok q ∧ view q = rows.foldl add (view p) := by
  -- along the lines; the reader stands below the class of the row that came last
  induction hLines generalizing p owner with
  | nil => exact ⟨p, rfl, rfl⟩
  | silent hSilent _ ih =>
    rw [List.foldlM_cons, hTakes.silent hSilent]
    exact ih hNested hStands
  | @row line r rows lines hRow _ ih =>
    rw [List.foldlM_cons]
    cases r with
    | ofClass name named =>
      obtain ⟨q, hStep, hView, hq⟩ := hTakes.ofClass hRow hStands
      rw [hStep, List.foldl_cons, ← hView]
      exact ih hNested hq
    | ofMember name member =>
      obtain ⟨rfl, hNested⟩ := hNested
      obtain ⟨q, hStep, hView, hq⟩ := hTakes.ofMember hRow hStands
      rw [hStep, List.foldl_cons, ← hView]
      exact ih hNested hq

end Reading

end Jarsmith
