import Jarsmith.Mappings.Tiny
import Jarsmith.Proofs.Mappings.Tabular

/-!
# Writing tiny files

A table as a file of two namespaces, the source names in the first one and the target names in the
second one, written in either version.

* `TinyFile.toMappingSet_ofTable` — the projection of the file is the table.
* `TinyFile.foldl_addRow` — the file from the rows of the table.
* `TinyFile.parse_renderV1`, `TinyFile.parse_renderV2` — reading the two versions.
-/

namespace Jarsmith.TinyFile

open Mappings Tiny

variable {m : MappingSet} {c : ClassMapping} {file : TinyFile} {p : Progress}
  {a b name named owner : String} {r : Row} {rows : List Row} {member : MemberRow}

-- ---------------------------------------------------------------------------
-- The file of a table
-- ---------------------------------------------------------------------------

/-- The entry that gives a member its two names. -/
def entryOf (descriptor name named : String) : Tiny.Member := ⟨descriptor, [name, named], none, []⟩

/-- The descriptor that is written for a field. -/
def writtenDescriptor (key : FieldKey) : String := key.descriptor.getD ""

/-- Lists a member in a class of a file. -/
def pushRow (c : ClassEntry) : MemberRow → ClassEntry
  | .field key named => c.push .field (entryOf (writtenDescriptor key) key.name named)
  | .method key named => c.push .method (entryOf key.descriptor key.name named)

/-- Lists a row in a file. -/
def addRow (file : TinyFile) : Row → TinyFile
  | .ofClass name named => file.editClass name fun c => { c with names := [name, named] }
  | .ofMember owner member => file.editClass owner (pushRow · member)

/-- The entry of a class in a file. -/
def classOf (name : String) (c : ClassMapping) : ClassEntry :=
  ⟨[name, c.named], none,
    c.fields.entries.map fun e => entryOf (writtenDescriptor e.1) e.1.name e.2.named,
    c.methods.entries.map fun e => entryOf e.1.descriptor e.1.name e.2.named⟩

/-- The file of a table. -/
def ofTable (a b : String) (m : MappingSet) : TinyFile := ⟨[a, b], m.classes.mapValues classOf⟩

theorem width_addRow : (file.addRow r).width = file.width := by
  cases r <;> rfl

/-- Members of one kind, pushed one after the other, stand behind those of their kind. -/
theorem foldl_push (kind : MemberKind) (l : List Tiny.Member) (x : ClassEntry) :
    l.foldl (·.push kind) x =
      match kind with
      | .field => { x with fields := x.fields ++ l }
      | .method => { x with methods := x.methods ++ l } := by
  induction l generalizing x with
  | nil => cases kind <;> simp
  | cons e more ih =>
    rw [List.foldl_cons, ih]
    cases kind <;> simp [ClassEntry.push]

theorem foldl_memberRows (c : ClassMapping) :
    c.memberRows.foldl pushRow ⟨[name, c.named], none, [], []⟩ = classOf name c := by
  have hFields := foldl_push .field (classOf name c).fields ⟨[name, c.named], none, [], []⟩
  have hMethods := foldl_push .method (classOf name c).methods
    ⟨[name, c.named], none, (classOf name c).fields, []⟩
  rw [classOf, List.foldl_map] at hFields hMethods
  rw [ClassMapping.memberRows, fieldRows, methodRows, List.foldl_append, List.foldl_map,
    List.foldl_map]
  exact (congrArg (List.foldl _ · c.methods.entries) hFields).trans hMethods

/-- **The file of a table is made of its rows.** -/
theorem foldl_addRow : m.rows.foldl addRow ⟨[a, b], ∅⟩ = ofTable a b m := by
  rw [MappingSet.rows, List.foldl_flatMap]
  refine OrderedMap.foldl_entries (mk [a, b]) fun classes e _ hNew => ?_
  have hClass : addRow ⟨[a, b], classes⟩ (.ofClass e.1 e.2.named) =
      ⟨[a, b], classes.insert e.1 ⟨[e.1, e.2.named], none, [], []⟩⟩ := by
    rw [addRow, editClass, OrderedMap.update_of_not_mem hNew]
  have hMember (entry : ClassEntry) (member : MemberRow) :
      addRow ⟨[a, b], classes.insert e.1 entry⟩ (.ofMember e.1 member) =
        ⟨[a, b], classes.insert e.1 (pushRow entry member)⟩ := by
    rw [addRow, editClass, OrderedMap.update_insert]
  rw [ClassMapping.rows, List.foldl_cons, hClass, List.foldl_map, ← foldl_memberRows]
  -- below the class every row changes the entry that was inserted last
  exact List.foldl_hom (fun entry => mk [a, b] (classes.insert e.1 entry)) hMember

-- ---------------------------------------------------------------------------
-- Projection
-- ---------------------------------------------------------------------------

theorem nameIn_zero (name : String) (more : List String) : nameIn (name :: more) 0 = name := by
  by_cases hEmpty : name = "" <;> simp [nameIn, Option.filter_some, hEmpty]

theorem nameIn_one (hNamed : named ≠ "") : nameIn [name, named] 1 = named := by
  simp [nameIn, Option.filter_some, hNamed]

/-- A class and its members have target names, and its fields have descriptors. -/
structure HasTargets (c : ClassMapping) : Prop where
  named : c.named ≠ ""
  fields : ∀ e ∈ c.fields.entries, e.2.named ≠ "" ∧ e.1.descriptor ≠ none
  methods : ∀ e ∈ c.methods.entries, e.2.named ≠ ""

theorem projectClass_classOf (hGiven : HasTargets c) (hNames : c.NamesOnly)
    {classes : OrderedMap String ClassMapping} (hNew : name ∉ classes.keys) :
    file.projectClass 0 1 ⟨classes⟩ (classOf name c) = ⟨classes.insert name c⟩ := by
  have hFields : ∀ x, (classOf name c).fields.foldl (file.projectField 0 1) x =
      (fieldRows c.fields.entries).foldl MemberRow.addTo x := by
    intro x
    rw [classOf, fieldRows, List.foldl_map, List.foldl_map]
    refine List.foldl_ext _ _ _ fun y e hMem => ?_
    obtain ⟨hNamed, hSome⟩ := hGiven.fields e hMem
    -- a field without a descriptor would come back with an empty one
    obtain ⟨⟨field, _ | d⟩, f⟩ := e
    · exact absurd rfl hSome
    · simp only [projectField, entryOf, nameIn_zero, nameIn_one hNamed]
      rfl
  have hMethods : ∀ x, (classOf name c).methods.foldl (file.projectMethod 0 1) x =
      (methodRows c.methods.entries).foldl MemberRow.addTo x := by
    intro x
    rw [classOf, methodRows, List.foldl_map, List.foldl_map]
    refine List.foldl_ext _ _ _ fun y e hMem => ?_
    simp only [projectMethod, entryOf, nameIn_zero, nameIn_one (hGiven.methods e hMem)]
    rfl
  have hMembers : (classOf name c).methods.foldl (file.projectMethod 0 1)
      ((classOf name c).fields.foldl (file.projectField 0 1) (.new c.named)) = c := by
    rw [hFields, hMethods, ← List.foldl_append]
    exact ClassMapping.foldl_memberRows hNames
  have hOwner : nameIn (classOf name c).names 0 = name := nameIn_zero _ _
  have hTarget : nameIn (classOf name c).names 1 = c.named := nameIn_one hGiven.named
  rw [projectClass, hOwner, hTarget, MappingSet.addClass, OrderedMap.update_of_not_mem hNew,
    MappingSet.editClass, OrderedMap.update_insert]
  exact congrArg (fun x => MappingSet.mk (classes.insert name x)) hMembers

/-- **The projection of the file of a table is the table.** -/
theorem toMappingSet_ofTable (hOther : a ≠ b) (hGiven : ∀ e ∈ m.classes.entries, HasTargets e.2)
    (hNames : m.NamesOnly) : (ofTable a b m).toMappingSet a b = .ok m := by
  have hSource : (ofTable a b m).indexOf a = .ok 0 := by simp [indexOf, ofTable, List.findIdx?_cons]
  have hTarget : (ofTable a b m).indexOf b = .ok 1 := by
    simp [indexOf, ofTable, List.findIdx?_cons, hOther]
  have hFold : (ofTable a b m).classes.values.foldl ((ofTable a b m).projectClass 0 1) ∅ = m := by
    have hValues : (ofTable a b m).classes.values =
        m.classes.entries.map fun e => classOf e.1 e.2 := List.map_map
    rw [hValues, List.foldl_map]
    refine (OrderedMap.foldl_entries (g := fun _ c => c) MappingSet.mk
      fun classes e hMem hNew => ?_).trans ?_
    · exact projectClass_classOf (hGiven e hMem) (hNames e hMem) hNew
    · exact congrArg MappingSet.mk (OrderedMap.ext (List.map_id _))
  rw [toMappingSet, hSource, hTarget]
  exact congrArg Except.ok hFold

-- ---------------------------------------------------------------------------
-- Version 1
-- ---------------------------------------------------------------------------

/-- The columns that write a row in version 1. -/
def columnsV1 : Row → List String
  | .ofClass name named => ["CLASS", name, named]
  | .ofMember owner (.field key named) => ["FIELD", owner, writtenDescriptor key, key.name, named]
  | .ofMember owner (.method key named) => ["METHOD", owner, key.descriptor, key.name, named]

/-- The text of version 1 that writes rows. -/
def renderV1 (a b : String) (rows : List Row) : String :=
  Text.unlines (Text.columns '\t' ["v1", a, b] ::
    rows.map fun r => Text.columns '\t' (columnsV1 r))

theorem columnsV1_ne_nil : columnsV1 r ≠ [] := by
  rcases r with _ | ⟨_, _ | _⟩ <;> exact List.cons_ne_nil _ _

theorem isColumn_writtenDescriptor {key : FieldKey} (hSome : key.descriptor ≠ none)
    (hColumn : ∀ d ∈ key.descriptor, IsColumn d) : IsColumn (writtenDescriptor key) := by
  obtain ⟨name, _ | d⟩ := key
  · exact absurd rfl hSome
  · exact hColumn d rfl

theorem isColumn_of_mem_columnsV1 (hRow : r.IsTabular) (hDescribed : r.IsDescribed) :
    ∀ col ∈ columnsV1 r, IsColumn col := by
  have hKeyword : IsColumn "CLASS" ∧ IsColumn "FIELD" ∧ IsColumn "METHOD" := by decide
  cases r with
  | ofClass name named =>
    obtain ⟨⟨hName, hNamed⟩, -⟩ := hRow
    simp [columnsV1, hKeyword, hName, hNamed]
  | ofMember owner member =>
    cases member with
    | field key named =>
      obtain ⟨hOwner, ⟨⟨hName, -⟩, hNamed, -⟩, hDescriptor⟩ := hRow
      have hd := isColumn_writtenDescriptor hDescribed fun d hMem => (hDescriptor d hMem).1
      simp [columnsV1, hKeyword, hOwner, hd, hName, hNamed]
    | method key named =>
      obtain ⟨hOwner, ⟨⟨hName, -⟩, hNamed, -⟩, hd, -⟩ := hRow
      simp [columnsV1, hKeyword, hOwner, hd, hName, hNamed]

theorem stepV1_columns (hRow : r.IsTabular) (hDescribed : r.IsDescribed)
    (hWidth : file.width = 2) :
    stepV1 file (Text.columns '\t' (columnsV1 r)) = .ok (file.addRow r) := by
  have hCols := isColumn_of_mem_columnsV1 hRow hDescribed
  obtain ⟨hLine, hHash⟩ := isLine_columns '\t' (by decide) columnsV1_ne_nil hCols
  have hComment : Text.startsWith (Text.columns '\t' (columnsV1 r)) "#" = false :=
    Text.startsWith_eq_false (by decide) hHash
  have hSplit : Text.split '\t' (Text.columns '\t' (columnsV1 r)) = columnsV1 r :=
    Text.split_columns columnsV1_ne_nil fun col hCol => (hCols col hCol).not_mem (by decide)
  rw [stepV1, hLine.2.isBlankText, hComment, hSplit]
  cases r with
  | ofClass name named => exact if_pos hWidth.symm
  | ofMember owner member => cases member <;> exact if_pos hWidth.symm

theorem takesRowsV1 :
    TakesRows stepV1 id addRow (fun file _ => file.width = 2)
      (fun r line => (r.IsTabular ∧ r.IsDescribed) ∧ line = Text.columns '\t' (columnsV1 r))
      (fun _ => False) where
  ofClass := by
    rintro file _ name named _ ⟨⟨hRow, hDescribed⟩, rfl⟩ hWidth
    exact ⟨_, stepV1_columns hRow hDescribed hWidth, rfl, width_addRow.trans hWidth⟩
  ofMember := by
    rintro file owner _ member ⟨⟨hRow, hDescribed⟩, rfl⟩ hWidth
    exact ⟨_, stepV1_columns hRow hDescribed hWidth, rfl, width_addRow.trans hWidth⟩
  silent := False.elim

theorem parse_renderV1 (ha : IsColumn a) (hb : IsColumn b) (hRows : ∀ r ∈ rows, r.IsTabular)
    (hDescribed : ∀ r ∈ rows, r.IsDescribed) (hNested : Row.Nested none rows) :
    parse (renderV1 a b rows) = .ok (rows.foldl addRow ⟨[a, b], ∅⟩) := by
  have hHeader : ∀ col ∈ ["v1", a, b], IsColumn col :=
    List.forall_mem_cons.2 ⟨by decide, by simp [ha, hb]⟩
  have hLines : ∀ line ∈ Text.columns '\t' ["v1", a, b] ::
      rows.map fun r => Text.columns '\t' (columnsV1 r), IsLine line := by
    refine List.forall_mem_cons.2 ⟨?_, List.forall_mem_map.2 fun r hr => ?_⟩
    · exact (isLine_columns '\t' (by decide) (List.cons_ne_nil _ _) hHeader).1
    · exact (isLine_columns '\t' (by decide) columnsV1_ne_nil
        (isColumn_of_mem_columnsV1 (hRows r hr) (hDescribed r hr))).1
  have hStart : (Text.columns '\t' ["v1", a, b]).toList =
      "v1\t".toList ++ (Text.columns '\t' [a, b]).toList := Text.toList_columns_cons
  have hOther : Text.startsWith (Text.columns '\t' ["v1", a, b]) "tiny\t2\t" = false := by
    rw [Bool.eq_false_iff, ne_eq, Text.startsWith_iff, hStart]
    rintro ⟨rest, hSame⟩
    exact absurd (List.cons.inj hSame).1 (by decide)
  have hVersion : Text.startsWith (Text.columns '\t' ["v1", a, b]) "v1\t" = true := by
    rw [Text.startsWith_iff, hStart]
    exact List.prefix_append _ _
  have hSplit : Text.split '\t' (Text.columns '\t' ["v1", a, b]) = ["v1", a, b] :=
    Text.split_columns (List.cons_ne_nil _ _) fun col hCol => (hHeader col hCol).not_mem (by decide)
  obtain ⟨_, hRun, rfl⟩ := takesRowsV1.run (p := ⟨[a, b], ∅⟩)
    (Written.of_map fun r hr => ⟨⟨hRows r hr, hDescribed r hr⟩, rfl⟩) hNested rfl
  rw [parse, renderV1, numberedLines_unlines hLines]
  dsimp only [Text.numberFrom]
  rw [hOther, hVersion, parseV1, hSplit]
  exact readLines_eq_ok hRun

-- ---------------------------------------------------------------------------
-- Version 2
-- ---------------------------------------------------------------------------

/-- The columns that write a row in version 2. -/
def columnsV2 : Row → List String
  | .ofClass name named => ["c", name, named]
  | .ofMember _ (.field key named) => ["f", writtenDescriptor key, key.name, named]
  | .ofMember _ (.method key named) => ["m", key.descriptor, key.name, named]

/-- The line that writes a row in version 2. -/
def writeV2 (r : Row) : String :=
  match r with
  | .ofClass .. => Text.columns '\t' (columnsV2 r)
  | .ofMember .. => under (Text.columns '\t' (columnsV2 r))

/-- The text of version 2 that writes rows. -/
def renderV2 (a b : String) (rows : List Row) : String :=
  Text.unlines (Text.columns '\t' ["tiny", "2", "0", a, b] :: rows.map writeV2)

theorem columnsV2_ne_nil : columnsV2 r ≠ [] := by
  rcases r with _ | ⟨_, _ | _⟩ <;> exact List.cons_ne_nil _ _

theorem isColumn_of_mem_columnsV2 (hRow : r.IsTabular) (hDescribed : r.IsDescribed) :
    ∀ col ∈ columnsV2 r, IsColumn col := by
  have hKeyword : IsColumn "c" ∧ IsColumn "f" ∧ IsColumn "m" := by decide
  cases r with
  | ofClass name named =>
    obtain ⟨⟨hName, hNamed⟩, -⟩ := hRow
    simp [columnsV2, hKeyword, hName, hNamed]
  | ofMember owner member =>
    cases member with
    | field key named =>
      obtain ⟨-, ⟨⟨hName, -⟩, hNamed, -⟩, hDescriptor⟩ := hRow
      have hd := isColumn_writtenDescriptor hDescribed fun d hMem => (hDescriptor d hMem).1
      simp [columnsV2, hKeyword, hd, hName, hNamed]
    | method key named =>
      obtain ⟨-, ⟨⟨hName, -⟩, hNamed, -⟩, hd, -⟩ := hRow
      simp [columnsV2, hKeyword, hd, hName, hNamed]

theorem startsInk_columnsV2 (r : Row) : Text.StartsInk (Text.columns '\t' (columnsV2 r)).toList := by
  rcases r with _ | ⟨_, _ | _⟩ <;> exact Text.startsInk_columns (by decide)

theorem isLine_writeV2 (hRow : r.IsTabular) (hDescribed : r.IsDescribed) : IsLine (writeV2 r) := by
  have hLine := (isLine_columns '\t' (by decide) columnsV2_ne_nil
    (isColumn_of_mem_columnsV2 hRow hDescribed)).1
  cases r with
  | ofClass name named => exact hLine
  | ofMember owner member => exact hLine.under

theorem split_columnsV2 (hRow : r.IsTabular) (hDescribed : r.IsDescribed) :
    Text.split '\t' (Text.columns '\t' (columnsV2 r)) = columnsV2 r :=
  Text.split_columns columnsV2_ne_nil fun col hCol =>
    (isColumn_of_mem_columnsV2 hRow hDescribed col hCol).not_mem (by decide)

/-- What a reader of version 2 stands in: a file of two namespaces, and the last class. -/
def Progress.StandsIn (p : Progress) (owner : Option String) : Prop :=
  p.file.width = 2 ∧ p.owner = owner

theorem readMember_columnsV2 (member : MemberRow) (hStands : p.StandsIn (some owner)) (line : String) :
    ∃ q, readMember id p line (columnsV2 (.ofMember owner member)) = .ok q ∧
      q.file = p.file.addRow (.ofMember owner member) ∧ q.StandsIn (some owner) := by
  obtain ⟨file, _, kind⟩ := p
  obtain ⟨hWidth, rfl⟩ := hStands
  cases member <;> exact ⟨_, if_pos hWidth.symm, rfl, hWidth, rfl⟩

theorem takesRowsV2 :
    TakesRows (stepV2 id) (·.file) addRow Progress.StandsIn
      (fun r line => (r.IsTabular ∧ r.IsDescribed) ∧ line = writeV2 r) (fun _ => False) where
  ofClass := by
    rintro p _ name named _ ⟨⟨hRow, hDescribed⟩, rfl⟩ ⟨hWidth, -⟩
    refine ⟨⟨p.file.addRow (.ofClass name named), some name, none⟩, ?_, rfl,
      width_addRow.trans hWidth, rfl⟩
    have hInk := startsInk_columnsV2 (.ofClass name named)
    rw [stepV2, (isLine_writeV2 hRow hDescribed).2.isBlankText, writeV2, length_takeWhile_tab hInk,
      dropWhile_tab hInk, split_columnsV2 hRow hDescribed]
    exact if_pos hWidth.symm
  ofMember := by
    rintro p owner _ member ⟨⟨hRow, hDescribed⟩, rfl⟩ ⟨hWidth, hOwner⟩
    have hInk := startsInk_columnsV2 (.ofMember owner member)
    obtain ⟨q, hRead, hFile, hStands⟩ := readMember_columnsV2 member ⟨hWidth, hOwner⟩
      (Text.trim (writeV2 (.ofMember owner member)))
    refine ⟨q, ?_, hFile, hStands⟩
    rw [stepV2, (isLine_writeV2 hRow hDescribed).2.isBlankText, ← hRead, writeV2,
      length_takeWhile_tab_under hInk, dropWhile_tab_under hInk, split_columnsV2 hRow hDescribed]
    rfl
  silent := False.elim

/-- The first line behind the header is the line of a class, so that there are no properties. -/
theorem takeWhile_isProperty (hNested : Row.Nested none rows) (n : Nat) :
    (Text.numberFrom n (rows.map writeV2)).takeWhile (fun e => isProperty e.2) = [] := by
  cases rows with
  | nil => rfl
  | cons r more =>
    cases r with
    | ofClass name named =>
      rw [List.map_cons, Text.numberFrom]
      refine List.takeWhile_cons_of_neg ?_
      rw [isProperty, writeV2, columnsV2, Text.toList_columns_cons]
      exact Bool.false_ne_true
    | ofMember owner member => cases hNested.1

theorem parse_renderV2 (ha : IsColumn a) (hb : IsColumn b) (hRows : ∀ r ∈ rows, r.IsTabular)
    (hDescribed : ∀ r ∈ rows, r.IsDescribed) (hNested : Row.Nested none rows) :
    parse (renderV2 a b rows) = .ok (rows.foldl addRow ⟨[a, b], ∅⟩) := by
  have hHeader : ∀ col ∈ ["tiny", "2", "0", a, b], IsColumn col := by
    simp only [List.forall_mem_cons]
    exact ⟨by decide, by decide, by decide, ha, hb, nofun⟩
  have hLines : ∀ line ∈ Text.columns '\t' ["tiny", "2", "0", a, b] :: rows.map writeV2,
      IsLine line := by
    refine List.forall_mem_cons.2 ⟨?_, List.forall_mem_map.2 fun r hr => ?_⟩
    · exact (isLine_columns '\t' (by decide) (List.cons_ne_nil _ _) hHeader).1
    · exact isLine_writeV2 (hRows r hr) (hDescribed r hr)
  have hVersion :
      Text.startsWith (Text.columns '\t' ["tiny", "2", "0", a, b]) "tiny\t2\t" = true := by
    rw [Text.startsWith_iff, Text.toList_columns_cons, Text.toList_columns_cons]
    exact ⟨_, rfl⟩
  have hSplit : Text.split '\t' (Text.columns '\t' ["tiny", "2", "0", a, b]) =
      ["tiny", "2", "0", a, b] :=
    Text.split_columns (List.cons_ne_nil _ _) fun col hCol => (hHeader col hCol).not_mem (by decide)
  have hProperties := takeWhile_isProperty hNested 2
  obtain ⟨q, hRun, hFile⟩ := takesRowsV2.run (p := ⟨⟨[a, b], ∅⟩, none, none⟩)
    (Written.of_map fun r hr => ⟨⟨hRows r hr, hDescribed r hr⟩, rfl⟩) hNested ⟨rfl, rfl⟩
  rw [parse, renderV2, numberedLines_unlines hLines]
  dsimp only [Text.numberFrom]
  rw [hVersion, parseV2, hSplit]
  dsimp only
  rw [hProperties]
  exact (congrArg (Except.map (·.file)) (readLines_eq_ok hRun)).trans (congrArg Except.ok hFile)

end Jarsmith.TinyFile
