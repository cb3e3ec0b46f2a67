import Jarsmith.Mappings.Srg
import Jarsmith.Proofs.Mappings.Tabular

/-!
# Writing SRG, CSRG and TSRG

A line for each row of a table. In SRG and CSRG what a line says does not depend on the lines before
it, so that a reader ends with the rows that were written. In TSRG members stand below their class,
indented by a tab.

* `Srg.parse_render` — SRG; a field with a descriptor has five columns, one without has three.
* `Csrg.parse_render` — CSRG; the descriptors of fields are not written.
* `Tsrg.takesRows` — what a line does to a reader of TSRG that stands in the class of the line.
* `Tsrg.parse_render` — TSRG without a header; the descriptors of fields are not written.
* `Tsrg.parse_renderTitled` — TSRG with a header of two namespaces.
-/

namespace Jarsmith.Mappings

variable {owner name named : String} {r : Row} {rows : List Row}

-- ---------------------------------------------------------------------------
-- SRG
-- ---------------------------------------------------------------------------

namespace Srg

/-- The columns that write a row of the table `m`: a keyword, then the path of the row and its
descriptor, on both sides. -/
def columns (m : MappingSet) : Row → List String
  | .ofClass name named => ["CL:", name, named]
  | .ofMember owner (.field ⟨name, none⟩ named) =>
    ["FD:", owner ++ "/" ++ name, m.className owner ++ "/" ++ named]
  | .ofMember owner (.field ⟨name, some d⟩ named) =>
    ["FD:", owner ++ "/" ++ name, d, m.className owner ++ "/" ++ named, m.mapDescriptor d]
  | .ofMember owner (.method ⟨name, d⟩ named) =>
    ["MD:", owner ++ "/" ++ name, d, m.className owner ++ "/" ++ named, m.mapDescriptor d]

/-- The text that writes rows of the table `m`. -/
def render (m : MappingSet) (rows : List Row) : String :=
  Text.unlines (rows.map fun r => Text.columns ' ' (columns m r))

variable {m : MappingSet}

theorem columns_ne_nil : columns m r ≠ [] := by
  rcases r with _ | ⟨_, ⟨⟨_, _ | _⟩, _⟩ | _⟩ <;> exact List.cons_ne_nil _ _

theorem isColumn_of_mem_columns (hTable : m.Tabular) (hRow : r.IsTabular) :
    ∀ col ∈ columns m r, IsColumn col := by
  have hKeyword : IsColumn "CL:" ∧ IsColumn "FD:" ∧ IsColumn "MD:" := by decide
  cases r with
  | ofClass name named =>
    obtain ⟨⟨hName, hNamed⟩, -⟩ := hRow
    simp [columns, hKeyword, hName, hNamed]
  | ofMember owner member =>
    obtain ⟨hOwner, hMember⟩ := hRow
    have hPath {name : String} (hName : IsMemberName name) : IsColumn (owner ++ "/" ++ name) :=
      (hOwner.append_right (by decide)).append_right hName.1.2
    have hNamedPath {named : String} (hNamed : IsMemberName named) :
        IsColumn (m.className owner ++ "/" ++ named) :=
      (IsColumn.append_left (hTable.isInk_className hOwner.2) (by decide)).append_right hNamed.1.2
    cases member with
    | field key named =>
      obtain ⟨⟨hName, hNamed⟩, hDescriptor⟩ := hMember
      obtain ⟨name, _ | d⟩ := key
      · simp [columns, hKeyword, hPath hName, hNamedPath hNamed]
      · have hd := (hDescriptor d rfl).1
        simp [columns, hKeyword, hPath hName, hNamedPath hNamed, hd,
          hTable.isColumn_mapDescriptor hd]
    | method key named =>
      obtain ⟨⟨hName, hNamed⟩, hd, -⟩ := hMember
      simp [columns, hKeyword, hPath hName, hNamedPath hNamed, hd,
        hTable.isColumn_mapDescriptor hd]

/-- A path is taken apart as it was put together. -/
theorem member_path {fault : LineFault} (hName : '/' ∉ name.toList) :
    member fault (owner ++ "/" ++ name) = .ok (owner, name) := by
  have hText : (owner ++ "/" ++ name).toList = owner.toList ++ '/' :: name.toList := by
    rw [String.toList_append, String.toList_append, List.append_assoc]
    rfl
  rw [member, Text.splitLast?, Text.cutLast?_eq_some.2 ⟨hName, hText⟩]
  simp only [Option.map_some, String.ofList_toList]

/-- A line lists the row that it writes. -/
theorem step_columns (hTable : m.Tabular) (hRow : r.IsTabular) (set : MappingSet) :
    step set (Text.columns ' ' (columns m r)) = .ok (r.addTo set) := by
  have hWords : Text.words (Text.columns ' ' (columns m r)) = columns m r :=
    Text.words_columns fun col hCol => (isColumn_of_mem_columns hTable hRow col hCol).isWord
  rw [step, hWords]
  cases r with
  | ofClass name named => rfl
  | ofMember owner member =>
    obtain ⟨-, hMember⟩ := hRow
    cases member with
    | field key named =>
      obtain ⟨⟨⟨-, hName⟩, -, hNamed⟩, -⟩ := hMember
      obtain ⟨name, _ | d⟩ := key <;>
      · show addField .. = _
        rw [addField, member_path hName, member_path hNamed]
        rfl
    | method key named =>
      obtain ⟨⟨⟨-, hName⟩, -, hNamed⟩, -⟩ := hMember
      show ((member _ _).bind fun _ => (member _ _).bind fun _ => _) = _
      rw [member_path hName, member_path hNamed]
      rfl

theorem parse_render (hTable : m.Tabular) (hRows : ∀ r ∈ rows, r.IsTabular) :
    parse (render m rows) = .ok (rows.foldl Row.addTo ∅) := by
  rw [parse, render, contentLines_unlines]
  · exact readLines_eq_ok (foldlM_map_eq_ok fun set r hr => step_columns hTable (hRows r hr) set)
  · intro line hMem
    obtain ⟨r, hr, rfl⟩ := List.mem_map.1 hMem
    exact isLine_columns ' ' (by decide) columns_ne_nil (isColumn_of_mem_columns hTable (hRows r hr))

end Srg

-- ---------------------------------------------------------------------------
-- CSRG
-- ---------------------------------------------------------------------------

namespace Csrg

/-- The columns that write a row: its owner, its name and its descriptor, then its target name. -/
def columns : Row → List String
  | .ofClass name named => [name, named]
  | .ofMember owner (.field key named) => [owner, key.name, named]
  | .ofMember owner (.method key named) => [owner, key.name, key.descriptor, named]

/-- The text that writes rows. -/
def render (rows : List Row) : String :=
  Text.unlines (rows.map fun r => Text.columns ' ' (columns r))

theorem columns_ne_nil : columns r ≠ [] := by
  rcases r with _ | ⟨_, _ | _⟩ <;> exact List.cons_ne_nil _ _

theorem isColumn_of_mem_columns (hRow : r.IsTabular) : ∀ col ∈ columns r, IsColumn col := by
  cases r with
  | ofClass name named =>
    obtain ⟨⟨hName, hNamed⟩, -⟩ := hRow
    simp [columns, hName, hNamed]
  | ofMember owner member =>
    cases member with
    | field key named =>
      obtain ⟨hOwner, ⟨⟨hName, -⟩, hNamed, -⟩, -⟩ := hRow
      simp [columns, hOwner, hName, hNamed]
    | method key named =>
      obtain ⟨hOwner, ⟨⟨hName, -⟩, hNamed, -⟩, hd, -⟩ := hRow
      simp [columns, hOwner, hName, hNamed, hd]

/-- A line lists the row that it writes, without the descriptor of a field. -/
theorem step_columns (hRow : r.IsTabular) (set : MappingSet) :
    step set (Text.columns ' ' (columns r)) = .ok (r.loosely.addTo set) := by
  have hWords : Text.words (Text.columns ' ' (columns r)) = columns r :=
    Text.words_columns fun col hCol => (isColumn_of_mem_columns hRow col hCol).isWord
  rw [step, hWords]
  cases r with
  | ofClass name named => exact congrArg Except.ok (if_neg hRow.2.1)
  | ofMember owner member => cases member <;> rfl

theorem parse_render (hRows : ∀ r ∈ rows, r.IsTabular) :
    parse (render rows) = .ok ((rows.map Row.loosely).foldl Row.addTo ∅) := by
  rw [parse, render, contentLines_unlines, List.foldl_map]
  · exact readLines_eq_ok (foldlM_map_eq_ok fun set r hr => step_columns (hRows r hr) set)
  · intro line hMem
    obtain ⟨r, hr, rfl⟩ := List.mem_map.1 hMem
    exact isLine_columns ' ' (by decide) columns_ne_nil (isColumn_of_mem_columns (hRows r hr))

end Csrg

end Jarsmith.Mappings

-- ---------------------------------------------------------------------------
-- TSRG
-- ---------------------------------------------------------------------------

namespace Jarsmith.Mappings.Tsrg

variable {p : Progress} {layout : Layout} {a b owner name named : String} {r : Row}
  {rows : List Row} {member : MemberRow}

/-- The columns that write a row; of a member the name, the descriptor and the target name. -/
def columns : Row → List String
  | .ofClass name named => [name, named]
  | .ofMember _ (.field ⟨name, none⟩ named) => [name, named]
  | .ofMember _ (.field ⟨name, some d⟩ named) => [name, d, named]
  | .ofMember _ (.method ⟨name, d⟩ named) => [name, d, named]

/-- The line that writes a row. -/
def write (r : Row) : String :=
  match r with
  | .ofClass .. => Text.columns ' ' (columns r)
  | .ofMember .. => under (Text.columns ' ' (columns r))

/-- The text that writes rows without a header. -/
def render (rows : List Row) : String := Text.unlines ((rows.map Row.loosely).map write)

/-- The text that writes rows under a header with two namespaces. -/
def renderTitled (a b : String) (rows : List Row) : String :=
  Text.unlines (Text.columns ' ' ["tsrg2", a, b] :: rows.map write)

-- ---------------------------------------------------------------------------
-- Lines
-- ---------------------------------------------------------------------------

theorem exists_columns_eq_cons (r : Row) : ∃ first more, columns r = first :: more := by
  rcases r with _ | ⟨_, ⟨⟨_, _ | _⟩, _⟩ | _⟩ <;> exact ⟨_, _, rfl⟩

theorem isColumn_of_mem_columns (hRow : r.IsTabular) : ∀ col ∈ columns r, IsColumn col := by
  cases r with
  | ofClass name named =>
    obtain ⟨⟨hName, hNamed⟩, -⟩ := hRow
    simp [columns, hName, hNamed]
  | ofMember owner member =>
    cases member with
    | field key named =>
      obtain ⟨-, ⟨⟨hName, -⟩, hNamed, -⟩, hDescriptor⟩ := hRow
      obtain ⟨name, _ | d⟩ := key
      · simp [columns, hName, hNamed]
      · simp [columns, hName, hNamed, (hDescriptor d rfl).1]
    | method key named =>
      obtain ⟨-, ⟨⟨hName, -⟩, hNamed, -⟩, hd, -⟩ := hRow
      simp [columns, hName, hNamed, hd]

theorem isLine_write (hRow : r.IsTabular) : IsLine (write r) ∧ '#' ∉ (write r).toList := by
  obtain ⟨first, more, hCols⟩ := exists_columns_eq_cons r
  have hLine := isLine_columns ' ' (by decide) (hCols ▸ List.cons_ne_nil _ _)
    (isColumn_of_mem_columns hRow)
  cases r with
  | ofClass name named => exact hLine
  | ofMember owner member => exact ⟨hLine.1.under, not_mem_under (by decide) hLine.2⟩

theorem words_write (hRow : r.IsTabular) : Text.words (write r) = columns r := by
  have hWords : Text.words (Text.columns ' ' (columns r)) = columns r :=
    Text.words_columns fun col hCol => (isColumn_of_mem_columns hRow col hCol).isWord
  cases r with
  | ofClass name named => exact hWords
  | ofMember owner member => exact (Text.words_indented rfl).trans hWords

theorem startsInk_columns (hRow : r.IsTabular) :
    Text.StartsInk (Text.columns ' ' (columns r)).toList := by
  obtain ⟨first, more, hCols⟩ := exists_columns_eq_cons r
  have hFirst := isColumn_of_mem_columns hRow first (hCols ▸ List.mem_cons_self)
  rw [hCols]
  exact Text.startsInk_columns hFirst.isWord

theorem step_ofClass (hRow : (Row.ofClass name named).IsTabular) :
    step layout p (write (.ofClass name named)) =
      .ok ⟨p.set.addClass name named, some name, none⟩ := by
  have hDepth := length_takeWhile_tab (startsInk_columns hRow)
  rw [step, words_write hRow, write, hDepth]
  exact congrArg Except.ok (if_neg hRow.2.1)

/-- A member is told by its columns: with two names in a line, three columns are a method if the
second one opens with a parenthesis, and two columns are a field. -/
theorem readMember_columns (p : Progress) (owner : String) (hMember : member.IsTabular)
    (hNames : layout.names = 2) (hDetailed : layout.detailed = true ∨ member.loosely = member)
    (line : String) :
    ∃ q, readMember layout p owner line (columns (.ofMember owner member)) = .ok q ∧
      q.set = (Row.ofMember owner member).addTo p.set ∧ q.owner = p.owner := by
  cases member with
  | field key named =>
    obtain ⟨name, _ | d⟩ := key
    · refine ⟨_, if_pos hNames.symm, rfl, rfl⟩
    · have hWide : [name, d, named].length = layout.names + 1 := by rw [hNames]; rfl
      have hParen := (hMember.2 d rfl).2
      have hRead : layout.detailed = true := hDetailed.resolve_right (by simp [MemberRow.loosely,
        FieldKey.loosely])
      -- three columns are no method here, so that the descriptor counts if the layout has details
      exact ⟨_, (if_neg fun h => hParen h.2).trans (if_pos ⟨hRead, hWide⟩), rfl, rfl⟩
  | method key named =>
    obtain ⟨name, d⟩ := key
    have hWide : [name, d, named].length = layout.names + 1 := by rw [hNames]; rfl
    exact ⟨_, if_pos ⟨hWide, hMember.2.2⟩, rfl, rfl⟩

/-- **What a line does**, under the class in which it stands. -/
theorem takesRows (hNames : layout.names = 2) :
    TakesRows (step layout) (·.set) Row.addTo (fun p owner => p.owner = owner)
      (fun r line => r.IsTabular ∧ (layout.detailed = true ∨ r.loosely = r) ∧ line = write r)
      (fun _ => False) where
  ofClass := by
    rintro p _ name named _ ⟨hRow, -, rfl⟩ -
    exact ⟨_, step_ofClass hRow, rfl, rfl⟩
  ofMember := by
    rintro p owner _ member ⟨hRow, hDetailed, rfl⟩ hOwner
    have hDepth := length_takeWhile_tab_under (startsInk_columns hRow)
    have hRows : layout.detailed = true ∨ member.loosely = member :=
      hDetailed.imp_right fun hSame => (Row.ofMember.inj hSame).2
    obtain ⟨q, hRead, hSet, hStands⟩ := readMember_columns p owner hRow.2 hNames hRows
      (write (.ofMember owner member))
    refine ⟨q, ?_, hSet, hStands.trans hOwner⟩
    rw [step, words_write hRow, write, hDepth, hOwner]
    exact hRead
  silent := False.elim

theorem run_write (hNames : layout.names = 2) (hNested : Row.Nested none rows)
    (hRows : ∀ r ∈ rows, r.IsTabular ∧ (layout.detailed = true ∨ r.loosely = r)) (n : Nat) :
    (readLines (step layout) ⟨∅, none, none⟩ (Text.numberFrom n (rows.map write))).map (·.set) =
      .ok (rows.foldl Row.addTo ∅) := by
  obtain ⟨q, hRun, hSet⟩ := (takesRows hNames).run (p := ⟨∅, none, none⟩)
    (Written.of_map fun r hr => ⟨(hRows r hr).1, (hRows r hr).2, rfl⟩) hNested rfl
  rw [readLines_eq_ok hRun]
  exact congrArg Except.ok hSet

-- ---------------------------------------------------------------------------
-- Texts
-- ---------------------------------------------------------------------------

/-- The line of a class is no header. -/
theorem ofHeader?_ofClass (hRow : (Row.ofClass name named).IsTabular) :
    Layout.ofHeader? (write (.ofClass name named)) = none := by
  obtain ⟨⟨hName, -⟩, -, hHeader⟩ := hRow
  rw [Layout.ofHeader?, Option.map_eq_none_iff, Text.stripPrefix?, Option.map_eq_none_iff,
    Option.eq_none_iff_forall_ne_some]
  intro rest hRest
  have hStart := Text.afterPrefix?_eq_some.1 hRest
  have hText : (write (.ofClass name named)).toList = name.toList ++ ' ' :: named.toList := by
    rw [write, columns, Text.toList_columns_cons, Text.columns_singleton]
  have hName : Text.cutFirst? ' ' (write (.ofClass name named)).toList =
      some (name.toList, named.toList) :=
    Text.cutFirst?_eq_some.2 ⟨hName.not_mem (by decide), hText⟩
  have hTitle : Text.cutFirst? ' ' (write (.ofClass name named)).toList =
      some ("tsrg2".toList, rest) :=
    Text.cutFirst?_eq_some.2 ⟨by decide, hStart⟩
  -- the line is cut at its first blank in one way only
  rw [hName, Option.some.injEq, Prod.mk.injEq, String.toList_inj] at hTitle
  exact hHeader hTitle.1

theorem ofHeader?_title (ha : IsColumn a) (hb : IsColumn b) :
    Layout.ofHeader? (Text.columns ' ' ["tsrg2", a, b]) = some ⟨2, true⟩ := by
  have hStart : (Text.columns ' ' ["tsrg2", a, b]).toList =
      "tsrg2 ".toList ++ (Text.columns ' ' [a, b]).toList := Text.toList_columns_cons
  have hRest : Text.stripPrefix? "tsrg2 " (Text.columns ' ' ["tsrg2", a, b]) =
      some (Text.columns ' ' [a, b]) := by
    rw [Text.stripPrefix?, Text.afterPrefix?_eq_some.2 hStart, Option.map_some,
      String.ofList_toList]
  have hWords : Text.words (Text.columns ' ' [a, b]) = [a, b] :=
    Text.words_columns (by simp [ha.isWord, hb.isWord])
  rw [Layout.ofHeader?, hRest, Option.map_some, hWords]
  rfl

/-- The first line is the line of a class, since members stand under their class. -/
theorem ofHeader?_head (hRows : ∀ r ∈ rows, r.IsTabular) (hNested : Row.Nested none rows) :
    (Text.numberFrom 1 (rows.map write)).head?.bind (fun e => Layout.ofHeader? e.2) = none := by
  cases rows with
  | nil => rfl
  | cons r more =>
    cases r with
    | ofClass name named =>
      rw [List.map_cons, Text.numberFrom, List.head?_cons, Option.bind_some]
      exact ofHeader?_ofClass (hRows _ List.mem_cons_self)
    | ofMember owner member => cases hNested.1

theorem parse_render (hRows : ∀ r ∈ rows, r.IsTabular) (hNested : Row.Nested none rows) :
    parse (render rows) = .ok ((rows.map Row.loosely).foldl Row.addTo ∅) := by
  have hLoose : ∀ r ∈ rows.map Row.loosely,
      r.IsTabular ∧ (Layout.plain.detailed = true ∨ r.loosely = r) :=
    List.forall_mem_map.2 fun r hr => ⟨(hRows r hr).loosely, .inr r.loosely_loosely⟩
  have hHeader := ofHeader?_head (fun r hr => (hLoose r hr).1) (Row.nested_loosely hNested)
  rw [parse, render, contentLines_unlines]
  · dsimp only
    rw [hHeader]
    exact run_write rfl (Row.nested_loosely hNested) hLoose 1
  · exact List.forall_mem_map.2 fun r hr => isLine_write (hLoose r hr).1

theorem parse_renderTitled (ha : IsColumn a) (hb : IsColumn b) (hRows : ∀ r ∈ rows, r.IsTabular)
    (hNested : Row.Nested none rows) :
    parse (renderTitled a b rows) = .ok (rows.foldl Row.addTo ∅) := by
  have hLines : ∀ line ∈ Text.columns ' ' ["tsrg2", a, b] :: rows.map write,
      IsLine line ∧ '#' ∉ line.toList := by
    refine List.forall_mem_cons.2 ⟨?_, List.forall_mem_map.2 fun r hr => isLine_write (hRows r hr)⟩
    exact isLine_columns ' ' (by decide) (List.cons_ne_nil _ _)
      (List.forall_mem_cons.2 ⟨by decide, by simp [ha, hb]⟩)
  rw [parse, renderTitled, contentLines_unlines hLines]
  dsimp only [Text.numberFrom, List.head?_cons, Option.bind_some]
  rw [ofHeader?_title ha hb]
  exact run_write rfl hNested (fun r hr => ⟨hRows r hr, .inl rfl⟩) 2

end Jarsmith.Mappings.Tsrg
