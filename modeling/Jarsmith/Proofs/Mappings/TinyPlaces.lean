import Jarsmith.Proofs.Mappings.Projection

/-!
# Places in a tiny file

A reader of tiny files that goes by places: columns, the class of a member and the member of a
detail are looked up where they should stand, and reading stops where nothing stands. It does what
`TinyFile.parse` does, so a lookup that never fails in the one is none that the other leaves out.

* `Places.InRange` — the last member stands where its place says; every line keeps this.
* `Places.stepV2_follows`, `Places.stepV1_follows` — one line.
* `Places.parse_follows` — a text.
* `stepV2_eq_namelessClass` — the one line that leads behind an end.
* `BreaksOff`, `parse_eq_namelessClass` — the texts that do.
* `parse_inRange` — where reading and projecting lead.
-/

namespace Jarsmith.TinyFile

open Mappings Tiny

/-- Why reading by places stops. -/
inductive Stop where
  /-- Something is wrong with the line. -/
  | fault (fault : LineFault)
  /-- The class of the last member is not listed. -/
  | lostClass
  /-- The last member is not where it was put. -/
  | lostMember
  /-- A place behind the end. -/
  | outOfRange

/-- The class and the place of the last member under which the next lines stand. -/
structure Cursor where
  file : TinyFile
  owner : Option String
  member : Option (MemberKind × Nat)

/-- The progress without the place of the member. -/
def Cursor.progress (q : Cursor) : Progress := ⟨q.file, q.owner, q.member.map Prod.fst⟩

namespace Places

-- ---------------------------------------------------------------------------
-- Reading by places
-- ---------------------------------------------------------------------------

section Lookups

variable {α : Type}

/-- The element at a place. -/
def element (l : List α) (i : Nat) : Except Stop α :=
  match l[i]? with
  | some a => .ok a
  | none => .error .outOfRange

/-- The place of the last element. -/
def lastPlace (l : List α) : Except Stop Nat :=
  match l.length with
  | 0 => .error .outOfRange
  | n + 1 => .ok n

end Lookups

/-- What stands behind the first `n` bytes of a text, if a character ends there. -/
def behind : Nat → List Char → Except Stop (List Char)
  | 0, text => .ok text
  | _ + 1, [] => .error .outOfRange
  | n + 1, c :: rest =>
    if c.utf8Size ≤ n + 1 then behind (n + 1 - c.utf8Size) rest else .error .outOfRange

/-- The members of a kind. -/
def members (c : ClassEntry) : MemberKind → List Tiny.Member
  | .field => c.fields
  | .method => c.methods

/-- The class with another member at a place. -/
def setMember (c : ClassEntry) (kind : MemberKind) (i : Nat) (m : Tiny.Member) : ClassEntry :=
  match kind with
  | .field => { c with fields := c.fields.set i m }
  | .method => { c with methods := c.methods.set i m }

/-- The class called `name` in the first namespace, listed or not. -/
def listed (file : TinyFile) (name : String) : ClassEntry :=
  (file.classes.get? name).getD ⟨List.replicate (max 1 file.width) name, none, [], []⟩

/-- Lists a class. -/
def list (file : TinyFile) (name : String) (c : ClassEntry) : TinyFile :=
  { file with classes := file.classes.insert name c }

/-- Takes in a line of version 1. -/
def stepV1 (file : TinyFile) (line : String) : Except Stop TinyFile :=
  if Text.isBlankText line || Text.startsWith line "#" then .ok file
  else
    match Text.split '\t' line with
    | "CLASS" :: names =>
      if names.length = file.width then do
        let name ← element names 0
        pure (list file name { listed file name with names := names })
      else .error (.fault (.unrecognizedLine line))
    | keyword :: owner :: descriptor :: names =>
      let kind : Option MemberKind :=
        if keyword = "FIELD" then some .field
        else if keyword = "METHOD" then some .method
        else none
      match kind with
      | some kind =>
        if names.length = file.width then
          .ok (list file owner ((listed file owner).push kind ⟨descriptor, names, none, []⟩))
        else .error (.fault (.unrecognizedLine line))
      | none => .error (.fault (.unrecognizedLine line))
    | _ => .error (.fault (.unrecognizedLine line))

/-- Changes the member at the place where the last one was put. -/
def editMember (q : Cursor) (f : Tiny.Member → Tiny.Member) : Except Stop Cursor :=
  match q.owner, q.member with
  | some owner, some (kind, i) =>
    match q.file.classes.get? owner with
    | some c =>
      match (members c kind)[i]? with
      | some m => .ok { q with file := list q.file owner (setMember c kind i (f m)) }
      | none => .error .lostMember
    | none => .error .lostClass
  | _, _ => .error (.fault .detailOutsideMember)

/-- Takes in a class line. -/
def readClass (read : String → String) (q : Cursor) (line : String) (columns : List String) :
    Except Stop Cursor :=
  match columns with
  | "c" :: names =>
    if names.length = q.file.width then do
      let names := names.map read
      let name ← element names 0
      pure ⟨list q.file name { listed q.file name with names := names }, some name, none⟩
    else .error (.fault (.unrecognizedLine line))
  | _ => .error (.fault (.unrecognizedLine line))

/-- Puts a member behind those of its kind, and takes down its place. -/
def readEntry (q : Cursor) (kind : MemberKind) (m : Tiny.Member) : Except Stop Cursor :=
  match q.owner with
  | some owner => do
    let c := (listed q.file owner).push kind m
    let i ← lastPlace (members c kind)
    pure ⟨list q.file owner c, some owner, some (kind, i)⟩
  | none => .error (.fault .memberOutsideClass)

/-- Takes in the documentation of a class. -/
def readComment (q : Cursor) (line : String) (columns : List String) : Except Stop Cursor :=
  match columns, q.owner with
  | ["c", text], some owner =>
    .ok { q with
      file := list q.file owner { listed q.file owner with javadoc := some (unescape text) }
      member := none }
  | ["c", _], none => .error (.fault .commentOutsideClass)
  | _, _ => .error (.fault (.unrecognizedLine line))

/-- Takes in a line under a class. -/
def readMember (read : String → String) (q : Cursor) (line : String) (columns : List String) :
    Except Stop Cursor :=
  match columns with
  | "f" :: descriptor :: names =>
    if names.length = q.file.width then
      readEntry q .field ⟨descriptor, names.map read, none, []⟩
    else readComment q line columns
  | "m" :: descriptor :: names =>
    if names.length = q.file.width then
      readEntry q .method ⟨descriptor, names.map read, none, []⟩
    else readComment q line columns
  | _ => readComment q line columns

/-- Takes in a line under a member. -/
def readDetail (read : String → String) (q : Cursor) (line : String) (columns : List String) :
    Except Stop Cursor :=
  match columns with
  | ["c", text] => editMember q fun m => { m with javadoc := some (unescape text) }
  | "p" :: index :: names =>
    if names.length = q.file.width then
      match slot index with
      | .ok slot =>
        editMember q fun m => { m with parameters := m.parameters ++ [(slot, names.map read)] }
      | .error fault => .error (.fault fault)
    else .error (.fault (.unrecognizedLine line))
  | "v" :: _ => .ok q
  | _ => .error (.fault (.unrecognizedLine line))

/-- Takes in a line of version 2. -/
def stepV2 (read : String → String) (q : Cursor) (line : String) : Except Stop Cursor :=
  if Text.isBlankText line then .ok q
  else do
    let shown := Text.trim line
    let depth := (line.toList.takeWhile (· == '\t')).length
    let columns := Text.split '\t' (String.ofList (← behind depth line.toList))
    match depth with
    | 0 => readClass read q shown columns
    | 1 => readMember read q shown columns
    | 2 => readDetail read q shown columns
    | 3 => pure q
    | _ => .error (.fault (.unrecognizedLine shown))

/-- Runs `step` over the lines, up to the first line at which it stops. -/
def run {σ : Type} (step : σ → String → Except Stop σ) :
    σ → List (Nat × String) → Except (Nat × Stop) σ
  | s, [] => .ok s
  | s, (n, line) :: more =>
    match step s line with
    | .ok s => run step s more
    | .error stop => .error (n, stop)

/-- The file of version 2 with the given header and lines. -/
def parseV2 (header : String) (lines : List (Nat × String)) : Except (Nat × Stop) TinyFile :=
  let properties := lines.takeWhile fun (_, line) => isProperty line
  let escaped := properties.any fun (_, line) => Text.trim line == "escaped-names"
  let start : Cursor := ⟨⟨(Text.split '\t' header).drop 3, ∅⟩, none, none⟩
  (run (stepV2 (if escaped then unescape else id)) start (lines.drop properties.length)).map
    (·.file)

/-- The file that a text of either version writes. -/
def parse (text : String) : Except (Nat × Stop) TinyFile :=
  match Text.numberedLines text with
  | (_, header) :: lines =>
    if Text.startsWith header "tiny\t2\t" then parseV2 header lines
    else if Text.startsWith header "v1\t" then
      run stepV1 ⟨(Text.split '\t' header).drop 1, ∅⟩ lines
    else .error (1, .fault .noTinyHeader)
  | [] => .error (1, .fault .noTinyHeader)

-- ---------------------------------------------------------------------------
-- One line
-- ---------------------------------------------------------------------------

/-- One reader does what the other one does. It stops at a fault that is reported, or behind an end
where the other one finds no name for a class, and never for want of a class or a member. -/
inductive Follows {σ τ : Type} (R : σ → τ → Prop) : Except Stop σ → Except LineFault τ → Prop where
  | ok {s : σ} {t : τ} : R s t → Follows R (.ok s) (.ok t)
  | fault {fault : LineFault} : fault ≠ .detailOutsideClass → fault ≠ .namelessClass →
      Follows R (.error (.fault fault)) (.error fault)
  | outOfRange : Follows R (.error .outOfRange) (.error .namelessClass)

/-- The last member is the last one of its kind in the class under which it was put. -/
structure InRange (q : Cursor) : Prop where
  place : ∀ kind i, q.member = some (kind, i) → ∃ owner c, q.owner = some owner ∧
    q.file.classes.get? owner = some c ∧ (members c kind).length = i + 1

/-- A cursor in range stands for a progress. -/
def Stands (q : Cursor) (p : Progress) : Prop := q.progress = p ∧ InRange q

variable {q : Cursor} {file : TinyFile} {c : ClassEntry} {kind : MemberKind} {m : Tiny.Member}
  {read : String → String} {line : String} {columns : List String}

theorem stands (h : q.member = none) : Stands q q.progress := by
  refine ⟨rfl, ⟨fun kind i hMember => ?_⟩⟩
  rw [h] at hMember
  cases hMember

theorem Follows.unrecognized {σ τ : Type} {R : σ → τ → Prop} :
    Follows R (.error (.fault (.unrecognizedLine line))) (.error (.unrecognizedLine line)) :=
  .fault nofun nofun

theorem members_push : members (c.push kind m) kind = members c kind ++ [m] := by
  cases kind <;> rfl

theorem length_members_setMember (i : Nat) :
    (members (setMember c kind i m) kind).length = (members c kind).length := by
  cases kind <;> exact List.length_set

/-- The last member is changed at its place. -/
theorem setMember_eq_changeLast {f : Tiny.Member → Tiny.Member} {i : Nat}
    (hLast : (members c kind).length = i + 1) (hMember : (members c kind)[i]? = some m) :
    setMember c kind i (f m) = c.changeLast kind f := by
  have hModify : (members c kind).set i (f m) = Tiny.changeLast f (members c kind) := by
    rw [Tiny.changeLast, hLast, Nat.add_sub_cancel, List.modify_eq_set_getElem?, hMember]
    rfl
  cases kind with
  | field => exact congrArg (fun l => { c with fields := l }) hModify
  | method => exact congrArg (fun l => { c with methods := l }) hModify

theorem editMember_follows (hPlace : InRange q) (f : Tiny.Member → Tiny.Member) :
    Follows Stands (editMember q f) (q.progress.editMember f) := by
  obtain ⟨file, owner, member⟩ := q
  cases member with
  | none => cases owner <;> exact .fault nofun nofun
  | some place =>
    obtain ⟨kind, i⟩ := place
    obtain ⟨name, c, hOwner, hClass, hLast⟩ := hPlace.place kind i rfl
    obtain rfl : owner = some name := hOwner
    have hThere : file.classes.get? name = some c := hClass
    obtain ⟨m, hMember⟩ : ∃ m, (members c kind)[i]? = some m :=
      ⟨_, List.getElem?_eq_getElem (by omega)⟩
    have hEdit : editMember ⟨file, some name, some (kind, i)⟩ f =
        .ok ⟨list file name (setMember c kind i (f m)), some name, some (kind, i)⟩ := by
      simp only [editMember, hThere, hMember]
    rw [hEdit]
    refine .ok ⟨?_, ⟨?_⟩⟩
    · rw [setMember_eq_changeLast hLast hMember, ← Option.getD_some (a := c), ← hThere]
      rfl
    · rintro _ _ ⟨⟩
      refine ⟨name, _, rfl, (OrderedMap.get?_insert ..).trans (if_pos rfl), ?_⟩
      rw [length_members_setMember, hLast]

theorem readClass_follows : Follows Stands (readClass read q line columns)
    (TinyFile.readClass read q.progress line columns) := by
  -- one reader is opened at a time, as `split` may take both at once
  generalize hNext : TinyFile.readClass read q.progress line columns = next
  unfold readClass
  split <;> subst hNext
  · rename_i names
    show Follows Stands (if names.length = q.file.width then _ else _)
      (if names.length = q.file.width then _ else _)
    split
    · cases names with
      | nil => exact .outOfRange
      | cons name more => exact .ok (stands rfl)
    · exact .unrecognized
  · rename_i hOther
    unfold TinyFile.readClass
    split
    · exact absurd rfl (hOther _)
    · exact .unrecognized

theorem readEntry_follows : Follows Stands (readEntry q kind m) (match q.owner with
    | some owner => .ok { q.progress with
        file := q.file.editClass owner (·.push kind m)
        member := some kind }
    | none => .error .memberOutsideClass) := by
  obtain ⟨file, owner, member⟩ := q
  cases owner with
  | none => exact .fault nofun nofun
  | some owner =>
    have hPlace : lastPlace (members ((listed file owner).push kind m) kind) =
        .ok (members (listed file owner) kind).length := by
      rw [lastPlace, members_push, List.length_append, List.length_singleton]
    have hEntry : readEntry ⟨file, some owner, member⟩ kind m =
        .ok ⟨list file owner ((listed file owner).push kind m), some owner,
          some (kind, (members (listed file owner) kind).length)⟩ := by
      simp only [readEntry, hPlace]
      rfl
    rw [hEntry]
    refine .ok ⟨rfl, ⟨?_⟩⟩
    rintro _ _ ⟨⟩
    refine ⟨owner, _, rfl, (OrderedMap.get?_insert ..).trans (if_pos rfl), ?_⟩
    rw [members_push, List.length_append, List.length_singleton]

theorem readComment_follows : Follows Stands (readComment q line columns)
    (match columns, q.owner with
      | ["c", text], some owner => .ok { q.progress with
          file := q.file.editClass owner fun c => { c with javadoc := some (unescape text) }
          member := none }
      | ["c", _], none => .error .commentOutsideClass
      | _, _ => .error (.unrecognizedLine line)) := by
  unfold readComment
  split
  · exact .ok (stands rfl)
  · exact .fault nofun nofun
  · exact .unrecognized

theorem readMember_follows : Follows Stands (readMember read q line columns)
    (TinyFile.readMember read q.progress line columns) := by
  generalize hNext : TinyFile.readMember read q.progress line columns = next
  unfold readMember
  split <;> subst hNext
  · rename_i descriptor names
    show Follows Stands (if names.length = q.file.width then _ else _)
      (if names.length = q.file.width then _ else _)
    split
    · exact readEntry_follows
    · exact readComment_follows
  · rename_i descriptor names
    show Follows Stands (if names.length = q.file.width then _ else _)
      (if names.length = q.file.width then _ else _)
    split
    · exact readEntry_follows
    · exact readComment_follows
  · rename_i hField hMethod
    generalize hComment : readComment q line columns = comment
    unfold TinyFile.readMember
    dsimp only
    split <;> subst hComment
    · exact absurd rfl (hField _ _)
    · exact absurd rfl (hMethod _ _)
    · exact readComment_follows

theorem readDetail_follows (hPlace : InRange q) : Follows Stands (readDetail read q line columns)
    (TinyFile.readDetail read q.progress line columns) := by
  generalize hNext : TinyFile.readDetail read q.progress line columns = next
  unfold readDetail
  split <;> subst hNext
  · exact editMember_follows hPlace _
  · rename_i index names
    show Follows Stands (if names.length = q.file.width then _ else _)
      (if names.length = q.file.width then _ else _)
    split
    · cases hSlot : slot index with
      | ok i => exact editMember_follows hPlace _
      | error fault =>
        obtain rfl := slot_eq_error hSlot
        exact .fault nofun nofun
    · exact .unrecognized
  · exact .ok ⟨rfl, hPlace⟩
  · rename_i hComment hParameter hVariable
    unfold TinyFile.readDetail
    split
    · exact absurd rfl (hComment _)
    · exact absurd rfl (hParameter _ _)
    · exact absurd rfl (hVariable _)
    · exact .unrecognized

/-- A line is cut behind its tabs. -/
theorem behind_tabs (text : List Char) :
    behind (text.takeWhile (· == '\t')).length text = .ok (text.dropWhile (· == '\t')) := by
  induction text with
  | nil => rfl
  | cons c rest ih =>
    cases hTab : c == '\t' with
    | false =>
      rw [List.takeWhile_cons_of_neg (by rw [hTab]; decide),
        List.dropWhile_cons_of_neg (by rw [hTab]; decide)]
      rfl
    | true =>
      have hSize : c.utf8Size = 1 := by
        rw [eq_of_beq hTab]
        rfl
      rw [List.takeWhile_cons_of_pos (p := (· == '\t')) hTab,
        List.dropWhile_cons_of_pos (p := (· == '\t')) hTab, List.length_cons, behind, hSize,
        if_pos (by omega), Nat.add_sub_cancel, ih]

/-- **One line**: both readers do the same, and the cursor stays in range. -/
theorem stepV2_follows (hPlace : InRange q) :
    Follows Stands (stepV2 read q line) (TinyFile.stepV2 read q.progress line) := by
  unfold stepV2 TinyFile.stepV2
  split
  · exact .ok ⟨rfl, hPlace⟩
  · dsimp only
    rw [behind_tabs]
    dsimp only [bind, Except.bind]
    obtain _ | _ | _ | _ | depth := (line.toList.takeWhile (· == '\t')).length
    · exact readClass_follows
    · exact readMember_follows
    · exact readDetail_follows hPlace
    · exact .ok ⟨rfl, hPlace⟩
    · exact .unrecognized

/-- A file of version 1 has a namespace, so that class lines have a name. -/
def Named (file file' : TinyFile) : Prop := file = file' ∧ 0 < file.width

theorem stepV1_follows (hWidth : 0 < file.width) :
    Follows Named (stepV1 file line) (TinyFile.stepV1 file line) := by
  generalize hNext : TinyFile.stepV1 file line = next
  unfold stepV1
  split
  · rename_i hSkip
    rw [← hNext, TinyFile.stepV1, if_pos hSkip]
    exact .ok ⟨rfl, hWidth⟩
  rename_i hRead
  rw [TinyFile.stepV1, if_neg hRead] at hNext
  generalize Text.split '\t' line = columns at hNext ⊢
  split <;> subst hNext
  · rename_i names
    cases names with
    | nil =>
      have hNot : ¬ ([] : List String).length = file.width := Nat.ne_of_lt hWidth
      rw [if_neg hNot]
      exact .unrecognized
    | cons name more =>
      show Follows Named (if (name :: more).length = file.width then _ else _)
        (if (name :: more).length = file.width then _ else _)
      split
      · exact .ok ⟨rfl, hWidth⟩
      · exact .unrecognized
  · rename_i keyword owner descriptor names hClass
    simp only
    generalize (if keyword = "FIELD" then some MemberKind.field
      else if keyword = "METHOD" then some .method else none) = kind
    cases kind with
    | none => exact .unrecognized
    | some kind =>
      dsimp only
      split
      · exact .ok ⟨rfl, hWidth⟩
      · exact .unrecognized
  · rename_i hClass hMember
    split
    · exact (hClass _ rfl).elim
    · exact (hMember _ _ _ _ rfl).elim
    · exact .unrecognized

-- ---------------------------------------------------------------------------
-- Runs
-- ---------------------------------------------------------------------------

/-- One reader does in a run what the other one does. -/
inductive FollowsRun {σ τ : Type} (R : σ → τ → Prop) :
    Except (Nat × Stop) σ → Except MappingFault τ → Prop where
  | ok {s : σ} {t : τ} : R s t → FollowsRun R (.ok s) (.ok t)
  | fault {n : Nat} {fault : LineFault} : fault ≠ .detailOutsideClass → fault ≠ .namelessClass →
      FollowsRun R (.error (n, .fault fault)) (.error (.atLine n fault))
  | outOfRange {n : Nat} :
      FollowsRun R (.error (n, .outOfRange)) (.error (.atLine n .namelessClass))

section Runs

variable {σ τ : Type} {R : σ → τ → Prop} {s : σ} {t : τ}

/-- **A run** keeps what every line keeps. -/
theorem run_follows {step : σ → String → Except Stop σ} {step' : τ → String → Except LineFault τ}
    (hStep : ∀ s t line, R s t → Follows R (step s line) (step' t line)) (hStart : R s t)
    (lines : List (Nat × String)) : FollowsRun R (run step s lines) (readLines step' t lines) := by
  induction lines generalizing s t with
  | nil => exact .ok hStart
  | cons e more ih =>
    have hLine := hStep s t e.2 hStart
    rw [run, readLines]
    generalize step s e.2 = next at hLine ⊢
    generalize step' t e.2 = next' at hLine ⊢
    cases hLine with
    | ok hNext => exact ih hNext
    | fault hClass hName => exact .fault hClass hName
    | outOfRange => exact .outOfRange

theorem FollowsRun.map {σ' τ' : Type} {R' : σ' → τ' → Prop} {f : σ → σ'} {g : τ → τ'}
    {r : Except (Nat × Stop) σ} {r' : Except MappingFault τ} (h : FollowsRun R r r')
    (hMap : ∀ s t, R s t → R' (f s) (g t)) : FollowsRun R' (r.map f) (r'.map g) := by
  cases h with
  | ok h => exact .ok (hMap _ _ h)
  | fault hClass hName => exact .fault hClass hName
  | outOfRange => exact .outOfRange

theorem FollowsRun.imp {R' : σ → τ → Prop} {r : Except (Nat × Stop) σ} {r' : Except MappingFault τ}
    (h : FollowsRun R r r') (hImp : ∀ s t, R s t → R' s t) : FollowsRun R' r r' := by
  cases h with
  | ok h => exact .ok (hImp _ _ h)
  | fault hClass hName => exact .fault hClass hName
  | outOfRange => exact .outOfRange

end Runs

/-- The header of version 1 has a column behind the first one. -/
theorem width_headerV1 {header : String} (h : Text.startsWith header "v1\t" = true) :
    0 < ((Text.split '\t' header).drop 1).length := by
  obtain ⟨rest, hHeader⟩ := Text.startsWith_iff.1 h
  have hCut : header.toList = ['v', '1'] ++ '\t' :: rest := hHeader.symm
  have hSome := List.length_pos_iff.2 (Text.pieces_ne_nil '\t' rest)
  rw [Text.split, hCut, Text.pieces_append_cons (by decide), List.map_cons, List.drop_succ_cons,
    List.drop_zero, List.length_map]
  exact hSome

/-- **A text**: both readers do the same. -/
theorem parse_follows (text : String) : FollowsRun Eq (parse text) (TinyFile.parse text) := by
  unfold parse TinyFile.parse
  generalize Text.numberedLines text = numbered
  obtain _ | ⟨⟨n, header⟩, lines⟩ := numbered
  · exact .fault nofun nofun
  dsimp only
  split
  · have hStart : Stands ⟨⟨(Text.split '\t' header).drop 3, ∅⟩, none, none⟩
      ⟨⟨(Text.split '\t' header).drop 3, ∅⟩, none, none⟩ := stands rfl
    refine (run_follows (fun q p line h => ?_) hStart _).map fun q p h => ?_
    · obtain ⟨rfl, hPlace⟩ := h
      exact stepV2_follows hPlace
    · obtain ⟨rfl, -⟩ := h
      rfl
  split
  · rename_i hHeader
    have hStart : Named ⟨(Text.split '\t' header).drop 1, ∅⟩
      ⟨(Text.split '\t' header).drop 1, ∅⟩ := ⟨rfl, width_headerV1 hHeader⟩
    refine (run_follows (fun file file' line h => ?_) hStart _).imp fun file file' h => h.1
    obtain ⟨rfl, hWidth⟩ := h
    exact stepV1_follows hWidth
  · exact .fault nofun nofun

end Places

-- ---------------------------------------------------------------------------
-- Where a text leads behind the end
-- ---------------------------------------------------------------------------

/-- How many tabs a line starts with. -/
def depth (line : String) : Nat := (line.toList.takeWhile (· == '\t')).length

/-- The columns of a line behind its tabs. -/
def columnsOf (line : String) : List String :=
  Text.split '\t' (String.ofList (line.toList.dropWhile (· == '\t')))

/-- A line that says nothing, wherever it stands: a blank one, a local variable, or a line under a
local variable. -/
def IsSilent (line : String) : Prop :=
  Text.isBlankText line = true ∨ depth line = 2 ∧ (columnsOf line).head? = some "v" ∨
    depth line = 3

/-- At line `n` a class is listed in a text of version 2 that has no namespaces, so that nothing
stands where its name should. Only properties and silent lines can stand before. -/
def BreaksOff (text : String) (n : Nat) : Prop :=
  ∃ header lines before after, Text.numberedLines text = (1, header) :: lines ∧
    Text.startsWith header "tiny\t2\t" = true ∧ (Text.split '\t' header).length ≤ 3 ∧
    lines.dropWhile (isProperty ·.2) = before ++ (n, "c") :: after ∧ ∀ e ∈ before, IsSilent e.2

section Breaks

variable {read : String → String} {p q : Progress} {line : String} {columns : List String}

theorem readClass_eq_namelessClass :
    readClass read p line columns = .error .namelessClass ↔ p.file.width = 0 ∧ columns = ["c"] := by
  unfold readClass
  split
  · rename_i names
    cases names with
    | nil =>
      simp only [List.length_nil, List.map_nil, and_true, eq_comm (a := 0)]
      split <;> simp_all
    | cons name more =>
      simp only [List.map_cons]
      split <;> simp
  · rename_i hOther
    refine ⟨nofun, fun h => absurd h.2 (hOther [])⟩

theorem readMember_ne_namelessClass : readMember read p line columns ≠ .error .namelessClass := by
  obtain ⟨owner, edit, member, -, -, hOk⟩ | ⟨fault, hFault, hError⟩ :=
    readMember_cases read p line columns
  · rw [hOk]
    nofun
  · rw [hError, ne_eq, Except.error.injEq]
    rintro rfl
    simp at hFault

theorem readDetail_ne_namelessClass : readDetail read p line columns ≠ .error .namelessClass := by
  obtain ⟨owner, edit, -, -, hOk⟩ | ⟨-, hOk⟩ | ⟨fault, hFault, hError⟩ :=
    readDetail_cases read p line columns
  · rw [hOk]
    nofun
  · rw [hOk]
    nofun
  · rw [hError, ne_eq, Except.error.injEq]
    rintro rfl
    simp at hFault

theorem columnsOf_eq_class (hDepth : depth line = 0) : columnsOf line = ["c"] ↔ line = "c" := by
  have hTabs : line.toList.takeWhile (· == '\t') = [] := List.length_eq_zero_iff.1 hDepth
  have hWhole : line.toList.dropWhile (· == '\t') = line.toList := by
    rw [← List.nil_append (line.toList.dropWhile _), ← hTabs, List.takeWhile_append_dropWhile]
  rw [columnsOf, hWhole, String.ofList_toList, Text.split_eq_singleton]
  exact and_iff_left (by decide)

/-- **The one line that leads behind the end**: a class line, where there are no namespaces. -/
theorem stepV2_eq_namelessClass :
    stepV2 read p line = .error .namelessClass ↔ p.file.width = 0 ∧ line = "c" := by
  have hLine : line = "c" → depth line = 0 := fun h => h ▸ rfl
  unfold stepV2
  split
  · rename_i hBlank
    refine ⟨nofun, fun h => ?_⟩
    rw [h.2] at hBlank
    exact absurd hBlank (by decide)
  dsimp only
  split
  · rename_i hDepth
    exact readClass_eq_namelessClass.trans (and_congr_right fun _ => columnsOf_eq_class hDepth)
  · rename_i hDepth
    exact ⟨fun h => absurd h readMember_ne_namelessClass,
      fun h => absurd (hDepth.symm.trans (hLine h.2)) (by decide)⟩
  · rename_i hDepth
    exact ⟨fun h => absurd h readDetail_ne_namelessClass,
      fun h => absurd (hDepth.symm.trans (hLine h.2)) (by decide)⟩
  · rename_i hDepth
    exact ⟨nofun, fun h => absurd (hDepth.symm.trans (hLine h.2)) (by decide)⟩
  · rename_i hNotZero _ _ _
    exact ⟨nofun, fun h => absurd (hLine h.2) hNotZero⟩

theorem readClass_ne_ok (hWidth : p.file.width = 0) : readClass read p line columns ≠ .ok q := by
  unfold readClass
  split
  · split
    · rename_i names hNames
      rw [hWidth, List.length_eq_zero_iff] at hNames
      subst hNames
      nofun
    · nofun
  · nofun

theorem readMember_ne_ok (hOwner : p.owner = none) : readMember read p line columns ≠ .ok q := by
  obtain ⟨owner, edit, member, hSome, -, -⟩ | ⟨fault, -, hError⟩ :=
    readMember_cases read p line columns
  · cases hOwner.symm.trans hSome
  · rw [hError]
    nofun

theorem readDetail_eq_ok (hOwner : p.owner = none) :
    readDetail read p line columns = .ok q ↔ columns.head? = some "v" ∧ q = p := by
  constructor
  · intro hOk
    obtain ⟨owner, edit, hSome, -, -⟩ | ⟨hVariable, hKeep⟩ | ⟨fault, -, hError⟩ :=
      readDetail_cases read p line columns
    · cases hOwner.symm.trans hSome
    · exact ⟨hVariable, Except.ok.inj (hOk.symm.trans hKeep)⟩
    · cases hOk.symm.trans hError
  · rintro ⟨hVariable, rfl⟩
    obtain ⟨more, rfl⟩ := List.head?_eq_some_iff.1 hVariable
    rfl

/-- Outside a class, in a text without namespaces, a line is read only if it says nothing. -/
theorem stepV2_eq_ok_iff_isSilent (hWidth : p.file.width = 0) (hOwner : p.owner = none) :
    stepV2 read p line = .ok q ↔ IsSilent line ∧ q = p := by
  have hKeep : Except.ok (ε := LineFault) p = .ok q ↔ q = p := by
    rw [Except.ok.injEq, eq_comm]
  unfold stepV2 IsSilent
  split
  · rename_i hBlank
    rw [hKeep, and_iff_right (.inl hBlank)]
  rename_i hInk
  rw [or_iff_right hInk]
  dsimp only
  rw [← depth]
  split
  · rename_i hDepth
    exact ⟨fun h => absurd h (readClass_ne_ok hWidth), fun h => by omega⟩
  · rename_i hDepth
    exact ⟨fun h => absurd h (readMember_ne_ok hOwner), fun h => by omega⟩
  · rename_i hDepth
    rw [readDetail_eq_ok hOwner, hDepth, and_iff_right rfl, or_iff_left (by decide)]
    rfl
  · rename_i hDepth
    rw [hKeep, hDepth, and_iff_right (.inr rfl)]
  · rename_i hNotTwo hNotThree
    refine ⟨nofun, fun h => ?_⟩
    obtain ⟨⟨hTwo, -⟩ | hThree, -⟩ := h
    · exact (hNotTwo hTwo).elim
    · exact (hNotThree hThree).elim

/-- **A run** of a text without namespaces. -/
theorem readLines_eq_namelessClass {lines : List (Nat × String)} {n : Nat}
    (hWidth : p.file.width = 0) (hOwner : p.owner = none) :
    readLines (stepV2 read) p lines = .error (.atLine n .namelessClass) ↔
      ∃ before after, lines = before ++ (n, "c") :: after ∧ ∀ e ∈ before, IsSilent e.2 := by
  induction lines with
  | nil =>
    refine ⟨nofun, ?_⟩
    rintro ⟨before, after, hLines, -⟩
    exact absurd hLines.symm (List.append_ne_nil_of_right_ne_nil before (List.cons_ne_nil _ _))
  | cons e more ih =>
    obtain ⟨k, line⟩ := e
    rw [readLines]
    cases hStep : stepV2 read p line with
    | ok next =>
      obtain ⟨hSilent, rfl⟩ := (stepV2_eq_ok_iff_isSilent hWidth hOwner).1 hStep
      refine ih.trans ⟨?_, ?_⟩
      · rintro ⟨before, after, rfl, hBefore⟩
        exact ⟨(k, line) :: before, after, rfl, List.forall_mem_cons.2 ⟨hSilent, hBefore⟩⟩
      · rintro ⟨_ | ⟨e, before⟩, after, hLines, hBefore⟩
        · obtain ⟨⟨rfl, rfl⟩, -⟩ := List.cons.inj hLines
          rw [stepV2_eq_namelessClass.2 ⟨hWidth, rfl⟩] at hStep
          cases hStep
        · exact ⟨before, after, (List.cons.inj hLines).2, (List.forall_mem_cons.1 hBefore).2⟩
    | error fault =>
      constructor
      · rintro ⟨⟩
        obtain ⟨-, rfl⟩ := stepV2_eq_namelessClass.1 hStep
        exact ⟨[], more, rfl, List.forall_mem_nil _⟩
      · rintro ⟨_ | ⟨e, before⟩, after, hLines, hBefore⟩
        · obtain ⟨⟨rfl, rfl⟩, -⟩ := List.cons.inj hLines
          rw [stepV2_eq_namelessClass.2 ⟨hWidth, rfl⟩] at hStep
          cases hStep
          rfl
        · obtain ⟨rfl, -⟩ := List.cons.inj hLines
          have hSilent := (List.forall_mem_cons.1 hBefore).1
          rw [(stepV2_eq_ok_iff_isSilent hWidth hOwner).2 ⟨hSilent, rfl⟩] at hStep
          cases hStep

theorem stepV1_ne_namelessClass {file : TinyFile} : file.stepV1 line ≠ .error .namelessClass := by
  unfold stepV1
  split
  · nofun
  split
  · split
    · split <;> nofun
    · nofun
  · dsimp only
    split
    · split <;> nofun
    · nofun
  · nofun

theorem parseV2_eq_namelessClass {header : String} {lines : List (Nat × String)} {n : Nat} :
    parseV2 header lines = .error (.atLine n .namelessClass) ↔
      (Text.split '\t' header).length ≤ 3 ∧ ∃ before after,
        lines.dropWhile (isProperty ·.2) = before ++ (n, "c") :: after ∧
          ∀ e ∈ before, IsSilent e.2 := by
  have hNames : ((Text.split '\t' header).drop 3).length = 0 ↔
      (Text.split '\t' header).length ≤ 3 := by
    rw [List.length_drop]
    omega
  unfold parseV2
  extract_lets properties escaped start
  have hRest : lines.drop properties.length = lines.dropWhile (isProperty ·.2) :=
    drop_length_takeWhile _ lines
  rw [Outcome.map_error_iff, hRest, ← hNames]
  by_cases hWidth : ((Text.split '\t' header).drop 3).length = 0
  · rw [and_iff_right hWidth]
    exact readLines_eq_namelessClass hWidth rfl
  · refine ⟨fun h => absurd h ?_, fun h => absurd h.1 hWidth⟩
    have hKeeps (s : Progress) (line : String) (t : Progress) (h : s.file.width ≠ 0)
        (hStep : stepV2 (if escaped then unescape else id) s line = .ok t) : t.file.width ≠ 0 := by
      rwa [width, (revision_stepV2 hStep).namespaces]
    exact readLines_ne_error hKeeps (fun s line h hStep => h (stepV2_eq_namelessClass.1 hStep).1)
      hWidth

/-- **A text** that leads behind the end. -/
theorem parse_eq_namelessClass {text : String} {n : Nat} :
    parse text = .error (.atLine n .namelessClass) ↔ BreaksOff text n := by
  unfold parse BreaksOff
  rw [Text.numberedLines]
  cases Text.lines text with
  | nil =>
    constructor
    · rintro ⟨⟩
    · rintro ⟨_, _, _, _, ⟨⟩, _⟩
  | cons header more =>
    rw [Text.numberFrom]
    generalize Text.numberFrom 2 more = lines
    dsimp only
    split
    · rename_i hVersion
      rw [parseV2_eq_namelessClass]
      constructor
      · rintro ⟨hNames, before, after, hLines, hBefore⟩
        exact ⟨header, lines, before, after, rfl, hVersion, hNames, hLines, hBefore⟩
      · rintro ⟨_, _, before, after, ⟨⟩, -, hNames, hLines, hBefore⟩
        exact ⟨hNames, before, after, hLines, hBefore⟩
    · rename_i hOther
      refine ⟨fun h => ?_, ?_⟩
      · split at h
        · exact absurd h (readLines_ne_error (P := fun _ => True) (fun _ _ _ _ _ => trivial)
            (fun _ _ _ => stepV1_ne_namelessClass) trivial)
        · cases h
      · rintro ⟨_, _, _, _, ⟨⟩, hVersion, _⟩
        exact absurd hVersion hOther

end Breaks

-- ---------------------------------------------------------------------------
-- Where texts and files lead
-- ---------------------------------------------------------------------------

theorem indexOf_eq_error {file : TinyFile} {name : String} (hMem : name ∉ file.namespaces) :
    file.indexOf name = .error (.unknownNamespace name file.namespaces) := by
  have hFind : file.namespaces.findIdx? (· == name) = none := by
    rw [List.findIdx?_eq_none_iff]
    exact fun other hOther => beq_eq_false_iff_ne.2 fun hSame => hMem (hSame ▸ hOther)
  rw [indexOf, hFind]

/-- **A projection** fails only for a namespace that the file does not have. -/
theorem toMappingSet_cases (file : TinyFile) (source target : String) :
    (source ∈ file.namespaces ∧ target ∈ file.namespaces ∧
      ∃ set, file.toMappingSet source target = .ok set) ∨
    ∃ name ∈ [source, target], name ∉ file.namespaces ∧
      file.toMappingSet source target = .error (.unknownNamespace name file.namespaces) := by
  by_cases hSource : source ∈ file.namespaces
  · obtain ⟨i, -, hFirst⟩ := exists_indexOf hSource
    by_cases hTarget : target ∈ file.namespaces
    · obtain ⟨j, -, hSecond⟩ := exists_indexOf hTarget
      exact .inl ⟨hSource, hTarget, _, toMappingSet_eq_ok hFirst hSecond⟩
    · refine .inr ⟨target, by simp, hTarget, ?_⟩
      rw [toMappingSet, hFirst, indexOf_eq_error hTarget]
      rfl
  · refine .inr ⟨source, by simp, hSource, ?_⟩
    rw [toMappingSet, indexOf_eq_error hSource]
    rfl

/-- **Every place that is read is there, but for one.** Reading by places gives the file that the
text writes, or stops at a fault that is reported for the line. The class and the member of a detail
are always found. A place behind an end is met exactly where a class is listed in a text without
namespaces. A file has a projection unless one of the two namespaces is unknown. -/
theorem parse_inRange (text : String) :
    ((∃ file, Places.parse text = .ok file ∧ parse text = .ok file) ∨
      (∃ n fault, Places.parse text = .error (n, .fault fault) ∧
        parse text = .error (.atLine n fault) ∧ fault ≠ .detailOutsideClass ∧
        fault ≠ .namelessClass) ∨
      ∃ n, Places.parse text = .error (n, .outOfRange) ∧ BreaksOff text n) ∧
    (∀ n, Places.parse text = .error (n, .outOfRange) ↔ BreaksOff text n) ∧
    ∀ (file : TinyFile) (source target : String),
      (source ∈ file.namespaces ∧ target ∈ file.namespaces ∧
        ∃ set, file.toMappingSet source target = .ok set) ∨
      ∃ name ∈ [source, target], name ∉ file.namespaces ∧
        file.toMappingSet source target = .error (.unknownNamespace name file.namespaces) := by
  have hText := Places.parse_follows text
  refine ⟨?_, fun n => ?_, toMappingSet_cases⟩
  all_goals
    simp only [← parse_eq_namelessClass]
    generalize Places.parse text = run at hText ⊢
    generalize parse text = result at hText ⊢
  · cases hText with
    | @ok file _ hSame => exact .inl ⟨file, rfl, congrArg _ hSame.symm⟩
    | fault hClass hName => exact .inr (.inl ⟨_, _, rfl, rfl, hClass, hName⟩)
    | outOfRange => exact .inr (.inr ⟨_, rfl, rfl⟩)
  · cases hText with
    | ok => exact ⟨nofun, nofun⟩
    | fault hClass hName =>
      refine ⟨nofun, fun h => ?_⟩
      cases h
      exact absurd rfl hName
    | outOfRange =>
      constructor <;> rintro ⟨⟩ <;> rfl

theorem parse_inRange_nameless :
    Places.parse "tiny\t2\t0\nc\n" = .error (2, .outOfRange) ∧
      parse "tiny\t2\t0\nc\n" = .error (.atLine 2 .namelessClass) := by
  have hBreaks : BreaksOff "tiny\t2\t0\nc\n" 2 :=
    ⟨"tiny\t2\t0", [(2, "c")], [], [], by decide, by decide, by decide, by decide, nofun⟩
  exact ⟨((parse_inRange _).2.1 2).2 hBreaks, parse_eq_namelessClass.2 hBreaks⟩

end Jarsmith.TinyFile
