import Jarsmith.Proofs.Jar.FixedNames

/-!
# Tables of local variables that agree

A method body lists its local variables in one table, and those with a generic type in another one.
The rows of both are told apart by their slot and their first instruction, and a row of the type
table has the name of the local variable of its key. A renaming and a fix go through the two tables
one after the other, and take from the first to the second only which keys got which names. The
tables agree behind them.

* `LocalNames.TablesAgree`, `LocalNames.LocalsAgree` — tables that agree.
* `LocalNames.Told`, `LocalNames.TablesAgree.later` — names that are told under the keys of their
  rows, and the rows of another table that follow them.
* `ClassRemapping.remapCode_agree`, `LocalNames.fixMethod_agree` — the renaming of a body and the
  fix of a method.
* `LocalNames.tables_stay_in_agreement` — what a renaming and a fix keep.
-/

namespace Jarsmith

open Outcome
open Pool (Yields Grows Keeps Lasting yields_bind yields_pure yields_liftM)

/-- What tells the rows of a table of local variables apart. -/
abbrev LocalVariable.key (v : LocalVariable) : UInt16 × UInt16 := (v.slot, v.start)

namespace LocalNames

variable {p q : Pool} {plain plain' types types' rows rows' : List LocalVariable}
  {renamed : Renamed} {isNew : LocalVariable → Prop} {l l' : List Attribute} {name : String}

-- ---------------------------------------------------------------------------
-- Rows under one key
-- ---------------------------------------------------------------------------

/-- Two indices lead to one name. -/
def SameName (pool : Pool) (i j : UInt16) : Prop :=
  i = j ∨ ∃ text, pool.text i = .ok text ∧ pool.text j = .ok text

/-- No table has two rows of one key, and every row of the type table has the name of the local
variable of its key. -/
structure TablesAgree (pool : Pool) (plain types : List LocalVariable) : Prop where
  plainOnce : (plain.map (·.key)).Nodup
  typesOnce : (types.map (·.key)).Nodup
  named : ∀ t ∈ types, ∃ v ∈ plain, v.key = t.key ∧ SameName pool v.name t.name

/-- Rows that keep their keys, and of which those that are new get names. Each new name is told
under the key of its row. -/
inductive Told (isNew : LocalVariable → Prop) :
    List LocalVariable → List LocalVariable → Renamed → Prop where
  | nil : Told isNew [] [] []
  | kept {v v' : LocalVariable} {rows rows' : List LocalVariable} {renamed : Renamed}
      (hOld : ¬ isNew v) (hKey : v'.key = v.key) (hName : v'.name = v.name)
      (hMore : Told isNew rows rows' renamed) : Told isNew (v :: rows) (v' :: rows') renamed
  | given {v v' : LocalVariable} {rows rows' : List LocalVariable} {renamed : Renamed}
      (hNew : isNew v) (hKey : v'.key = v.key) (hMore : Told isNew rows rows' renamed) :
      Told isNew (v :: rows) (v' :: rows') ((v'.key, v'.name) :: renamed)

/-- A row of another table takes the name that is told of its key, if one is. -/
def FollowsTold (renamed : Renamed) (t t' : LocalVariable) : Prop :=
  t'.key = t.key ∧ t'.name = (renamed.lookup t.key).getD t.name

/-- What is told of the key of a row: the name that it has now, unless it kept the one it had. -/
def IsTold (isNew : LocalVariable → Prop) (renamed : Renamed) (v v' : LocalVariable) : Prop :=
  v'.key = v.key ∧ (isNew v ∧ renamed.lookup v.key = some v'.name ∨
    ¬ isNew v ∧ renamed.lookup v.key = none ∧ v'.name = v.name)

theorem map_key_eq {R : LocalVariable → LocalVariable → Prop}
    (hKey : ∀ v v', R v v' → v'.key = v.key) (h : List.Forall₂ R rows rows') :
    rows'.map (·.key) = rows.map (·.key) := by
  induction h with
  | nil => rfl
  | cons hFirst _ ih => rw [List.map_cons, List.map_cons, hKey _ _ hFirst, ih]

theorem Told.map_key (h : Told isNew rows rows' renamed) :
    rows'.map (·.key) = rows.map (·.key) := by
  induction h with
  | nil => rfl
  | kept _ hKey _ _ ih | given _ hKey _ ih => rw [List.map_cons, List.map_cons, hKey, ih]

/-- What is told of another key is no matter. -/
theorem lookup_behind {key other : UInt16 × UInt16} {index : UInt16} (h : key ≠ other) :
    ((other, index) :: renamed).lookup key = renamed.lookup key := by
  rw [List.lookup_cons, beq_eq_false_iff_ne.2 h]

/-- Nothing is told of a key that no row has. -/
theorem Told.lookup_eq_none (h : Told isNew rows rows' renamed) {key : UInt16 × UInt16}
    (hKey : key ∉ rows.map (·.key)) : renamed.lookup key = none := by
  induction h with
  | nil => rfl
  | kept _ _ _ _ ih => exact ih (List.not_mem_of_not_mem_cons hKey)
  | @given v v' _ _ _ _ hSame _ ih =>
    rw [lookup_behind (hSame ▸ List.ne_of_not_mem_cons hKey)]
    exact ih (List.not_mem_of_not_mem_cons hKey)

/-- Where no two rows have one key, the name of each row is what is told of its key. -/
theorem Told.isTold (h : Told isNew rows rows' renamed) (hOnce : (rows.map (·.key)).Nodup) :
    List.Forall₂ (IsTold isNew renamed) rows rows' := by
  induction h with
  | nil => exact .nil
  | kept hOld hKey hName hMore ih =>
    obtain ⟨hHead, hRest⟩ := List.nodup_cons.1 hOnce
    exact .cons ⟨hKey, .inr ⟨hOld, hMore.lookup_eq_none hHead, hName⟩⟩ (ih hRest)
  | @given v v' rows rows' renamed hNew hKey _ ih =>
    obtain ⟨hHead, hRest⟩ := List.nodup_cons.1 hOnce
    refine .cons ⟨hKey, .inl ⟨hNew, by rw [hKey, List.lookup_cons_self]⟩⟩ ?_
    -- the key of a later row is another one, so it is looked up behind the first entry
    have hLater : ∀ w ∈ rows, ((v'.key, v'.name) :: renamed).lookup w.key =
        renamed.lookup w.key := by
      intro w hw
      refine lookup_behind ?_
      rw [hKey]
      exact fun hEq => hHead (List.mem_map.2 ⟨w, hw, hEq⟩)
    refine ((List.forall₂_and_left _ _).2 ⟨hLater, ih hRest⟩).imp fun w w' ⟨hLookup, hTold⟩ => ?_
    unfold IsTold
    rw [hLookup]
    exact hTold

theorem SameName.mono {touched : Nat → Prop} {i j : UInt16} (h : SameName p i j)
    (hKeeps : Keeps touched p q) : SameName q i j :=
  h.imp_right fun ⟨text, hi, hj⟩ => ⟨text, hKeeps.text hi, hKeeps.text hj⟩

/-- The type rows of a key follow the local variable of the key. -/
theorem IsTold.follows {v v' t t' : LocalVariable} (h : IsTold isNew renamed v v')
    (hKey : v.key = t.key) (hFollows : FollowsTold renamed t t') :
    isNew v ∧ t'.name = v'.name ∨ ¬ isNew v ∧ t'.name = t.name ∧ v'.name = v.name := by
  obtain ⟨-, hName⟩ := hFollows
  rw [← hKey] at hName
  obtain ⟨-, ⟨hNew, hLookup⟩ | ⟨hOld, hLookup, hSame⟩⟩ := h
  · rw [hLookup] at hName
    exact .inl ⟨hNew, hName⟩
  · rw [hLookup] at hName
    exact .inr ⟨hOld, hName, hSame⟩

/-- Each type row stands with a local variable of its key, and with what became of that one. -/
theorem TablesAgree.exists_zip (h : TablesAgree p plain types)
    (hAll : List.Forall₂ (IsTold isNew renamed) plain plain') : ∀ t ∈ types, ∃ v v',
      (v, v') ∈ plain.zip plain' ∧ v.key = t.key ∧ SameName p v.name t.name := by
  intro t ht
  obtain ⟨v, hv, hKey, hName⟩ := h.named t ht
  obtain ⟨n, hn⟩ := List.mem_iff_getElem?.1 hv
  have hLength : n < plain'.length := hAll.length_eq ▸ (List.getElem?_eq_some_iff.1 hn).1
  have hZip : (plain.zip plain')[n]? = some (v, plain'[n]) :=
    List.getElem?_zip_eq_some.2 ⟨hn, List.getElem?_eq_getElem hLength⟩
  exact ⟨v, plain'[n], List.mem_of_getElem? hZip, hKey, hName⟩

/-- **Tables agree behind a change** that tells the new names of the local variables, if the type
rows follow what is told. -/
theorem TablesAgree.later {touched : Nat → Prop} (h : TablesAgree p plain types)
    (hKeeps : Keeps touched p q) (hTold : Told isNew plain plain' renamed)
    (hFollows : List.Forall₂ (FollowsTold renamed) types types') : TablesAgree q plain' types' where
  plainOnce := hTold.map_key ▸ h.plainOnce
  typesOnce := map_key_eq (fun _ _ h => h.1) hFollows ▸ h.typesOnce
  named := by
    have hAll := hTold.isTold h.plainOnce
    refine forall_of_forall₂ (h.exists_zip hAll) (fun _ _ => trivial) hFollows ?_
    rintro t t' ⟨v, v', hZip, hKey, hName⟩ - hFollow
    have hIsTold := List.forall₂_zip hAll hZip
    refine ⟨v', (List.of_mem_zip hZip).2, hIsTold.1.trans (hKey.trans hFollow.1.symm), ?_⟩
    obtain ⟨-, hSame⟩ | ⟨-, hType, hPlain⟩ := hIsTold.follows hKey hFollow
    · exact .inl hSame.symm
    · rw [hType, hPlain]
      exact hName.mono hKeeps

-- ---------------------------------------------------------------------------
-- Tables in a body
-- ---------------------------------------------------------------------------

/-- The rows of the first table of a kind, if there is one. -/
def RowsIn (pool : Pool) (l : List Attribute) (kind : String) (rows : List LocalVariable) : Prop :=
  ∃ found, pool.attribute? l kind = .ok found ∧ rowsOf found = .ok rows

/-- Among the attributes of a body there is one table of local variables at most, and one type table
at most, and these agree. -/
structure LocalsAgree (pool : Pool) (l : List Attribute) : Prop where
  plainAlone : AtMostOne pool AttributeName.localVariableTable l
  typesAlone : AtMostOne pool AttributeName.localVariableTypeTable l
  agree : ∃ plain types, RowsIn pool l AttributeName.localVariableTable plain ∧
    RowsIn pool l AttributeName.localVariableTypeTable types ∧ TablesAgree pool plain types

theorem RowsIn.mono {touched : Nat → Prop} {kind : String} (h : RowsIn p l kind rows)
    (hKeeps : Keeps touched p q) : RowsIn q l kind rows :=
  let ⟨found, hFound, hRows⟩ := h
  ⟨found, hKeeps.attribute? hFound, hRows⟩

end LocalNames

-- ---------------------------------------------------------------------------
-- Renaming a body
-- ---------------------------------------------------------------------------

namespace ClassRemapping

open LocalNames

variable {r : ClassRemapping} {method : MemberKey} {p q : Pool} {done done' : RenamedLocals}
  {v v' : LocalVariable} {rows rows' types types' : List LocalVariable} {a a' : Attribute}
  {l l' : List Attribute} {kind : String}

/-- The new name of a local variable: that of the parameter in its slot, if it is there from the
first instruction on. -/
def newName? (r : ClassRemapping) (method : MemberKey) (v : LocalVariable) : Option String :=
  if v.start = 0 then r.remapper.parameter? r.owner method v.slot else none

/-- What has become of a row whose name is that of a local variable. -/
structure RowNamed (r : ClassRemapping) (method : MemberKey) (q : Pool) (v v' : LocalVariable) :
    Prop where
  key : v'.key = v.key
  new : ∀ name, r.newName? method v = some name → q.text v'.name = .ok name
  old : r.newName? method v = none → v'.name = v.name

/-- The rows that get new names. -/
def IsNew (r : ClassRemapping) (method : MemberKey) (v : LocalVariable) : Prop :=
  (r.newName? method v).isSome = true

theorem newName?_eq_of_key {w : LocalVariable} (h : v.key = w.key) :
    r.newName? method v = r.newName? method w := by
  obtain ⟨hSlot, hStart⟩ := Prod.mk.inj h
  rw [newName?, newName?, hSlot, hStart]

/-- A row of the local variable table gets the name of its parameter, and the name is told. -/
theorem remapLocal_named (hp : r.Reached p)
    (h : Yields (r.remapLocal method done v) p (v', done') q) :
    r.Reached q ∧ p.Grows q ∧ Lasting (fun q => r.RowNamed method q v v') q ∧
      done' = if (r.newName? method v).isSome then done ++ [(v'.key, v'.name)] else done := by
  obtain ⟨name, p₁, hRun, h⟩ := yields_bind.1 h
  have hName : Yields (renamed v.name (r.newName? method v)) p name p₁ := hRun
  obtain ⟨hp₁, hGrows₁⟩ := hp.addsNames (addsNames_renamed _ _) hName
  obtain ⟨descriptor, p₂, hDescriptor, h⟩ := yields_bind.1 h
  obtain ⟨hEq, rfl⟩ := yields_pure.1 h
  obtain ⟨rfl, rfl⟩ := Prod.mk.inj hEq
  obtain ⟨hq, hGrows₂, -, -⟩ := descriptorAt_spec hp₁ hDescriptor
  refine ⟨hq, hGrows₁.trans_same hGrows₂,
    fun q' hLater => ⟨rfl, fun text hNew => ?_, fun hOld => ?_⟩, rfl⟩
  · rw [hNew] at hName
    obtain ⟨-, -, hText⟩ := Pool.internText_spec hp.sound hName
    exact (hGrows₂.trans_same hLater).text hText
  · rw [hOld] at hName
    exact (yields_pure.1 hName).1.symm

/-- The names of all new rows are told, in their order. -/
theorem remapLocals_told : ∀ {rows rows' : List LocalVariable} {done done' : RenamedLocals}
    {p q : Pool}, r.Reached p → Yields (r.remapLocals method done rows) p (rows', done') q →
      r.Reached q ∧ p.Grows q ∧
        List.Forall₂ (fun v v' => Lasting (fun q => r.RowNamed method q v v') q) rows rows' ∧
        ∃ told, done' = done ++ told ∧ Told (r.IsNew method) rows rows' told
  | [], rows', done, done', p, q, hp, h => by
    obtain ⟨hEq, rfl⟩ := yields_pure.1 h
    obtain ⟨rfl, rfl⟩ := Prod.mk.inj hEq
    exact ⟨hp, .refl, .nil, [], (List.append_nil _).symm, .nil⟩
  | v :: more, rows', done, done', p, q, hp, h => by
    obtain ⟨⟨v', done₁⟩, p₁, hFirst, h⟩ := yields_bind.1 h
    obtain ⟨⟨more', done₂⟩, p₂, hRest, h⟩ := yields_bind.1 h
    obtain ⟨hEq, rfl⟩ := yields_pure.1 h
    obtain ⟨rfl, rfl⟩ := Prod.mk.inj hEq
    obtain ⟨hp₁, hGrows₁, hNamed, hDone⟩ := remapLocal_named hp hFirst
    obtain ⟨hq, hGrows₂, hAll, told, hTold, hMore⟩ := remapLocals_told hp₁ hRest
    refine ⟨hq, hGrows₁.trans_same hGrows₂, .cons (hNamed.mono hGrows₂) hAll, ?_⟩
    split at hDone
    · rename_i hNew
      exact ⟨_ :: told, by rw [hTold, hDone, List.append_assoc]; rfl,
        .given hNew hNamed.now.key hMore⟩
    · rename_i hOld
      have hName : r.newName? method v = none := by simpa using hOld
      exact ⟨told, by rw [hTold, hDone], .kept hOld hNamed.now.key (hNamed.now.old hName) hMore⟩

/-- A pass over the tables of one kind. -/
abbrev TablePass (r : ClassRemapping) (kind : String)
    (R : List LocalVariable → List LocalVariable → Prop) : Attribute → Attribute → Prop :=
  r.Pass (· = kind) fun _ info info' => ∃ rows rows', LocalVariable.table info = .ok rows ∧
    LocalVariable.table info' = .ok rows' ∧ R rows rows'

/-- What becomes of the rows of the local variable table, if these names are told. -/
def PlainNamed (r : ClassRemapping) (method : MemberKey) (done : RenamedLocals) (q : Pool)
    (rows rows' : List LocalVariable) : Prop :=
  List.Forall₂ (r.RowNamed method q) rows rows' ∧ Told (r.IsNew method) rows rows' done

/-- Without a table of local variables nothing is told. -/
theorem remapLocalTables_none
    (hOther : ∀ a ∈ l, r.source.text a.name ≠ .ok AttributeName.localVariableTable)
    (h : Yields (r.remapLocalTables method done l) p (l', done') q) :
    q = p ∧ done' = done ∧ l' = l ∧ ∀ a ∈ l, ∃ kind,
      r.source.storedText a.name = .ok kind ∧ kind ≠ AttributeName.localVariableTable := by
  induction l generalizing l' with
  | nil =>
    obtain ⟨hEq, rfl⟩ := yields_pure.1 h
    obtain ⟨rfl, rfl⟩ := Prod.mk.inj hEq
    exact ⟨rfl, rfl, rfl, nofun⟩
  | cons a more ih =>
    obtain ⟨hFirst, hMore⟩ := List.forall_mem_cons.1 hOther
    obtain ⟨kind, _, hAsk, h⟩ := yields_bind.1 h
    obtain ⟨hKind, rfl⟩ := yields_liftM.1 hAsk
    have hNot : kind ≠ AttributeName.localVariableTable := by
      rintro rfl
      exact hFirst (Pool.storedText_eq_ok.1 hKind)
    rw [if_neg hNot] at h
    obtain ⟨⟨more', done₂⟩, p₂, hRest, h⟩ := yields_bind.1 h
    obtain ⟨hEq, rfl⟩ := yields_pure.1 h
    obtain ⟨rfl, rfl⟩ := Prod.mk.inj hEq
    obtain ⟨rfl, rfl, rfl, hKinds⟩ := ih hMore hRest
    exact ⟨rfl, rfl, rfl, List.forall_mem_cons.2 ⟨⟨kind, hKind, hNot⟩, hKinds⟩⟩

/-- The pass over the local variable tables, if there is one at most: what is told is told of its
rows. -/
theorem remapLocalTables_told : ∀ {l l' : List Attribute} {done : RenamedLocals} {q : Pool},
    r.Reached p → AtMostOne r.source AttributeName.localVariableTable l →
      Yields (r.remapLocalTables method [] l) p (l', done) q →
        List.Forall₂ (fun a a' => Lasting (fun q =>
          r.TablePass AttributeName.localVariableTable (r.PlainNamed method done q) a a') q) l l' ∧
        ((∀ a ∈ l, r.source.text a.name ≠ .ok AttributeName.localVariableTable) → done = [])
  | [], l', done, q, hp, _, h => by
    obtain ⟨hEq, rfl⟩ := yields_pure.1 h
    obtain ⟨rfl, rfl⟩ := Prod.mk.inj hEq
    exact ⟨.nil, fun _ => rfl⟩
  | a :: more, l', done, q, hp, hAlone, h => by
    obtain ⟨hOthers, hRestAlone⟩ := List.pairwise_cons.1 hAlone
    obtain ⟨kind, _, hAsk, h⟩ := yields_bind.1 h
    obtain ⟨hKind, rfl⟩ := yields_liftM.1 hAsk
    have hText := Pool.storedText_eq_ok.1 hKind
    split at h
    · rename_i hTable
      subst hTable
      obtain ⟨rows, _, hAsk, h⟩ := yields_bind.1 h
      obtain ⟨hRows, rfl⟩ := yields_liftM.1 hAsk
      obtain ⟨⟨rows', done₁⟩, p₁, hLocals, h⟩ := yields_bind.1 h
      obtain ⟨info, _, hAsk, h⟩ := yields_bind.1 h
      obtain ⟨hInfo, rfl⟩ := yields_liftM.1 hAsk
      obtain ⟨⟨more', done₂⟩, p₂, hRest, h⟩ := yields_bind.1 h
      obtain ⟨hEq, rfl⟩ := yields_pure.1 h
      obtain ⟨rfl, rfl⟩ := Prod.mk.inj hEq
      have hFits := fits_of_table hRows
      obtain ⟨-, -, -, hFits', -⟩ := remapLocals_spec hp (by simp [NamesGiven]) hFits hLocals
      obtain ⟨-, -, hAll, told, hTold, hNames⟩ := remapLocals_told hp hLocals
      obtain rfl : done₁ = told := hTold
      obtain ⟨rfl, rfl, rfl, hKinds⟩ :=
        remapLocalTables_none (fun b hb hName => hOthers b hb ⟨hText, hName⟩) hRest
      refine ⟨.cons (fun q' hLater => .changed hKind rfl ?_) ?_,
        fun hNone => absurd hText (hNone a List.mem_cons_self)⟩
      · exact ⟨rows, rows', hRows, table_of_tableToBytes hFits' hInfo,
          hAll.imp fun _ _ h => h q' hLater, hNames⟩
      · refine List.forall₂_same.2 fun b hb _ _ => ?_
        obtain ⟨kind, hKind, hNot⟩ := hKinds b hb
        exact .kept hKind hNot
    · rename_i hNot
      obtain ⟨⟨more', done₂⟩, p₂, hRest, h⟩ := yields_bind.1 h
      obtain ⟨hEq, rfl⟩ := yields_pure.1 h
      obtain ⟨rfl, rfl⟩ := Prod.mk.inj hEq
      obtain ⟨hAll, hNone⟩ := remapLocalTables_told hp hRestAlone hRest
      exact ⟨.cons (fun _ _ => .kept hKind hNot) hAll,
        fun h => hNone fun b hb => h b (List.mem_cons_of_mem _ hb)⟩

theorem remapLocalType_follows (h : Yields (r.remapLocalType done v) p v' q) :
    FollowsTold done v v' := by
  obtain ⟨_, _, -, h⟩ := yields_bind.1 h
  obtain ⟨_, _, -, h⟩ := yields_bind.1 h
  obtain ⟨_, _, -, h⟩ := yields_bind.1 h
  obtain ⟨rfl, -⟩ := yields_pure.1 h
  exact ⟨rfl, rfl⟩

/-- The pass over the type tables. -/
theorem remapTypeTable_follows (hp : r.Reached p) (hDone : NamesGiven done)
    (h : Yields (r.remapTypeTable done a) p a' q) : r.Reached q ∧ p.Grows q ∧
      r.TablePass AttributeName.localVariableTypeTable (List.Forall₂ (FollowsTold done)) a a' := by
  obtain ⟨hq, hGrows⟩ := hp.addsNames (r.addsNames_remapTypeTable _ _) h
  refine ⟨hq, hGrows, ?_⟩
  obtain ⟨kind, _, hAsk, h⟩ := yields_bind.1 h
  obtain ⟨hKind, rfl⟩ := yields_liftM.1 hAsk
  split at h
  · rename_i hTable
    obtain ⟨rows, _, hAsk, h⟩ := yields_bind.1 h
    obtain ⟨hRows, rfl⟩ := yields_liftM.1 hAsk
    obtain ⟨rows', p₁, hLocals, h⟩ := yields_bind.1 h
    obtain ⟨info, _, hAsk, h⟩ := yields_bind.1 h
    obtain ⟨hInfo, rfl⟩ := yields_liftM.1 hAsk
    obtain ⟨rfl, rfl⟩ := yields_pure.1 h
    have hFits := fits_of_table hRows
    obtain ⟨-, -, hAll⟩ := Pool.forall₂_of_mapM_same (I := r.Reached)
      (P := LocalVariable.Fits)
      (R := fun _ v (v' : LocalVariable) => v'.Fits ∧ FollowsTold done v v')
      (fun _ _ _ _ _ h => h) (fun _ _ _ _ hp hFits hRun =>
        let ⟨hq, hGrows, hFits', _⟩ := remapLocalType_spec hp hDone hFits hRun
        ⟨hq, hGrows, hFits', remapLocalType_follows hRun⟩) hFits hp hLocals
    have hFits' := forall_of_forall₂ hFits (fun _ _ => trivial) hAll fun _ _ _ _ h => h.1
    exact .changed hKind hTable
      ⟨rows, rows', hRows, table_of_tableToBytes hFits' hInfo, hAll.imp fun _ _ h => h.2⟩
  · rename_i hNot
    obtain ⟨rfl, rfl⟩ := yields_pure.1 h
    exact .kept hKind hNot

-- ---------------------------------------------------------------------------
-- Rows behind a pass
-- ---------------------------------------------------------------------------

/-- A pass leaves an attribute that was found where it is. -/
theorem exists_found {kinds : String → Prop} {body : String → Bytes → Bytes → Prop} {place : Nat}
    (hAll : List.Forall₂ (r.Pass kinds body) l l')
    (hFound : r.source.attribute? l kind = .ok (some (place, a))) :
    ∃ a', r.Pass kinds body a a' ∧ r.source.storedText a.name = .ok kind ∧
      r.source.attribute? l' kind = .ok (some (place, a')) := by
  have hNames : SameAttributeNames l l' := hAll.imp fun _ _ h => h.1
  obtain ⟨hAt, hText, hSome⟩ := (attribute?_same hNames hFound).2 place a rfl
  obtain ⟨hLength, rfl⟩ := List.getElem?_eq_some_iff.1 hAt
  have hLength' : place < l'.length := hAll.length_eq ▸ hLength
  exact ⟨l'[place], hAll.get hLength hLength', Pool.storedText_eq_ok.2 hText,
    hSome _ (List.getElem?_eq_getElem hLength')⟩

/-- What a pass makes of the rows of its kind. -/
theorem rowsIn_of_tablePass {R : List LocalVariable → List LocalVariable → Prop}
    (hAll : List.Forall₂ (r.TablePass kind R) l l')
    (hNone : (∀ a ∈ l, r.source.text a.name ≠ .ok kind) → R [] [])
    (h : RowsIn r.source l kind rows) : ∃ rows', RowsIn r.source l' kind rows' ∧ R rows rows' := by
  obtain ⟨found, hFound, hRows⟩ := h
  cases found with
  | none =>
    obtain rfl := Except.ok.inj hRows
    refine ⟨[], ⟨none, (attribute?_same (hAll.imp fun _ _ h => h.1) hFound).1 rfl, rfl⟩, hNone ?_⟩
    exact fun a ha hText => not_isOther hText (Pool.attribute?_eq_none.1 hFound a ha)
  | some entry =>
    obtain ⟨a', ⟨-, kind', hKind', hBody, -⟩, hKind, hFound'⟩ := exists_found hAll hFound
    obtain rfl := Except.ok.inj (hKind.symm.trans hKind')
    obtain ⟨rows₀, rows', hRows₀, hRows', hR⟩ := hBody rfl
    obtain rfl := Except.ok.inj (hRows.symm.trans hRows₀)
    exact ⟨rows', ⟨_, hFound', hRows'⟩, hR⟩

/-- A pass over other kinds leaves the rows alone. -/
theorem rowsIn_of_otherPass {kinds : String → Prop} {body : String → Bytes → Bytes → Prop}
    (hAll : List.Forall₂ (r.Pass kinds body) l l') (hOther : ¬ kinds kind)
    (h : RowsIn r.source l kind rows) : RowsIn r.source l' kind rows := by
  obtain ⟨found, hFound, hRows⟩ := h
  cases found with
  | none => exact ⟨none, (attribute?_same (hAll.imp fun _ _ h => h.1) hFound).1 rfl, hRows⟩
  | some entry =>
    obtain ⟨a', ⟨-, kind', hKind', -, hSame⟩, hKind, hFound'⟩ := exists_found hAll hFound
    obtain rfl := Except.ok.inj (hKind.symm.trans hKind')
    obtain rfl := hSame hOther
    exact ⟨_, hFound', hRows⟩

/-- A type row gets the name of its parameter, or keeps its own one. -/
theorem rowNamed_of_follows {plain plain' : List LocalVariable}
    (hAgree : TablesAgree r.source plain types) (hNamed : r.PlainNamed method done q plain plain')
    (hFollows : List.Forall₂ (FollowsTold done) types types') :
    List.Forall₂ (r.RowNamed method q) types types' := by
  have hAll := hNamed.2.isTold hAgree.plainOnce
  refine ((List.forall₂_and_left _ _).2 ⟨hAgree.exists_zip hAll, hFollows⟩).imp ?_
  rintro t t' ⟨⟨v, v', hZip, hKey, -⟩, hFollow⟩
  have hRow := List.forall₂_zip hNamed.1 hZip
  have hNew : r.newName? method t = r.newName? method v := newName?_eq_of_key hKey.symm
  have hCases := (List.forall₂_zip hAll hZip).follows hKey hFollow
  refine ⟨hFollow.1, fun name hName => ?_, fun hNone => ?_⟩
  · rw [hNew] at hName
    obtain ⟨-, hSame⟩ | ⟨hOld, -⟩ := hCases
    · exact hSame ▸ hRow.new name hName
    · exact absurd (by rw [IsNew, hName]; rfl) hOld
  · rw [hNew] at hNone
    obtain ⟨hIsNew, -⟩ | ⟨-, hSame, -⟩ := hCases
    · rw [IsNew, hNone] at hIsNew
      cases hIsNew
    · exact hSame

/-- What has become of the names in a table: a local variable that is a parameter from the first
instruction on has the name of the parameter, if there is one, and all others keep their names. -/
def RowsNamed (r : ClassRemapping) (method : MemberKey) (q : Pool) (l l' : List Attribute)
    (kind : String) : Prop :=
  ∃ rows rows', RowsIn r.source l kind rows ∧ RowsIn q l' kind rows' ∧
    List.Forall₂ (r.RowNamed method q) rows rows'

/-- Attributes that keep their names stay alone. -/
theorem atMostOne_of_named (hq : r.Reached q) (hNamed : List.Forall₂ r.Named l l')
    (h : AtMostOne r.source kind l) : AtMostOne q kind l' := by
  refine h.carried (hNamed.imp ?_)
  rintro a a' ⟨hName, kind', hKind⟩ hText
  have hText' := hq.keeps.text (Pool.storedText_eq_ok.1 hKind)
  rw [hName, hText'] at hText
  obtain rfl := Except.ok.inj hText
  exact Pool.storedText_eq_ok.1 hKind

/-- **Tables agree behind a renaming**, and in both of them each row has the name that the remapper
has for it. -/
theorem remapCode_agree {code code' : Code} (hp : r.Reached p)
    (hAgree : LocalsAgree r.source code.attributes)
    (h : Yields (r.remapCode method code) p code' q) : LocalsAgree q code'.attributes ∧
      r.RowsNamed method q code.attributes code'.attributes AttributeName.localVariableTable ∧
      r.RowsNamed method q code.attributes code'.attributes
        AttributeName.localVariableTypeTable := by
  obtain ⟨hPlainAlone, hTypesAlone, plain, types, hPlain, hTypes, hTables⟩ := hAgree
  obtain ⟨-, hNamed⟩ := remapCode_named hp h
  obtain ⟨⟨list₁, done⟩, p₁, hRunPlain, h⟩ := yields_bind.1 h
  obtain ⟨list₂, p₂, hRunTypes, h⟩ := yields_bind.1 h
  obtain ⟨list₃, p₃, hRunCommon, h⟩ := yields_bind.1 h
  obtain ⟨rfl, rfl⟩ := yields_pure.1 h
  obtain ⟨hp₁, -, hDone, -⟩ := remapLocalTables_spec hp (by simp [NamesGiven]) hRunPlain
  obtain ⟨hFirst, hNone⟩ := remapLocalTables_told hp hPlainAlone hRunPlain
  obtain ⟨hp₂, hGrows₂, hSecond⟩ := Pool.forall₂_of_mapM_same (I := r.Reached)
    (P := fun _ : Attribute => True)
    (R := fun _ =>
      r.TablePass AttributeName.localVariableTypeTable (List.Forall₂ (FollowsTold done)))
    (fun _ _ _ _ _ h => h) (fun _ _ _ _ hp _ => remapTypeTable_follows hp hDone)
    (fun _ _ => trivial) hp₁ hRunTypes
  obtain ⟨hq, hGrows₃, hThird⟩ :=
    remapCommon_behind_any hp₂ (List.forall₂_same.2 fun a _ => rfl) hRunCommon
  have hThird : List.Forall₂ r.AnyCommonPass list₂ list₃ := by
    refine hThird.imp ?_
    rintro a c ⟨b, rfl, hPass⟩
    exact hPass
  -- the names of parameters that the first pass gave are read in the last pool
  have hLast := hFirst.imp fun _ _ h => h p₃ (hGrows₂.trans_same hGrows₃)
  have hNothing : (∀ a ∈ code.attributes,
      r.source.text a.name ≠ .ok AttributeName.localVariableTable) →
        r.PlainNamed method done p₃ [] [] := by
    intro hNo
    rw [hNone hNo]
    exact ⟨.nil, .nil⟩
  obtain ⟨plain', hPlain', hPlainNamed⟩ := rowsIn_of_tablePass hLast hNothing hPlain
  obtain ⟨types', hTypes', hFollows⟩ := rowsIn_of_tablePass hSecond (fun _ => .nil)
    (rowsIn_of_otherPass hLast (by decide) hTypes)
  have hPlain' := (rowsIn_of_otherPass hThird (by decide)
    (rowsIn_of_otherPass hSecond (by decide) hPlain')).mono hq.keeps
  have hTypes' := (rowsIn_of_otherPass hThird (by decide) hTypes').mono hq.keeps
  refine ⟨⟨atMostOne_of_named hq hNamed hPlainAlone, atMostOne_of_named hq hNamed hTypesAlone,
    plain', types', hPlain', hTypes', hTables.later hq.keeps hPlainNamed.2 hFollows⟩, ?_, ?_⟩
  · exact ⟨plain, plain', hPlain, hPlain', hPlainNamed.1⟩
  · exact ⟨types, types', hTypes, hTypes', rowNamed_of_follows hTables hPlainNamed hFollows⟩

end ClassRemapping

-- ---------------------------------------------------------------------------
-- Fixing a method
-- ---------------------------------------------------------------------------

namespace LocalNames

variable {view p q : Pool} {m : Member} {rows rows' : List LocalVariable} {renamed : Renamed}
  {isNew : LocalVariable → Prop} {l : List Attribute} {info : Bytes}

theorem LocalsAgree.later (h : LocalsAgree p l) (hAdds : AddsGiven p q) : LocalsAgree q l := by
  obtain ⟨hPlainAlone, hTypesAlone, plain, types, hPlain, hTypes, hTables⟩ := h
  have hSame : SameAttributeNames l l := List.forall₂_same.2 fun _ _ => rfl
  refine ⟨hPlainAlone.later hAdds (head_of_attribute _ (by decide)) hSame,
    hTypesAlone.later hAdds (head_of_attribute _ (by decide)) hSame,
    plain, types, hPlain.mono hAdds.grows, hTypes.mono hAdds.grows,
    { hTables with named := fun t ht => ?_ }⟩
  obtain ⟨v, hv, hKey, hName⟩ := hTables.named t ht
  exact ⟨v, hv, hKey, hName.mono hAdds.grows⟩

/-- The rows that get new names are those whose names are no identifiers. -/
theorem fixRows_told : ∀ {rows rows' : List LocalVariable} {renamed : Renamed} {s t : NameScope}
    {p q : Pool}, p.Intact → Yields ((fixRows rows).run s) p ((rows', renamed), t) q →
      Told (fun v => ¬ IsNameAt q v.name) rows rows' renamed
  | [], rows', renamed, s, t, p, q, hp, h => by
    obtain ⟨⟨hEq, -⟩, rfl⟩ := yields_run_pure.1 h
    obtain ⟨rfl, rfl⟩ := Prod.mk.inj hEq
    exact .nil
  | v :: more, rows', renamed, s, t, p, q, hp, h => by
    obtain ⟨old, more', hOld, ⟨hIsFine, rfl, hMore⟩ |
      ⟨hBad, name, renamed', u, p₁, hFresh, hMore, rfl, rfl⟩⟩ := fixRows_cons h
    · obtain ⟨-, hAdds, -⟩ := fixRows_spec hp hMore
      have hName : IsNameAt q v.name := ⟨old, hAdds.grows.text hOld, hIsFine⟩
      exact .kept (not_not_intro hName) rfl rfl (fixRows_told hp hMore)
    · obtain ⟨hp₁, hAdds₁, -⟩ := fresh_spec (isGiven_nameForSlot v.slot) hp hFresh
      obtain ⟨-, hAdds₂, -⟩ := fixRows_spec hp₁ hMore
      refine .given ?_ rfl (fixRows_told hp₁ hMore)
      rintro ⟨text, hText, hIs⟩
      obtain rfl := Except.ok.inj (((hAdds₁.trans hAdds₂).grows.text hOld).symm.trans hText)
      exact absurd hIs (Bool.eq_false_iff.1 hBad)

/-- The rows of the type table that is written. -/
theorem rowsIn_of_followRows {code code' : Code} {plain types : Option (Nat × Attribute)}
    {old : List LocalVariable}
    (hPlain : view.attribute? code.attributes AttributeName.localVariableTable = .ok plain)
    (hTypes : view.attribute? code.attributes AttributeName.localVariableTypeTable = .ok types)
    (hRows : ∀ v ∈ rows', v.Fits) (hRenamed : ∀ e ∈ renamed, IsRenamed (rows.zip rows') e)
    (hOld : rowsOf types = .ok old) (h : replaceRows code plain types rows' renamed = .ok code') :
    RowsIn view code'.attributes AttributeName.localVariableTypeTable
      (followRows renamed old) := by
  obtain ⟨-, mid, hLocals, hFollow⟩ := rewrites_of_replaceRows h
  have hMid : SameAttributeNames code.attributes mid :=
    hLocals.forall₂ (List.forall₂_same.2 fun _ _ => rfl) (fun _ _ h => h) hPlain
      fun _ _ _ _ _ _ => rfl
  obtain ⟨rfl, hSearch⟩ | ⟨place, a, info, rfl, ⟨old', hOld', hInfo⟩, hSearch⟩ :=
    hFollow.search hMid hTypes
  · obtain rfl := Except.ok.inj hOld
    exact ⟨none, hSearch, rfl⟩
  · obtain rfl := Except.ok.inj (hOld.symm.trans hOld')
    have hFits := fits_of_typeRowFixed hRows (fits_of_table hOld) (followRows_spec hRenamed old)
    exact ⟨_, hSearch, table_of_tableToBytes hFits hInfo⟩

/-- Tables agree behind new names for the rows of local variables. -/
theorem localsAgree_of_replaceRows {code code' : Code} {plain types : Option (Nat × Attribute)}
    (hAdds : AddsGiven view p)
    (hPlain : view.attribute? code.attributes AttributeName.localVariableTable = .ok plain)
    (hTypes : view.attribute? code.attributes AttributeName.localVariableTypeTable = .ok types)
    (hZero : p.entries[0]? = some .unusable) (hRows : rowsOf plain = .ok rows)
    (hFixed : List.Forall₂ (RowFixed p) rows rows')
    (hRenamed : ∀ e ∈ renamed, IsRenamed (rows.zip rows') e)
    (hTold : Told isNew rows rows' renamed)
    (h : replaceRows code plain types rows' renamed = .ok code')
    (hAgree : LocalsAgree view code.attributes) : LocalsAgree p code'.attributes := by
  obtain ⟨hPlainAlone, hTypesAlone, rows₀, old, ⟨_, hPlain₀, hRows₀⟩, ⟨_, hTypes₀, hOld⟩,
    hTables⟩ := hAgree
  obtain rfl := Except.ok.inj (hPlain.symm.trans hPlain₀)
  obtain rfl := Except.ok.inj (hTypes.symm.trans hTypes₀)
  obtain rfl := Except.ok.inj (hRows.symm.trans hRows₀)
  obtain ⟨-, hAll, plain', hPlain', hRows'⟩ :=
    replaceRows_spec hPlain hTypes hZero hRows hFixed hRenamed h
  have hNames : SameAttributeNames code.attributes code'.attributes := hAll.imp fun _ _ h => h.1
  have hFits := fits_of_rowFixed hZero (fits_of_rowsOf hRows) hFixed
  have hTypes' := rowsIn_of_followRows hPlain hTypes hFits hRenamed hOld h
  have hFollows : List.Forall₂ (FollowsTold renamed) old (followRows renamed old) :=
    List.forall₂_map_right_iff.2 (List.forall₂_same.2 fun _ _ => ⟨rfl, rfl⟩)
  exact ⟨hPlainAlone.later hAdds (head_of_attribute _ (by decide)) hNames,
    hTypesAlone.later hAdds (head_of_attribute _ (by decide)) hNames, rows', _,
    ⟨plain', hAdds.grows.attribute? hPlain', hRows'⟩, hTypes'.mono hAdds.grows,
    hTables.later hAdds.grows hTold hFollows⟩

/-- A method body whose tables agree. -/
def BodyAgrees (pool : Pool) (info : Bytes) : Prop :=
  ∃ code, Code.split info = .ok code ∧ LocalsAgree pool code.attributes

/-- The tables agree in every body of a method. -/
def MethodAgrees (pool : Pool) (m : Member) : Prop :=
  ∀ a ∈ m.attributes, pool.text a.name = .ok AttributeName.code → BodyAgrees pool a.info

/-- An attribute keeps its name, and the tables in it agree in `q` if they did in `view`. -/
def StaysAgreeing (view q : Pool) (a a' : Attribute) : Prop :=
  a'.name = a.name ∧ (view.text a.name = .ok AttributeName.code →
    BodyAgrees view a.info → BodyAgrees q a'.info)

theorem StaysAgreeing.refl (hAdds : AddsGiven view q) (a : Attribute) :
    StaysAgreeing view q a a :=
  ⟨rfl, fun _ ⟨code, hSplit, hAgree⟩ => ⟨code, hSplit, hAgree.later hAdds⟩⟩

theorem methodAgrees_of_attributes {m' : Member} (hAdds : AddsGiven view q)
    (hAll : List.Forall₂ (StaysAgreeing view q) m.attributes m'.attributes)
    (hAgree : MethodAgrees view m) : MethodAgrees q m' := by
  refine forall_of_forall₂ hAgree (fun _ _ => trivial) hAll ?_
  rintro a a' hBody - ⟨hName, hStays⟩ hText
  rw [hName] at hText
  have hBefore := hAdds.text_back hText (head_of_attribute _ (by decide))
  exact hStays hBefore (hBody hBefore)

/-- **Tables agree behind the fix.** -/
theorem fixMethod_agree {o : Option Member} (hp : p.Intact) (hView : AddsGiven view p)
    (hZero : view.entries[0]? = some .unusable) (hFilled : MethodFilled view m.attributes)
    (hAgree : MethodAgrees view m) (h : Yields (fixMethod view m) p o q) :
    MethodAgrees q (o.getD m) := by
  obtain ⟨_, tables, -, hFind, hFix⟩ := yields_fixMethod.1 h
  obtain ⟨rows, list, _, rows', renamed, s, p₁, list', changed, t, hRows, hList, -, hFixRows,
    hFixList, hCases⟩ := yields_fix.1 hFix
  obtain ⟨hp₁, hAdds₁, hFixed, hRenamed, -⟩ := fixRows_spec hp hFixRows
  obtain ⟨-, hAdds₂, -⟩ := fixParameters_spec hp₁ hFixList
  have hFixed := hFixed.imp fun _ _ h => h.mono hAdds₂.grows
  have hAdds := hView.trans (hAdds₁.trans hAdds₂)
  obtain ⟨-, -, rfl⟩ | ⟨-, m', hReplace, rfl⟩ := hCases
  · exact methodAgrees_of_attributes hAdds (List.forall₂_same.2 fun a _ => .refl hAdds a) hAgree
  have hZero' := (hAdds.grows.entry hZero).resolve_right fun h => h.1
  obtain ⟨found, mid, hFound, hBody, hMore⟩ := rewrites_of_replace hFind hReplace
  obtain ⟨_, -, hSearch, -⟩ := find_cases hFind
  have hName : ∀ a b, StaysAgreeing view q a b → b.name = a.name := fun _ _ h => h.1
  have hMid : List.Forall₂ (StaysAgreeing view q) m.attributes mid := by
    refine hBody.forall₂ (List.forall₂_same.2 fun a _ => .refl hAdds a) hName hFound
      fun place a info hSome hText hNew => ⟨rfl, fun _ hBefore => ?_⟩
    obtain ⟨code, code', hSplit, hPlain, hTypes, hRun, hInfo⟩ := hNew
    obtain ⟨code₀, hSplit₀, hTables⟩ := hBefore
    obtain rfl := Except.ok.inj (hSplit.symm.trans hSplit₀)
    obtain ⟨before, after, hAttributes, -⟩ := Pool.attribute?_eq_some.1 (hSome ▸ hFound)
    have hMem : a ∈ m.attributes := by simp [hAttributes]
    obtain ⟨-, _, _, hSplit', -⟩ := split_of_replaceRows (hFilled a hMem hText) hSplit hPlain hTypes
      hZero' hRows hFixed hRenamed hRun hInfo
    exact ⟨code', hSplit', localsAgree_of_replaceRows hAdds hPlain hTypes hZero' hRows hFixed
      hRenamed (fixRows_told hp hFixRows) hRun hTables⟩
  obtain ⟨-, rfl⟩ | ⟨new, attributes, -, rfl, hRewrites⟩ := hMore
  · exact methodAgrees_of_attributes hAdds hMid hAgree
  · refine methodAgrees_of_attributes hAdds (hRewrites.forall₂ hMid hName hSearch ?_) hAgree
    -- the declaration of parameters is no body
    intro place a info _ hText _
    refine ⟨rfl, fun hCode => absurd (Except.ok.inj (hText.symm.trans hCode)) (by decide)⟩

-- ---------------------------------------------------------------------------
-- Both
-- ---------------------------------------------------------------------------

/-- **Tables of local variables stay in agreement.** Where a body has one table of local variables
and one type table at most, in neither of them two rows of one slot and one first instruction, and
each type row has the name of the local variable of its slot and first instruction, so it is behind
a renaming of the body, whatever the remapper. Behind it a row that starts with the method has the
name that the remapper has for the parameter in its slot, if it has one, and every other row keeps
its name. Where it is so in every body of a method, so it is behind the fix of the method, if
nothing stood behind the attributes of the bodies. -/
theorem tables_stay_in_agreement (p q : Pool) :
    (∀ (r : ClassRemapping) (method : MemberKey) (code code' : Code), r.Reached p →
      LocalsAgree r.source code.attributes → Yields (r.remapCode method code) p code' q →
        LocalsAgree q code'.attributes ∧
          ∀ kind ∈ [AttributeName.localVariableTable, AttributeName.localVariableTypeTable],
            r.RowsNamed method q code.attributes code'.attributes kind) ∧
    ∀ (view : Pool) (m : Member) (o : Option Member), p.Intact → AddsGiven view p →
      view.entries[0]? = some .unusable → MethodFilled view m.attributes → MethodAgrees view m →
        Yields (fixMethod view m) p o q → MethodAgrees q (o.getD m) := by
  refine ⟨fun r method code code' hp hAgree h => ?_, fun view m o hp hView hZero hFilled hAgree h =>
    fixMethod_agree hp hView hZero hFilled hAgree h⟩
  obtain ⟨hAgree', hPlain, hTypes⟩ := ClassRemapping.remapCode_agree hp hAgree h
  refine ⟨hAgree', fun kind hKind => ?_⟩
  rcases List.mem_cons.1 hKind with rfl | hKind
  · exact hPlain
  · exact List.mem_singleton.1 hKind ▸ hTypes

/-- The constants of a class with a body that has both tables. -/
def typedConstants : List Constant :=
  Transformer.numberedConstants ++ [.utf8 [76, 111, 99, 97, 108, 86, 97, 114, 105, 97, 98, 108, 101,
    84, 121, 112, 101, 84, 97, 98, 108, 101], .utf8 [76, 97, 59]]

def typedPool : Pool := Pool.ofConstants typedConstants

/-- The constants with one more name. -/
def namedPool : Pool := typedPool.append (.utf8 (ModifiedUtf8.encode "n"))

/-- Calls the first parameter of every method `n`. -/
def firstNamed : ClassRemapping :=
  ⟨⟨fun _ => none, fun _ _ => none, fun _ _ => none, fun _ _ => none,
    fun _ _ slot => if slot = 0 then some "n" else none⟩, typedPool, "a"⟩

/-- A table with one row of slot 0, which has the given name, and a type table like it. -/
def plainTable (name : UInt8) : Attribute := ⟨5, [0, 1, 0, 0, 0, 1, 0, name, 0, 8, 0, 0]⟩

def typeTable (name : UInt8) : Attribute := ⟨7, [0, 1, 0, 0, 0, 1, 0, name, 0, 8, 0, 0]⟩

def typedRow (name : UInt16) : LocalVariable := ⟨0, 1, name, 8, 0⟩

theorem localsAgree_typed :
    LocalsAgree typedPool [plainTable 6, typeTable 6] where
  plainAlone := by
    have hTypes : typedPool.text 7 =
        .ok AttributeName.localVariableTypeTable := by rfl
    exact List.pairwise_pair.2 fun ⟨_, hText⟩ =>
      absurd (Except.ok.inj (hTypes.symm.trans hText)) (by decide)
  typesAlone := by
    have hPlain : typedPool.text 5 =
        .ok AttributeName.localVariableTable := by rfl
    exact List.pairwise_pair.2 fun ⟨hText, _⟩ =>
      absurd (Except.ok.inj (hPlain.symm.trans hText)) (by decide)
  agree := ⟨[typedRow 6], [typedRow 6], ⟨_, rfl, rfl⟩, ⟨_, rfl, rfl⟩, by decide, by decide,
    fun t ht => ⟨t, ht, rfl, .inl rfl⟩⟩

theorem reached_typedPool : firstNamed.Reached typedPool :=
  ⟨Pool.sound_ofConstants (by decide), .refl, rfl⟩

/-- The name is put behind the constants, and both tables lead to it. -/
theorem yields_remapCode_typed (method : MemberKey) :
    Yields (firstNamed.remapCode method ⟨bodyFront, [plainTable 6, typeTable 6]⟩) typedPool
      ⟨bodyFront, [plainTable 9, typeTable 9]⟩ namedPool := by
  let p := typedPool
  let q := namedPool
  let r := firstNamed
  have hFresh := reached_typedPool.sound.utf8s_eq_none (by decide : Constant.utf8
    (ModifiedUtf8.encode "n") ∉ typedPool.entries.toList)
  have hName : Yields (Pool.internText "n") p 9 q :=
    Pool.yields_internText hFresh (by decide) (by decide)
  have hType : q.text 8 = .ok "La;" := by rfl
  have hRepoint : Yields (Pool.repoint 8 "La;") q 8 q :=
    yields_bind.2 ⟨"La;", q, Pool.yields_reading.2 ⟨hType, rfl⟩, rfl⟩
  have hDescriptor : Yields (r.descriptorAt 8) q 8 q := by
    refine yields_bind.2 ⟨"La;", q, Pool.yields_reading.2 ⟨hType, rfl⟩, ?_⟩
    have hSame : firstNamed.remapper.descriptor "La;" = "La;" := by rfl
    show Yields (Pool.repoint 8 (firstNamed.remapper.descriptor "La;")) q 8 q
    rw [hSame]
    exact hRepoint
  have hRow : Yields (r.remapLocals method [] [typedRow 6]) p ([typedRow 9], [((0, 0), 9)]) q :=
    yields_bind.2 ⟨(typedRow 9, [((0, 0), 9)]), q, yields_bind.2 ⟨9, q, hName,
      yields_bind.2 ⟨8, q, hDescriptor, rfl⟩⟩, rfl⟩
  have hPlain : p.storedText 5 = .ok AttributeName.localVariableTable := by rfl
  have hTypes : p.storedText 7 = .ok AttributeName.localVariableTypeTable := by rfl
  have hTables : Yields (r.remapLocalTables method [] [plainTable 6, typeTable 6]) p
      ([plainTable 9, typeTable 6], [((0, 0), 9)]) q := by
    refine yields_bind.2 ⟨_, p, yields_liftM.2 ⟨hPlain, rfl⟩, ?_⟩
    refine yields_bind.2 ⟨[typedRow 6], p, yields_liftM.2 ⟨rfl, rfl⟩, ?_⟩
    refine yields_bind.2 ⟨([typedRow 9], [((0, 0), 9)]), q, hRow, ?_⟩
    refine yields_bind.2 ⟨_, q, yields_liftM.2 ⟨rfl, rfl⟩, yields_bind.2 ⟨([_], _), q, ?_, rfl⟩⟩
    exact yields_bind.2 ⟨_, q, yields_liftM.2 ⟨hTypes, rfl⟩, rfl⟩
  have hTypeRow : Yields (r.remapLocalType [((0, 0), 9)] (typedRow 6)) q (typedRow 9) q := by
    have hParse : Signature.parse "La;" = .ok ⟨none, .types [.classType "a" []]⟩ := rfl
    have hSignature : r.signature "La;" = .ok "La;" := by
      rw [ClassRemapping.signature, hParse]
      exact congrArg Except.ok ((congrArg toString (Signature.rename_id _)).trans
        (Signature.toString_of_parse hParse))
    refine yields_bind.2 ⟨"La;", q, Pool.yields_reading.2 ⟨hType, rfl⟩, ?_⟩
    exact yields_bind.2 ⟨"La;", q, yields_liftM.2 ⟨hSignature, rfl⟩,
      yields_bind.2 ⟨8, q, hRepoint, rfl⟩⟩
  have hTypeTable : Yields (r.remapTypeTable [((0, 0), 9)] (typeTable 6)) q (typeTable 9) q := by
    refine yields_bind.2 ⟨_, q, yields_liftM.2 ⟨hTypes, rfl⟩, ?_⟩
    refine yields_bind.2 ⟨[typedRow 6], q, yields_liftM.2 ⟨rfl, rfl⟩, ?_⟩
    refine yields_bind.2 ⟨[typedRow 9], q, yields_bind.2 ⟨_, q, hTypeRow, rfl⟩, ?_⟩
    exact yields_bind.2 ⟨_, q, yields_liftM.2 ⟨rfl, rfl⟩, rfl⟩
  have hTypeTables : Yields ([plainTable 9, typeTable 6].mapM (r.remapTypeTable [((0, 0), 9)])) q
      [plainTable 9, typeTable 9] q := by
    have hKept : Yields (r.remapTypeTable [((0, 0), 9)] (plainTable 9)) q (plainTable 9) q :=
      yields_bind.2 ⟨_, q, yields_liftM.2 ⟨hPlain, rfl⟩, rfl⟩
    exact yields_bind.2 ⟨plainTable 9, q, hKept, yields_bind.2 ⟨_, q, hTypeTable, rfl⟩⟩
  have hCommon : Yields (r.remapCommon [plainTable 9, typeTable 9]) q
      [plainTable 9, typeTable 9] q := by
    have hFirst : Yields (r.remapCommonAttribute (plainTable 9)) q (plainTable 9) q :=
      yields_bind.2 ⟨_, q, yields_liftM.2 ⟨hPlain, rfl⟩, rfl⟩
    have hSecond : Yields (r.remapCommonAttribute (typeTable 9)) q (typeTable 9) q :=
      yields_bind.2 ⟨_, q, yields_liftM.2 ⟨hTypes, rfl⟩, rfl⟩
    exact yields_bind.2 ⟨_, q, hFirst, yields_bind.2 ⟨_, q, hSecond, rfl⟩⟩
  exact yields_bind.2 ⟨_, q, hTables, yields_bind.2 ⟨_, q, hTypeTables,
    yields_bind.2 ⟨_, q, hCommon, rfl⟩⟩⟩

open Transformer in
/-- Two tables behind a renaming, and one table behind the fix. -/
theorem tables_stay_in_agreement_typed : firstNamed.Reached typedPool ∧
    LocalsAgree typedPool [plainTable 6, typeTable 6] ∧
    LocalsAgree namedPool [plainTable 9, typeTable 9] ∧
    firstNamed.RowsNamed ⟨"a", "()V"⟩ namedPool [plainTable 6, typeTable 6]
      [plainTable 9, typeTable 9] AttributeName.localVariableTypeTable ∧
    MethodAgrees (numbered []).pool (numberedMethod [6]) ∧
    MethodAgrees numberedPool (numberedMethod [7]) := by
  obtain ⟨hRenaming, -⟩ := tables_stay_in_agreement typedPool namedPool
  obtain ⟨hLater, hNamed⟩ := hRenaming firstNamed ⟨"a", "()V"⟩
    ⟨bodyFront, [plainTable 6, typeTable 6]⟩ _ reached_typedPool localsAgree_typed
    (yields_remapCode_typed _)
  have hParse : ClassFile.parse (numberedEntry [6]).data = .ok (numbered [6]) := by rfl
  have hFilled : MethodFilled (numbered []).pool (numberedMethod [6]).attributes := by
    intro a ha _
    obtain rfl := List.mem_singleton.1 ha
    exact (by decide : CodeBody.read.fills (tablesBody [6]) = true)
  have hAgree : MethodAgrees (numbered []).pool (numberedMethod [6]) := by
    intro a ha _
    obtain rfl := List.mem_singleton.1 ha
    refine ⟨_, split_tablesBody.1, List.pairwise_singleton .., List.pairwise_singleton .., ?_⟩
    exact ⟨[⟨0, 1, 6, 1, 0⟩], [], ⟨_, rfl, rfl⟩, ⟨none, rfl, rfl⟩, by decide, by decide, nofun⟩
  obtain ⟨-, hFix⟩ := tables_stay_in_agreement (numbered []).pool numberedPool
  have hIntact := ClassFile.intact_parse hParse
  have hAgree' := hFix _ _ _ hIntact .refl rfl hFilled hAgree
    (yields_fixMethod_numbered (.inl rfl))
  exact ⟨reached_typedPool, localsAgree_typed, hLater, hNamed _ (by decide), hAgree, hAgree'⟩

end LocalNames

end Jarsmith
