import Jarsmith.Proofs.Jar.LocalNames

/-!
# Classes with fixed names

The fix of local variables leaves everything in a class as it is but for names that are no
identifiers. Behind it every name is an identifier where a method has one body, one declaration of
parameters and one table of local variables at most; and the fix finds nothing to do in its own
result.

* `ClassFile.LocalNamesFixed` — what becomes of a class.
* `ClassFile.namesValid_of_fixed` — which names are identifiers behind the fix.
* `Transformer.fixLocalNames_spec` — the fix, and the stage run on its own result.
-/

namespace Jarsmith

open Outcome
open Pool (Yields Grows yields_bind yields_pure yields_reading)

namespace LocalNames

variable {p q : Pool} {l l' : List Attribute} {name : String}

-- ---------------------------------------------------------------------------
-- Attributes of one name
-- ---------------------------------------------------------------------------

/-- At most one attribute has the name. -/
def AtMostOne (pool : Pool) (name : String) (l : List Attribute) : Prop :=
  l.Pairwise fun a b => ¬ (pool.text a.name = .ok name ∧ pool.text b.name = .ok name)

theorem AtMostOne.carried (h : AtMostOne p name l) (hBack : List.Forall₂ (fun a a' : Attribute =>
    q.text a'.name = .ok name → p.text a.name = .ok name) l l') : AtMostOne q name l' := by
  induction hBack with
  | nil => exact .nil
  | @cons a a' l l' hFirst hMore ih =>
    obtain ⟨hOthers, hRest⟩ := List.pairwise_cons.1 h
    refine List.pairwise_cons.2 ⟨?_, ih hRest⟩
    refine forall_of_forall₂ hOthers (fun _ _ => trivial) hMore ?_
    rintro b b' hNot - hBack ⟨hText, hText'⟩
    exact hNot ⟨hFirst hText, hBack hText'⟩

/-- No attribute gets a name by the texts that are added. -/
theorem AtMostOne.later (h : AtMostOne p name l) (hAdds : AddsGiven p q)
    (hName : ∀ c ∈ name.toList.head?, c ≠ 't' ∧ c ≠ 'p' ∧ c ≠ 'v')
    (hSame : SameAttributeNames l l') : AtMostOne q name l' :=
  h.carried (hSame.imp fun _ _ hNames hText => hAdds.text_back (hNames ▸ hText) hName)

theorem not_isOther {a : Attribute} (hText : p.text a.name = .ok name) : ¬ p.IsOther name a := by
  rintro ⟨raw, hRaw, hOther⟩
  obtain ⟨raw', hRaw', hDecode⟩ := Pool.text_eq_ok.1 hText
  obtain rfl := Constant.utf8.inj (Option.some.inj (hRaw.symm.trans hRaw'))
  exact hOther hDecode

/-- An attribute of the name is the one that is found. -/
theorem AtMostOne.eq_of_attribute? {found : Option (Nat × Attribute)} {a : Attribute}
    (h : AtMostOne p name l) (hFound : p.attribute? l name = .ok found) (ha : a ∈ l)
    (hText : p.text a.name = .ok name) : ∃ place, found = some (place, a) := by
  cases found with
  | none => exact absurd (Pool.attribute?_eq_none.1 hFound a ha) (not_isOther hText)
  | some entry =>
    obtain ⟨place, b⟩ := entry
    obtain ⟨before, after, rfl, -, hBefore, hText'⟩ := Pool.attribute?_eq_some.1 hFound
    rcases List.mem_append.1 ha with hIn | hIn
    · exact absurd (hBefore a hIn) (not_isOther hText)
    rcases List.mem_cons.1 hIn with rfl | hIn
    · exact ⟨place, rfl⟩
    · have hLast := (List.pairwise_append.1 h).2.1
      exact absurd ⟨hText', hText⟩ ((List.pairwise_cons.1 hLast).1 a hIn)

-- ---------------------------------------------------------------------------
-- Names that are valid
-- ---------------------------------------------------------------------------

/-- All names of local variables in a body are identifiers. -/
def BodyValid (pool : Pool) (info : Bytes) : Prop :=
  ∃ code, Code.split info = .ok code ∧ ∀ b ∈ code.attributes,
    pool.text b.name = .ok AttributeName.localVariableTable →
      ∃ rows, LocalVariable.table b.info = .ok rows ∧ ∀ v ∈ rows, IsNameAt pool v.name

/-- All names of declared parameters are identifiers. -/
def DeclarationValid (pool : Pool) (info : Bytes) : Prop :=
  ∃ list, MethodParameter.table info = .ok list ∧
    ∀ x ∈ list, ∀ i, x.name = some i → IsNameAt pool i

/-- All names of local variables and declared parameters of a method are identifiers, in every body,
in every table and in every declaration. -/
def MethodValid (pool : Pool) (m : Member) : Prop :=
  ∀ a ∈ m.attributes,
    (pool.text a.name = .ok AttributeName.code → BodyValid pool a.info) ∧
      (pool.text a.name = .ok AttributeName.methodParameters → DeclarationValid pool a.info)

/-- A method has one body and one declaration of parameters at most, and every body has one table of
local variables at most. -/
structure TablesAlone (pool : Pool) (m : Member) : Prop where
  code : AtMostOne pool AttributeName.code m.attributes
  parameters : AtMostOne pool AttributeName.methodParameters m.attributes
  locals : ∀ a ∈ m.attributes, pool.text a.name = .ok AttributeName.code →
    ∀ code, Code.split a.info = .ok code →
      AtMostOne pool AttributeName.localVariableTable code.attributes

variable {m m' : Member}

/-- The names of attributes are never given out. -/
theorem head_of_attribute (name : String) (hName : name ∈ [AttributeName.code,
    AttributeName.methodParameters, AttributeName.localVariableTable,
    AttributeName.localVariableTypeTable]) :
    ∀ c ∈ name.toList.head?, c ≠ 't' ∧ c ≠ 'p' ∧ c ≠ 'v' := by
  revert name
  decide

theorem TablesAlone.later (h : TablesAlone p m) (hAdds : AddsGiven p q)
    (hFixed : MethodFixed p q m m') : TablesAlone q m' := by
  have hNames : SameAttributeNames m.attributes m'.attributes :=
    hFixed.attributes.imp fun _ _ h => h.1
  have hCode := head_of_attribute AttributeName.code (by decide)
  refine ⟨h.code.later hAdds hCode hNames,
    h.parameters.later hAdds (head_of_attribute _ (by decide)) hNames, ?_⟩
  refine forall_of_forall₂ h.locals (fun _ _ => trivial) hFixed.attributes ?_
  rintro a a' hLocals - ⟨hName, hCases⟩ hText code' hSplit'
  rw [hName] at hText
  have hBefore := hAdds.text_back hText hCode
  have hLocalsName := head_of_attribute AttributeName.localVariableTable (by decide)
  obtain hSame | ⟨-, code, again, locals, hSplit, hAgain, -, hNested⟩ | ⟨hOther, -⟩ := hCases
  · rw [hSame] at hSplit'
    exact (hLocals hBefore code' hSplit').later hAdds hLocalsName (List.forall₂_same.2 fun _ _ => rfl)
  · obtain rfl := Except.ok.inj (hAgain.symm.trans hSplit')
    exact (hLocals hBefore code hSplit).later hAdds hLocalsName (hNested.imp fun _ _ h => h.1)
  · exact absurd (Except.ok.inj (hOther.symm.trans hBefore)) (by decide)

/-- Names that the fix looks at are all names, if nothing stands beside them. -/
theorem NamesFine.methodValid (h : NamesFine p m) (hAlone : TablesAlone p m) :
    MethodValid p m := by
  obtain ⟨rows, list, ⟨found, hFound, hRows⟩, ⟨parameters, hParameters, hList⟩, hFine, hFineList⟩ :=
    h
  refine fun a ha => ⟨fun hText => ?_, fun hText => ?_⟩
  · obtain ⟨place, rfl⟩ := hAlone.code.eq_of_attribute? hFound ha hText
    obtain ⟨hNone, -⟩ | ⟨place', a', code, plain, types, hSome, hSplit, hPlain, -, hPlainRows⟩ :=
      hRows
    · cases hNone
    obtain ⟨rfl, rfl⟩ := Prod.mk.inj (Option.some.inj hSome)
    refine ⟨code, hSplit, fun b hb hTable => ?_⟩
    obtain ⟨place, rfl⟩ := (hAlone.locals a ha hText code hSplit).eq_of_attribute? hPlain hb hTable
    exact ⟨rows, hPlainRows, hFine⟩
  · obtain ⟨place, rfl⟩ := hAlone.parameters.eq_of_attribute? hParameters ha hText
    exact ⟨list, hList, hFineList⟩

end LocalNames

-- ---------------------------------------------------------------------------
-- Classes
-- ---------------------------------------------------------------------------

namespace ClassFile

open LocalNames

variable {c c' : ClassFile} {o : Option ClassFile} {q : Pool} {bytes : Bytes}

/-- What has become of a class behind the fix of its local variables: nothing but names in tables of
methods is another, each of them for one that was no identifier, and the names that the fix looks at
are identifiers. Where nothing stands beside the tables that the fix looks at, all names are. -/
structure LocalNamesFixed (c c' : ClassFile) : Prop where
  rest : c' = { c with pool := c'.pool, methods := c'.methods }
  pool : AddsGiven c.pool c'.pool
  methods : List.Forall₂ (fun m m' => MethodFixed c.pool c'.pool m m' ∧ NamesFine c'.pool m' ∧
    (TablesAlone c.pool m → MethodValid c'.pool m')) c.methods c'.methods

/-- The bodies of a class that was read have nothing behind their nested attributes. -/
theorem CodeFilled.methodFilled (h : c.CodeFilled) :
    ∀ m ∈ c.methods, MethodFilled c.pool m.attributes :=
  fun m hm a ha hText => h m hm a ha (Pool.storedText_eq_ok.2 hText)

/-- What becomes of a method, up to a pool that the fix leaves. -/
def MethodDone (pool q : Pool) (m m' : Member) : Prop :=
  MethodFixed pool q m m' ∧ NamesFine q m' ∧ ∃ descriptor, q.text m'.descriptor = .ok descriptor

/-- The fix runs over all methods. -/
theorem methods_spec {fixed : List (Option Member)} (hParse : parse bytes = .ok c)
    (hFilled : c.CodeFilled) (h : Yields (c.methods.mapM (fixMethod c.pool)) c.pool fixed q) :
    q.Intact ∧ AddsGiven c.pool q ∧
      List.Forall₂ (fun m o => MethodDone c.pool q m (o.getD m)) c.methods fixed := by
  have hZero := slotZero_decode (decode_of_parse hParse)
  obtain ⟨⟨hq, hAdds⟩, -, hAll⟩ := Pool.forall₂_of_mapM_same
    (I := fun p => p.Intact ∧ AddsGiven c.pool p)
    (P := fun m : Member => MethodFilled c.pool m.attributes)
    (R := fun q m (o : Option Member) => MethodDone c.pool q m (o.getD m))
    (fun p q m o hGrows ⟨hFixed, hFine, descriptor, hText⟩ =>
      ⟨hFixed.mono hGrows, hFine.mono hGrows, descriptor, hGrows.text hText⟩)
    (fun m p o q ⟨hp, hView⟩ hBodies hRun => by
      obtain ⟨hq, hAdds, hFixed, hFine, descriptor, hText⟩ :=
        fixMethod_spec hp hView hZero hBodies hRun
      exact ⟨⟨hq, hView.trans hAdds⟩, hAdds.grows, hFixed, hFine, descriptor,
        hFixed.descriptor ▸ hText⟩)
    hFilled.methodFilled ⟨intact_parse hParse, .refl⟩ h
  exact ⟨hq, hAdds, hAll⟩

theorem zipWith_getD_none {R : Member → Option Member → Prop} {methods : List Member}
    {fixed : List (Option Member)} (h : List.Forall₂ R methods fixed)
    (hNone : fixed.all Option.isNone = true) : List.zipWith Option.getD fixed methods = methods := by
  induction h with
  | nil => rfl
  | @cons m o _ _ _ _ ih =>
    obtain ⟨hFirst, hMore⟩ := Bool.and_eq_true_iff.1 hNone
    obtain rfl := Option.isNone_iff_eq_none.1 hFirst
    exact congrArg (m :: ·) (ih hMore)

/-- What the fix leaves: other methods, and a pool with more names. -/
theorem methodDone_of_fix (hParse : parse bytes = .ok c) (hFilled : c.CodeFilled)
    (hFix : c.fix c.fixLocalNames = .ok o) : ∃ q methods,
      o.getD c = { c with pool := q, methods := methods } ∧ q.Intact ∧ AddsGiven c.pool q ∧
        List.Forall₂ (MethodDone c.pool q) c.methods methods := by
  obtain ⟨d, q, hRun, rfl⟩ := fix_eq_ok.1 hFix
  obtain ⟨fixed, hMethods, hEq⟩ := yields_fixLocalNames.1 hRun
  obtain ⟨hq, hAdds, hAll⟩ := methods_spec hParse hFilled hMethods
  refine ⟨q, _, ?_, hq, hAdds, forall₂_zipWith_getD hAll⟩
  split at hEq
  · rename_i hNone
    subst hEq
    rw [zipWith_getD_none hAll hNone, pool_of_fixLocalNames_none hRun]
    rfl
  · subst hEq
    rfl

theorem localNamesFixed_of_done {methods : List Member} (hAdds : AddsGiven c.pool q)
    (h : List.Forall₂ (MethodDone c.pool q) c.methods methods) :
    c.LocalNamesFixed { c with pool := q, methods := methods } where
  rest := rfl
  pool := hAdds
  methods := h.imp fun _ _ ⟨hFixed, hFine, _⟩ =>
    ⟨hFixed, hFine, fun hAlone => hFine.methodValid (hAlone.later hAdds hFixed)⟩

/-- A class in which no name is left to fix. -/
theorem fix_eq_none (h : ∀ m ∈ c.methods, NamesFine c.pool m ∧
    ∃ descriptor, c.pool.text m.descriptor = .ok descriptor) :
    c.fix c.fixLocalNames = .ok none := by
  obtain ⟨fixed, hNone, hMethods⟩ := Pool.exists_mapM_same (P := (· = none))
    (f := fixMethod c.pool) fun m hm =>
      let ⟨hFine, _, hText⟩ := h m hm
      ⟨none, rfl, yields_fixMethod_fine hFine hText⟩
  have hAll : fixed.all Option.isNone = true :=
    List.all_eq_true.2 fun o ho => Option.isNone_iff_eq_none.2 (hNone o ho)
  exact fix_eq_ok.2 ⟨none, c.pool, yields_fixLocalNames.2 ⟨fixed, hMethods, (if_pos hAll).symm⟩,
    rfl⟩

end ClassFile

namespace Transformer

open ClassFile LocalNames

variable {e : JarEntry} {c : ClassFile} {o : Option ClassFile}

theorem apply_fixLocalNames {r : Option JarEntry} (hKind : e.kind = .classFile) :
    fixLocalNames.apply e = .ok r ↔
      ∃ e', fixClass ClassFile.fixLocalNames e = .ok e' ∧ r = some e' := by
  have hApply : fixLocalNames.apply e = some <$> fixClass ClassFile.fixLocalNames e := if_pos hKind
  rw [hApply, map_ok_iff]
  simp only [eq_comm]

/-- **Local names are fixed.** Whatever class is read, the fix leaves everything as it is but for
names of local variables and parameters that are no identifiers, and in every method the names that
it looks at are identifiers behind it: those of the first table of local variables in the first
body, and of the first declaration of parameters. They are all the names if the method has no other
bodies, tables or declarations. What the stage writes is read as the fixed class, and the stage
leaves it as it is. -/
theorem apply_fixLocalNames_spec (hKind : e.kind = .classFile) (hParse : parse e.data = .ok c)
    (hFilled : c.CodeFilled) (hFix : c.fix c.fixLocalNames = .ok o) :
    c.LocalNamesFixed (o.getD c) ∧ ∀ r, fixLocalNames.apply e = .ok r →
      ∃ e', r = some e' ∧ e' = e.withData e'.data ∧ parse e'.data = .ok (o.getD c) ∧
        fixLocalNames.apply e' = .ok (some e') := by
  obtain ⟨q, methods, hEq, hq, hAdds, hDone⟩ := methodDone_of_fix hParse hFilled hFix
  rw [hEq]
  refine ⟨localNamesFixed_of_done hAdds hDone, fun r hApply => ?_⟩
  obtain ⟨e', hRun, rfl⟩ := (apply_fixLocalNames hKind).1 hApply
  obtain ⟨fixed, data, hFix', hData, rfl⟩ := (fixClass_eq_ok hParse).1 hRun
  obtain rfl := Except.ok.inj (hFix.symm.trans hFix')
  have hAgain : parse data = .ok { c with pool := q, methods := methods } := by
    cases o with
    | none =>
      obtain rfl := Except.ok.inj hData
      rw [← hEq]
      exact hParse
    | some d =>
      obtain rfl : d = { c with pool := q, methods := methods } := hEq
      obtain ⟨-, n, hName⟩ := parse_eq_ok.1 hParse
      have hLabels : List.Forall₂ SameLabels c.methods methods := hDone.imp
        fun _ _ ⟨hFixed, _⟩ => ⟨hFixed.name, hFixed.descriptor,
          hFixed.attributes.imp fun _ _ h => h.1⟩
      have hNames : ∀ a ∈ c.attributes, a.name ≠ 0 := fun a ha =>
        ((fits_parse hParse).attributes.2 a ha).name
      exact parse_of_labels hParse hNames hLabels hq (hAdds.grows.className hName) hData
  have hFine : ∀ m ∈ methods, NamesFine q m ∧ ∃ descriptor, q.text m.descriptor = .ok descriptor :=
    forall_of_forall₂ (fun _ _ => trivial) (fun _ _ => trivial) hDone fun _ _ _ _ h => h.2
  refine ⟨_, rfl, rfl, hAgain, (apply_fixLocalNames (e := e.withData data) hKind).2 ⟨_, ?_, rfl⟩⟩
  exact (fixClass_eq_ok (e := e.withData data) hAgain).2
    ⟨none, data, fix_eq_none hFine, rfl, rfl⟩

-- ---------------------------------------------------------------------------
-- One table and two tables
-- ---------------------------------------------------------------------------

/-- The constants of a class with a method that has tables of local variables, and `1` as a name. -/
def numberedConstants : List Constant :=
  bodyConstants ++
    [.utf8 [76, 111, 99, 97, 108, 86, 97, 114, 105, 97, 98, 108, 101, 84, 97, 98, 108, 101],
    .utf8 [49]]

/-- A table of one local variable in slot 0, which has the given name. -/
def oneLocal (name : UInt8) : Attribute := ⟨5, [0, 1, 0, 0, 0, 1, 0, name, 0, 1, 0, 0]⟩

/-- A body with such tables. -/
def tablesBody (names : List UInt8) : Bytes :=
  bodyFront ++ tableBytes Attribute.written (names.map oneLocal)

set_option maxRecDepth 2048 in
theorem split_tablesBody : Code.split (tablesBody [6]) = .ok ⟨bodyFront, [oneLocal 6]⟩ ∧
    Code.split (tablesBody [7, 6]) = .ok ⟨bodyFront, [oneLocal 7, oneLocal 6]⟩ :=
  ⟨by rfl, by rfl⟩

/-- A class with such a body. -/
def numbered (names : List UInt8) : ClassFile := bodyUser numberedConstants (tablesBody names) []

def numberedEntry (names : List UInt8) : JarEntry :=
  .ofArchive ⟨"a.class", none, bodyUserBytes numberedConstants (tablesBody names) []⟩

/-- The constants with the name that is given out for slot 0. -/
def numberedPool : Pool :=
  (numbered []).pool.append (.utf8 (ModifiedUtf8.encode "this"))

theorem isStatic_new (descriptor : String) (isStatic : Bool) (existing : List String) :
    (NameScope.new descriptor isStatic existing).isStatic = isStatic := by
  unfold NameScope.new
  rfl

theorem yields_fixRows_numbered {s : NameScope} (hStatic : s.isStatic = false) :
    Yields ((fixRows [⟨0, 1, 6, 1, 0⟩]).run s) (numbered []).pool
      (([⟨0, 1, 7, 1, 0⟩], [((0, 0), 7)]), s) numberedPool := by
  let p := (numbered []).pool
  have hSound : p.Sound := Pool.sound_ofConstants (by decide)
  have hNew : p.utf8s[ModifiedUtf8.encode "this"]? = none := hSound.utf8s_eq_none (by decide +kernel)
  have hLook : Yields ((isFine 6).run s) p (false, s) p := by
    have hBad : isIdentifier "1" = false := by decide +kernel
    rw [run_isFine]
    exact yields_bind.2 ⟨"1", p, yields_reading.2 ⟨rfl, rfl⟩,
      yields_pure.2 ⟨congrArg (·, s) hBad, rfl⟩⟩
  have hName : (NameScope.nameForSlot 0).run s = ("this", s) := by
    show (if _ then _ else _ : StateM NameScope String).run s = _
    rw [if_pos ⟨rfl, by rw [hStatic]; rfl⟩]
    rfl
  have hFresh : Yields ((fresh (NameScope.nameForSlot 0)).run s) p (7, s) numberedPool := by
    have hIntern := Pool.yields_internText hNew (by decide) (by decide)
    show Yields (Pool.internText ((NameScope.nameForSlot 0).run s).1 >>= fun index =>
      pure (index, ((NameScope.nameForSlot 0).run s).2)) p _ _
    rw [hName]
    exact yields_bind.2 ⟨7, numberedPool, hIntern, yields_pure.2 ⟨rfl, rfl⟩⟩
  refine yields_run_bind.2 ⟨false, s, p, hLook, ?_⟩
  exact yields_run_bind.2 ⟨7, s, numberedPool, hFresh,
    yields_run_bind.2 ⟨_, s, numberedPool, yields_run_pure.2 ⟨⟨rfl, rfl⟩, rfl⟩,
      yields_run_pure.2 ⟨⟨rfl, rfl⟩, rfl⟩⟩⟩

/-- A method with such a body. -/
def numberedMethod (names : List UInt8) : Member := ⟨0, 1, 4, [⟨3, tablesBody names⟩]⟩

set_option maxRecDepth 4096 in
/-- The first table of the method gets a new name. -/
theorem yields_fixMethod_numbered {more : List UInt8} (hMore : more = [] ∨ more = [6]) :
    Yields (fixMethod (numbered []).pool (numberedMethod (6 :: more))) (numbered []).pool
      (some (numberedMethod (7 :: more))) numberedPool := by
  have hStatic : (numberedMethod (6 :: more)).access.has AccessFlags.staticBit = false :=
    (by decide : AccessFlags.has 0 AccessFlags.staticBit = false)
  obtain ⟨tables, hFind, hRows, hList, hReplace⟩ : ∃ tables,
      NameTables.find (numbered []).pool (numberedMethod (6 :: more)) = .ok tables ∧
        rowsOf tables.plain = .ok [⟨0, 1, 6, 1, 0⟩] ∧ parametersOf tables.parameters = .ok [] ∧
          tables.replace (numberedMethod (6 :: more)) [⟨0, 1, 7, 1, 0⟩] [((0, 0), 7)] none =
            .ok (numberedMethod (7 :: more)) := by
    rcases hMore with rfl | rfl
    · exact ⟨_, rfl, rfl, rfl, rfl⟩
    · exact ⟨_, rfl, rfl, rfl, rfl⟩
  refine yields_fixMethod.2 ⟨"()V", tables, rfl, hFind, yields_fix.2 ?_⟩
  exact ⟨_, [], ["1"], _, _, _, numberedPool, [], false, _, hRows, hList, rfl,
    yields_fixRows_numbered ((isStatic_new ..).trans hStatic), yields_run_pure.2 ⟨⟨rfl, rfl⟩, rfl⟩,
    .inr ⟨nofun, _, hReplace, rfl⟩⟩

/-- The first table gets a new name. -/
theorem fix_numbered {more : List UInt8} (hMore : more = [] ∨ more = [6]) :
    (numbered (6 :: more)).fix (numbered (6 :: more)).fixLocalNames =
        .ok (some { numbered (7 :: more) with pool := numberedPool }) := by
  refine fix_eq_ok.2 ⟨_, numberedPool,
    yields_fixLocalNames.2 ⟨[some (numberedMethod (7 :: more))], ?_, rfl⟩, rfl⟩
  exact yields_bind.2 ⟨_, numberedPool, yields_fixMethod_numbered hMore,
    yields_pure.2 ⟨rfl, rfl⟩⟩

/-- One table and nothing beside it: its name is an identifier behind the fix, and the stage leaves
its own result as it is. -/
theorem apply_fixLocalNames_numbered : (numberedEntry [6]).kind = .classFile ∧
    (numbered [6]).fix (numbered [6]).fixLocalNames =
        .ok (some { numbered [7] with pool := numberedPool }) ∧
      (∀ m ∈ (numbered [7]).methods, MethodValid numberedPool m) ∧
      ∃ e', fixLocalNames.apply (numberedEntry [6]) = .ok (some e') ∧
        fixLocalNames.apply e' = .ok (some e') := by
  have hParse : parse (numberedEntry [6]).data = .ok (numbered [6]) := by rfl
  have hFilled : (numbered [6]).CodeFilled := by
    intro m hm a ha _
    obtain rfl := List.mem_singleton.1 hm
    obtain rfl := List.mem_singleton.1 ha
    exact (by decide : CodeBody.read.fills (tablesBody [6]) = true)
  have hFix := fix_numbered (.inl rfl)
  obtain ⟨hFixed, hRun⟩ := apply_fixLocalNames_spec rfl hParse hFilled hFix
  have hAlone : ∀ m ∈ (numbered [6]).methods, TablesAlone (numbered [6]).pool m := by
    intro m hm
    obtain rfl := List.mem_singleton.1 hm
    refine ⟨List.pairwise_singleton .., List.pairwise_singleton .., fun a ha _ code hSplit => ?_⟩
    obtain rfl := List.mem_singleton.1 ha
    obtain rfl := Except.ok.inj (split_tablesBody.1.symm.trans hSplit)
    exact List.pairwise_singleton ..
  have hValid : ∀ m ∈ (numbered [7]).methods, MethodValid numberedPool m :=
    forall_of_forall₂ hAlone (fun _ _ => trivial) hFixed.methods fun _ _ h _ hAll => hAll.2.2 h
  have hApply : fixLocalNames.apply (numberedEntry [6]) = .ok (some ((numberedEntry [6]).withData
      (bodyUserBytes (numberedConstants ++ [.utf8 [116, 104, 105, 115]]) (tablesBody [7]) []))) :=
    (apply_fixLocalNames rfl).2 ⟨_, (fixClass_eq_ok hParse).2 ⟨_, _, hFix, by rfl, rfl⟩, rfl⟩
  obtain ⟨_, hSome, -, -, hAgain⟩ := hRun _ hApply
  obtain rfl := Option.some.inj hSome
  exact ⟨rfl, hFix, hValid, _, hApply, hAgain⟩

/-- Of two tables of local variables in one body, the fix looks at the first one only. -/
theorem not_methodValid_two_tables : (numbered [6, 6]).fix (numbered [6, 6]).fixLocalNames =
      .ok (some { numbered [7, 6] with pool := numberedPool }) ∧
    ¬ ∀ m ∈ (numbered [7, 6]).methods, MethodValid numberedPool m := by
  refine ⟨fix_numbered (.inr rfl), fun hValid => ?_⟩
  obtain ⟨hBody, -⟩ := hValid _ (List.mem_singleton.2 rfl) _ (List.mem_singleton.2 rfl)
  obtain ⟨code, hSplit, hTables⟩ := hBody rfl
  obtain rfl := Except.ok.inj (split_tablesBody.2.symm.trans hSplit)
  obtain ⟨rows, hRows, hNames⟩ := hTables _ (List.mem_cons_of_mem _ (List.mem_singleton.2 rfl)) rfl
  obtain rfl := Except.ok.inj hRows
  obtain ⟨name, hText, hName⟩ := hNames _ (List.mem_singleton.2 rfl)
  obtain rfl := Except.ok.inj hText
  exact absurd hName (by decide +kernel)

end Transformer

end Jarsmith
