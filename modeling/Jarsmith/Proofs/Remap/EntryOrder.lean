import Jarsmith.Jar.Transform
import Jarsmith.Proofs.OrderedMap
import Jarsmith.Proofs.Outcome
import Jarsmith.Proofs.Remap.Lineage
import Jarsmith.Remap.Recall

/-!
# The order of the entries of a jar

A hierarchy is filled entry by entry, and answers about members are kept from one entry to the next.
Neither shows in what remapping makes of an entry, as long as no class is defined twice.

* `ClassHierarchy.ofEntries_eq_ok` — when a jar has a hierarchy, and which classes it knows.
* `MappingRemapper.Sound` — what is kept is what a search finds;
  `MappingRemapper.sound_recallMember` says that questions keep it so.
* `MappingRemapper.ext_of_node?` — a remapper depends on what is known about each class only.
* `Jar.remap_perm` — remapping does not depend on the order of entries, nor on earlier questions.
-/

namespace Jarsmith

open Outcome

-- ---------------------------------------------------------------------------
-- The classes that a jar defines
-- ---------------------------------------------------------------------------

/-- Whether an entry counts for the hierarchy: it is a class, and not for a single release. -/
def ArchiveEntry.defines (e : ArchiveEntry) : Bool := e.kind == .classFile && e.release?.isNone

namespace ClassHierarchy

variable {h h' : ClassHierarchy} {bytes : Bytes} {jar : String} {e : Error}
  {entries entries' : List ArchiveEntry} {d : String × ClassNode}

/-- The class that bytes hold, and what a hierarchy knows about it. -/
def definition (bytes : Bytes) : ClassResult (String × ClassNode) := do
  let c ← ClassFile.decode bytes
  let node ← ClassNode.ofClassFile c
  let name ← c.pool.storedClassName c.thisClass
  pure (name, node)

theorem add_eq : h.add bytes =
    (fun d => ⟨h.classes.insert d.1 d.2⟩) <$> definition bytes := by
  unfold add definition
  cases ClassFile.decode bytes with
  | error fault => rfl
  | ok c =>
    show (ClassNode.ofClassFile c >>= _) = _ <$> (ClassNode.ofClassFile c >>= _)
    cases ClassNode.ofClassFile c with
    | error fault => rfl
    | ok node =>
      show (c.pool.storedClassName c.thisClass >>= _) =
        _ <$> (c.pool.storedClassName c.thisClass >>= _)
      cases c.pool.storedClassName c.thisClass <;> rfl

/-- What an entry defines, if it counts and can be read. -/
def defined? (e : ArchiveEntry) : Option (String × ClassNode) :=
  if e.defines then (definition e.data).toOption else none

/-- The classes that the entries of a jar define, in order. -/
def definedClasses (entries : List ArchiveEntry) : List (String × ClassNode) :=
  entries.filterMap defined?

/-- Whether an entry does not count, or can be read. -/
def IsReadable (e : ArchiveEntry) : Prop := e.defines = true → ∃ d, definition e.data = .ok d

theorem defined?_of_definition {e : ArchiveEntry} (hDefines : e.defines = true)
    (hOk : definition e.data = .ok d) : defined? e = some d := by
  rw [defined?, if_pos hDefines, hOk]
  rfl

theorem defined?_of_not_defines {e : ArchiveEntry} (hNot : ¬ e.defines = true) :
    defined? e = none := if_neg hNot

/-- Takes in an entry that counts. -/
def addEntry (jar : String) (h : ClassHierarchy) (e : ArchiveEntry) : Result ClassHierarchy :=
  (h.add e.data).mapError (.malformedClass e.name jar)

theorem addEntry_of_ok {e : ArchiveEntry} (hOk : definition e.data = .ok d) :
    addEntry jar h e = .ok ⟨h.classes.insert d.1 d.2⟩ := by
  rw [addEntry, add_eq, hOk]
  rfl

theorem addEntry_of_error {e : ArchiveEntry} {fault : ClassFault}
    (hError : definition e.data = .error fault) :
    addEntry jar h e = .error (.malformedClass e.name jar fault) := by
  rw [addEntry, add_eq, hError]
  rfl

theorem ofEntries_eq_foldlM :
    ofEntries jar entries = (entries.filter ArchiveEntry.defines).foldlM (addEntry jar) empty := rfl

/-- Entries that can all be read are taken in one after the other. -/
theorem foldlM_addEntry_eq_ok :
    (entries.filter ArchiveEntry.defines).foldlM (addEntry jar) h = .ok h' ↔
      (∀ e ∈ entries, IsReadable e) ∧
        (definedClasses entries).foldl (fun m d => m.insert d.1 d.2) h.classes = h'.classes := by
  induction entries generalizing h with
  | nil =>
    rw [List.filter_nil, List.foldlM_nil, pure_ok_iff]
    constructor
    · rintro rfl
      exact ⟨nofun, rfl⟩
    · rintro ⟨-, hSame⟩
      exact congrArg ClassHierarchy.mk hSame
  | cons e more ih =>
    rw [List.forall_mem_cons]
    by_cases hDefines : e.defines = true
    · rw [List.filter_cons_of_pos hDefines, List.foldlM_cons, bind_ok_iff]
      cases hDefinition : definition e.data with
      | error fault =>
        rw [addEntry_of_error hDefinition]
        refine iff_of_false (by simp) fun hAll => ?_
        obtain ⟨d, hOk⟩ := hAll.1.1 hDefines
        cases hDefinition.symm.trans hOk
      | ok d =>
        have hReadable : IsReadable e := fun _ => ⟨d, hDefinition⟩
        rw [addEntry_of_ok hDefinition, and_iff_right hReadable, definedClasses,
          List.filterMap_cons_some (defined?_of_definition hDefines hDefinition), List.foldl_cons]
        simp only [Except.ok.injEq, exists_eq_left']
        exact ih
    · have hReadable : IsReadable e := fun hNo => absurd hNo hDefines
      rw [List.filter_cons_of_neg hDefines, and_iff_right hReadable, definedClasses,
        List.filterMap_cons_none (defined?_of_not_defines hDefines)]
      exact ih

/-- **When a jar has a hierarchy**, and which classes it knows: every entry that counts can be read,
and the classes are those that the entries define. -/
theorem ofEntries_eq_ok : ofEntries jar entries = .ok h ↔
    (∀ e ∈ entries, IsReadable e) ∧ OrderedMap.ofList (definedClasses entries) = h.classes :=
  foldlM_addEntry_eq_ok

/-- A hierarchy that cannot be made fails as one of the entries by itself does. -/
theorem exists_of_foldlM_error
    (hError : (entries.filter ArchiveEntry.defines).foldlM (addEntry jar) h = .error e) :
    ∃ x ∈ entries, ofEntries jar [x] = .error e := by
  induction entries generalizing h with
  | nil => cases hError
  | cons x more ih =>
    by_cases hDefines : x.defines = true
    · rw [List.filter_cons_of_pos hDefines, List.foldlM_cons, bind_error_iff] at hError
      obtain hFirst | ⟨next, -, hMore⟩ := hError
      · refine ⟨x, List.mem_cons_self, ?_⟩
        cases hDefinition : definition x.data with
        | error fault =>
          rw [addEntry_of_error hDefinition] at hFirst
          rw [ofEntries_eq_foldlM, List.filter_cons_of_pos hDefines, List.foldlM_cons,
            addEntry_of_error hDefinition]
          exact hFirst
        | ok d =>
          rw [addEntry_of_ok hDefinition] at hFirst
          cases hFirst
      · obtain ⟨y, hMem, hAlone⟩ := ih hMore
        exact ⟨y, List.mem_cons_of_mem _ hMem, hAlone⟩
    · rw [List.filter_cons_of_neg hDefines] at hError
      obtain ⟨y, hMem, hAlone⟩ := ih hError
      exact ⟨y, List.mem_cons_of_mem _ hMem, hAlone⟩

/-- Looking up a class that is defined once. -/
theorem node?_ofEntries {name : String} {node : ClassNode} (hOk : ofEntries jar entries = .ok h)
    (hOnce : ((definedClasses entries).map Prod.fst).Nodup) :
    h.node? name = some node ↔ (name, node) ∈ definedClasses entries := by
  obtain ⟨-, hClasses⟩ := ofEntries_eq_ok.1 hOk
  rw [node?, ← hClasses, OrderedMap.get?_eq_some, OrderedMap.entries_ofList hOnce]

/-- The same entries in another order: both jars have a hierarchy or none, and both hierarchies know
the same about each class. -/
theorem ofEntries_perm (hPerm : entries.Perm entries')
    (hOnce : ((definedClasses entries).map Prod.fst).Nodup)
    (hOk : ofEntries jar entries = .ok h) :
    ∃ h', ofEntries jar entries' = .ok h' ∧ ∀ name, h'.node? name = h.node? name := by
  have hDefined : (definedClasses entries).Perm (definedClasses entries') := hPerm.filterMap _
  have hOnce' : ((definedClasses entries').map Prod.fst).Nodup := (hDefined.map _).nodup_iff.1 hOnce
  obtain ⟨hReadable, -⟩ := ofEntries_eq_ok.1 hOk
  have hOk' : ofEntries jar entries' = .ok ⟨.ofList (definedClasses entries')⟩ :=
    ofEntries_eq_ok.2 ⟨fun e hMem => hReadable e (hPerm.mem_iff.2 hMem), rfl⟩
  refine ⟨_, hOk', fun name => Option.ext fun node => ?_⟩
  rw [node?_ofEntries hOk' hOnce', node?_ofEntries hOk hOnce, hDefined.mem_iff]

/-- A lineage depends on what is known about each class only. -/
theorem lineage_congr (hSame : ∀ name, h'.node? name = h.node? name) (name : String) :
    h'.lineage name = h.lineage name := by
  have hRenamed : Renamed id (fun _ => True) h h' :=
    ⟨fun _ _ hEq => hEq, fun _ _ _ _ _ _ => trivial, fun {a} _ => by simp [hSame]⟩
  have hLineage : h'.lineage (id name) = (h.lineage name).map id := hRenamed.lineage trivial
  rwa [List.map_id] at hLineage

end ClassHierarchy

-- ---------------------------------------------------------------------------
-- Answers that are kept
-- ---------------------------------------------------------------------------

namespace MappingRemapper

variable {r r' : MappingRemapper} {known : MemberAnswers} {owner : String} {key : MemberKey}

/-- A remapper depends on what is known about each class only. -/
theorem ext_of_node? {set : MappingSet} {h h' : ClassHierarchy}
    (hSame : ∀ name, h'.node? name = h.node? name) :
    (MappingRemapper.mk set h').toRemapper = (MappingRemapper.mk set h).toRemapper := by
  have hMethod : ∀ owner key classes, (MappingRemapper.mk set h').searchMethod owner key classes =
      (MappingRemapper.mk set h).searchMethod owner key classes := by
    intro owner key classes
    induction classes with
    | nil => rfl
    | cons c more ih =>
      have hPrivate : h'.isPrivateMethod c key = h.isPrivateMethod c key := by
        rw [ClassHierarchy.isPrivateMethod, ClassHierarchy.isPrivateMethod, hSame]
      simp only [searchMethod, hPrivate, ih]
      rfl
  have hField : ∀ owner key classes, (MappingRemapper.mk set h').searchField owner key classes =
      (MappingRemapper.mk set h).searchField owner key classes := by
    intro owner key classes
    induction classes with
    | nil => rfl
    | cons c more ih =>
      have hPrivate : h'.isPrivateField c key = h.isPrivateField c key := by
        rw [ClassHierarchy.isPrivateField, ClassHierarchy.isPrivateField, hSame]
      have hDeclares : h'.declaresField c key = h.declaresField c key := by
        rw [ClassHierarchy.declaresField, ClassHierarchy.declaresField, hSame]
      simp only [searchField, hPrivate, hDeclares, ih]
      rfl
  unfold toRemapper
  rw [Remapper.mk.injEq]
  refine ⟨rfl, ?_, ?_, rfl, rfl⟩
  · funext owner key
    rw [field?, field?, ClassHierarchy.lineage_congr hSame, hField]
  · funext owner key
    rw [method?, method?, ClassHierarchy.lineage_congr hSame, hMethod]

/-- What is kept is what a search finds. Nothing is kept about constructors and initializers. -/
structure Sound (r : MappingRemapper) (known : MemberAnswers) : Prop where
  methods : ∀ {owner key answer}, known.methods.get? (owner, key) = some answer →
    answer = r.method? owner key
  fields : ∀ {owner key answer}, known.fields.get? (owner, key) = some answer →
    answer = r.field? owner key

/-- The answer that a search finds. -/
def search (r : MappingRemapper) : MemberQuestion → Option String
  | .method owner key => r.method? owner key
  | .field owner key => r.field? owner key

theorem sound_empty : r.Sound .empty := ⟨nofun, nofun⟩

theorem run_recallMethod (known : MemberAnswers) (owner : String) (key : MemberKey) :
    (r.recallMethod owner key).run known =
      if Text.startsWith key.name "<" then (none, known)
      else match known.methods.get? (owner, key) with
        | some answer => (answer, known)
        | none =>
          let answer := r.searchMethod owner key (r.hierarchy.lineage owner)
          (answer, { known with methods := known.methods.insert (owner, key) answer }) := by
  unfold recallMethod
  split
  · rfl
  · show StateT.run (match known.methods.get? (owner, key) with
      | some answer => (pure answer : StateM MemberAnswers _)
      | none => _) known = _
    cases known.methods.get? (owner, key) <;> rfl

theorem run_recallField (known : MemberAnswers) (owner : String) (key : MemberKey) :
    (r.recallField owner key).run known =
      match known.fields.get? (owner, key) with
        | some answer => (answer, known)
        | none =>
          let answer := r.searchField owner key (r.hierarchy.lineage owner)
          (answer, { known with fields := known.fields.insert (owner, key) answer }) := by
  show StateT.run (match known.fields.get? (owner, key) with
    | some answer => (pure answer : StateM MemberAnswers _)
    | none => _) known = _
  cases known.fields.get? (owner, key) <;> rfl

theorem recallMethod_spec (hSound : r.Sound known) :
    ((r.recallMethod owner key).run known).1 = r.method? owner key ∧
      r.Sound ((r.recallMethod owner key).run known).2 := by
  rw [run_recallMethod]
  split
  · rename_i hInitializer
    exact ⟨by rw [method?, if_pos hInitializer], hSound⟩
  · rename_i hPlain
    have hFound : r.searchMethod owner key (r.hierarchy.lineage owner) = r.method? owner key := by
      rw [method?, if_neg hPlain]
    cases hKept : known.methods.get? (owner, key) with
    | some answer => exact ⟨hSound.methods hKept, hSound⟩
    | none =>
      refine ⟨hFound, fun {o k answer} hGet => ?_, hSound.fields⟩
      have hInsert := OrderedMap.get?_insert known.methods (o, k) (owner, key)
        (r.searchMethod owner key (r.hierarchy.lineage owner))
      rw [hInsert] at hGet
      split at hGet
      · rename_i hSame
        cases hSame
        exact (Option.some.inj hGet).symm.trans hFound
      · exact hSound.methods hGet

theorem recallField_spec (hSound : r.Sound known) :
    ((r.recallField owner key).run known).1 = r.field? owner key ∧
      r.Sound ((r.recallField owner key).run known).2 := by
  rw [run_recallField]
  cases hKept : known.fields.get? (owner, key) with
  | some answer => exact ⟨hSound.fields hKept, hSound⟩
  | none =>
    refine ⟨rfl, hSound.methods, fun {o k answer} hGet => ?_⟩
    have hInsert := OrderedMap.get?_insert known.fields (o, k) (owner, key)
      (r.searchField owner key (r.hierarchy.lineage owner))
    rw [hInsert] at hGet
    split at hGet
    · rename_i hSame
      cases hSame
      exact (Option.some.inj hGet).symm
    · exact hSound.fields hGet

/-- A question is answered as by a search, and what is kept stays what a search finds. -/
theorem sound_recallMember (hSound : r.Sound known) (question : MemberQuestion) :
    ((r.recallMember question).run known).1 = r.search question ∧
      r.Sound ((r.recallMember question).run known).2 := by
  cases question with
  | method owner key => exact recallMethod_spec hSound
  | field owner key => exact recallField_spec hSound

/-- Whatever was asked, what is kept is what a search finds. -/
theorem sound_answersAfter (asked : List MemberQuestion) : r.Sound (r.answersAfter asked) := by
  have hFold : ∀ known, r.Sound known →
      r.Sound (asked.foldl (fun known question => ((r.recallMember question).run known).2)
        known) := by
    induction asked with
    | nil => exact fun _ hSound => hSound
    | cons question more ih => exact fun known hSound => ih _ (sound_recallMember hSound question).2
  exact hFold .empty sound_empty

/-- A kept answer is the one that a search finds, whatever was asked before. -/
theorem answerAfter_eq (asked : List MemberQuestion) (question : MemberQuestion) :
    r.answerAfter asked question = r.search question :=
  (sound_recallMember (sound_answersAfter asked) question).1

/-- A remapper whose answers about members come out of what is kept: each is given behind some
earlier questions, which may be other ones every time. -/
structure Backs (r : MappingRemapper) (q : Remapper) : Prop where
  class? : q.class? = r.class?
  element? : q.element? = r.element?
  parameter? : q.parameter? = r.parameter?
  method? : ∀ owner key, ∃ asked, q.method? owner key = r.answerAfter asked (.method owner key)
  field? : ∀ owner key, ∃ asked, q.field? owner key = r.answerAfter asked (.field owner key)

/-- Earlier questions do not show. -/
theorem Backs.eq {q : Remapper} (hBacks : r.Backs q) : q = r.toRemapper := by
  obtain ⟨cls, field, method, element, parameter⟩ := q
  obtain ⟨hClass, hElement, hParameter, hMethod, hField⟩ := hBacks
  unfold toRemapper
  rw [Remapper.mk.injEq]
  refine ⟨hClass, ?_, ?_, hElement, hParameter⟩
  · funext owner key
    obtain ⟨asked, hAnswer⟩ := hField owner key
    exact hAnswer.trans (answerAfter_eq asked _)
  · funext owner key
    obtain ⟨asked, hAnswer⟩ := hMethod owner key
    exact hAnswer.trans (answerAfter_eq asked _)

theorem backs_toRemapper : r.Backs r.toRemapper :=
  ⟨rfl, rfl, rfl, fun owner key => ⟨[], (answerAfter_eq [] (.method owner key)).symm⟩,
    fun owner key => ⟨[], (answerAfter_eq [] (.field owner key)).symm⟩⟩

end MappingRemapper

-- ---------------------------------------------------------------------------
-- Remapping a jar
-- ---------------------------------------------------------------------------

namespace Jar

open ClassHierarchy

/-- **Remapping does not depend on the order of entries, nor on earlier questions.** A jar in which
no class is defined twice, and the same entries in another order, either both have a hierarchy or
both fail as one of the entries by itself does. Remapping with the one hierarchy makes of each entry
what remapping with the other makes of it, the same entry or the same error, whatever answers were
kept before. Each answer that is kept is the one that a search finds. -/
theorem remap_perm (set : MappingSet) (jar : String) {entries entries' : List ArchiveEntry}
    (hPerm : entries.Perm entries') (hOnce : ((definedClasses entries).map Prod.fst).Nodup) :
    ((∃ h h', ofEntries jar entries = .ok h ∧ ofEntries jar entries' = .ok h' ∧
        ∀ q q', (MappingRemapper.mk set h).Backs q → (MappingRemapper.mk set h').Backs q' →
          ∀ e ∈ entries, transformEntry jar [.remap q] e = transformEntry jar [.remap q'] e) ∨
      ∃ error error', ofEntries jar entries = .error error ∧
        ofEntries jar entries' = .error error' ∧
        (∃ e ∈ entries, ofEntries jar [e] = .error error) ∧
        ∃ e ∈ entries, ofEntries jar [e] = .error error') ∧
    ∀ h asked question, (MappingRemapper.mk set h).answerAfter asked question =
      (MappingRemapper.mk set h).search question := by
  refine ⟨?_, fun h asked question => MappingRemapper.answerAfter_eq asked question⟩
  cases hFirst : ofEntries jar entries with
  | ok h =>
    obtain ⟨h', hSecond, hSame⟩ := ofEntries_perm hPerm hOnce hFirst
    refine .inl ⟨h, h', rfl, hSecond, fun q q' hBacks hBacks' e _ => ?_⟩
    rw [hBacks.eq, hBacks'.eq, MappingRemapper.ext_of_node? hSame]
  | error error =>
    cases hSecond : ofEntries jar entries' with
    | ok h' =>
      have hOnce' := ((hPerm.filterMap defined?).map Prod.fst).nodup_iff.1 hOnce
      obtain ⟨h, hOk, -⟩ := ofEntries_perm hPerm.symm hOnce' hSecond
      cases hFirst.symm.trans hOk
    | error error' =>
      obtain ⟨x, hMem, hAlone⟩ := exists_of_foldlM_error hFirst
      obtain ⟨y, hMem', hAlone'⟩ := exists_of_foldlM_error hSecond
      exact .inr ⟨error, error', rfl, rfl, ⟨x, hMem, hAlone⟩, y, hPerm.mem_iff.2 hMem', hAlone'⟩

/-- The class `a`, which has a method `m`. -/
def ancestorEntry : ArchiveEntry := ⟨"a.class", none,
  [0xca, 0xfe, 0xba, 0xbe, 0, 0, 0, 0x3d, 0, 5, 1, 0, 1, 0x61, 7, 0, 1, 1, 0, 1, 0x6d, 1, 0, 3,
    0x28, 0x29, 0x56, 0, 0x21, 0, 2, 0, 0, 0, 0, 0, 0, 0, 1, 0, 1, 0, 3, 0, 4, 0, 0, 0, 0]⟩

/-- The class `b` below `a`. -/
def heirEntry : ArchiveEntry := ⟨"b.class", none,
  [0xca, 0xfe, 0xba, 0xbe, 0, 0, 0, 0x3d, 0, 5, 1, 0, 1, 0x62, 7, 0, 1, 1, 0, 1, 0x61, 7, 0, 3,
    0, 0x21, 0, 2, 0, 4, 0, 0, 0, 0, 0, 0, 0, 0]⟩

/-- Names for the class and its method. -/
def ancestorNames : MappingSet :=
  ((∅ : MappingSet).addClass "a" "world/Base").addMethod "a" "m" "()V" "tick"

/-- In a hierarchy that knows these classes, `b` stands below `a`. -/
theorem heir_method? {h : ClassHierarchy}
    (hHeir : (h.node? "b").map ClassNode.parents = some ["a"])
    (hAncestor : (h.node? "a").map ClassNode.parents = some [])
    (hSees : h.isPrivateMethod "a" ⟨"m", "()V"⟩ = false) :
    (MappingRemapper.mk ancestorNames h).method? "b" ⟨"m", "()V"⟩ = some "tick" := by
  have hLineage : h.lineage "b" = ["b", "a"] := by
    rw [lineage, walk_new (by decide), hHeir, Option.getD_some, List.nil_append,
      walk_new (by decide), hAncestor, Option.getD_some, List.nil_append, walk_nil]
  have hOwn : (MappingRemapper.mk ancestorNames h).listedMethod? "b" ⟨"m", "()V"⟩ = none := by rfl
  have hAbove : (MappingRemapper.mk ancestorNames h).listedMethod? "a" ⟨"m", "()V"⟩ = some "tick" := by
    rfl
  rw [MappingRemapper.method?, if_neg (by decide), hLineage]
  simp only [MappingRemapper.searchMethod, hSees, hOwn, hAbove]
  rfl

theorem remap_perm_heirFirst :
    (definedClasses [ancestorEntry, heirEntry]).map Prod.fst = ["a", "b"] ∧
      (∃ h h', ofEntries "game.jar" [ancestorEntry, heirEntry] = .ok h ∧
        ofEntries "game.jar" [heirEntry, ancestorEntry] = .ok h' ∧
        (MappingRemapper.mk ancestorNames h').method? "b" ⟨"m", "()V"⟩ = some "tick" ∧
        ∀ e ∈ [ancestorEntry, heirEntry],
          transformEntry "game.jar" [.remap (MappingRemapper.mk ancestorNames h).toRemapper] e =
            transformEntry "game.jar" [.remap (MappingRemapper.mk ancestorNames h').toRemapper] e) ∧
      ∀ h, (MappingRemapper.mk ancestorNames h).answerAfter [.method "a" ⟨"m", "()V"⟩]
        (.method "b" ⟨"m", "()V"⟩) =
          (MappingRemapper.mk ancestorNames h).method? "b" ⟨"m", "()V"⟩ := by
  have hNames : (definedClasses [ancestorEntry, heirEntry]).map Prod.fst = ["a", "b"] := by
    decide +kernel
  have hPerm : [ancestorEntry, heirEntry].Perm [heirEntry, ancestorEntry] := .swap _ _ []
  have hRemap := remap_perm ancestorNames "game.jar" hPerm (hNames ▸ by decide)
  have hParents : (ofEntries "game.jar" [heirEntry, ancestorEntry]).map (fun h =>
      ((h.node? "b").map ClassNode.parents, (h.node? "a").map ClassNode.parents,
        h.isPrivateMethod "a" ⟨"m", "()V"⟩)) = .ok (some ["a"], some [], false) := by decide +kernel
  refine ⟨hNames, ?_, fun h => hRemap.2 h _ _⟩
  obtain ⟨h, h', hOk, hOk', hSame⟩ | ⟨_, error, -, hError, -⟩ := hRemap.1
  · rw [hOk'] at hParents
    obtain ⟨hHeir, hRest⟩ := Prod.mk.inj (Except.ok.inj hParents)
    obtain ⟨hAncestor, hSees⟩ := Prod.mk.inj hRest
    exact ⟨h, h', hOk, hOk', heir_method? hHeir hAncestor hSees,
      hSame _ _ MappingRemapper.backs_toRemapper MappingRemapper.backs_toRemapper⟩
  · rw [hError] at hParents
    cases hParents

end Jar

end Jarsmith
