import Jarsmith.Proofs.Mappings.Overlay
import Jarsmith.Proofs.Mappings.Tiny

/-!
# Projecting tiny files

The table from one namespace of a file into another one lists every class under its name in the
source namespace, and its members with descriptors in the source namespace. These descriptors are
written by the classes of the file alone, each for itself. The table from the first namespace into
the source namespace translates a descriptor in two ways, one of which lets an inner class without
an entry follow the class around it; the members of the file have descriptors of the other kind.

* `TinyFile.Revision` — what a line does to a file.
* `TinyFile.KeyedByFirst` — every class stands under its first name; `keyedByFirst_of_parse`.
* `TinyFile.classes_project` — the classes of a projection, in the order of the file.
* `TinyFile.listsMembers_projected` — the members of a class of a projection.
* `TinyFile.descriptorIn_eq` — the projection reads descriptors as the overlay of a table does.
* `TinyFile.descriptors_projected` — what the members of a projection are called, and where that is
  what the table of the source namespace says.
-/

namespace Jarsmith.TinyFile

open Mappings Tiny

variable {file : TinyFile} {name text : String} {c : ClassEntry} {source target index : Nat}

-- ---------------------------------------------------------------------------
-- Classes by their first names
-- ---------------------------------------------------------------------------

/-- Every class stands under its name in the first namespace. -/
def KeyedByFirst (file : TinyFile) : Prop :=
  ∀ k c, file.classes.get? k = some c → nameIn c.names 0 = k

theorem nameIn_replicate (width : Nat) (name : String) :
    nameIn (List.replicate (max 1 width) name) 0 = name := by
  obtain ⟨n, hWidth⟩ : ∃ n, max 1 width = n + 1 := ⟨max 1 width - 1, by omega⟩
  rw [hWidth, List.replicate_succ, nameIn_zero]

/-- A file behind a line that was read: no class has changed, or one has and keeps its first name.
Namespaces never change. -/
inductive Revision (file : TinyFile) : TinyFile → Prop where
  | same : Revision file file
  | edit {name : String} {f : ClassEntry → ClassEntry} :
      (∀ c, nameIn c.names 0 = name → nameIn (f c).names 0 = name) →
      Revision file (file.editClass name f)

theorem Revision.namespaces {after : TinyFile} (h : Revision file after) :
    after.namespaces = file.namespaces := by
  cases h <;> rfl

theorem KeyedByFirst.revision {after : TinyFile} (h : file.KeyedByFirst)
    (hAfter : Revision file after) : after.KeyedByFirst := by
  cases hAfter with
  | same => exact h
  | @edit name f hf =>
    intro k c hGet
    rw [TinyFile.editClass, OrderedMap.update, OrderedMap.get?_insert] at hGet
    split at hGet
    · rename_i hKey
      obtain rfl := hKey
      obtain rfl := Option.some.inj hGet
      refine hf _ ?_
      cases hOld : file.classes.get? name with
      | none => exact nameIn_replicate file.width name
      | some old => exact h name old hOld
    · exact h k c hGet

theorem names_push (c : ClassEntry) (kind : MemberKind) (m : Tiny.Member) :
    (c.push kind m).names = c.names := by
  cases kind <;> rfl

theorem names_changeLast (c : ClassEntry) (kind : MemberKind) (f : Tiny.Member → Tiny.Member) :
    (c.changeLast kind f).names = c.names := by
  cases kind <;> rfl

/-- A change of a class that lets its names stand. -/
theorem Revision.of_names {f : ClassEntry → ClassEntry} (hNames : ∀ c, (f c).names = c.names) :
    Revision file (file.editClass name f) :=
  .edit fun c hName => (congrArg (nameIn · 0) (hNames c)).trans hName

theorem revision_stepV1 {after : TinyFile} {line : String} (hStep : file.stepV1 line = .ok after) :
    Revision file after := by
  unfold stepV1 at hStep
  split at hStep
  · cases hStep
    exact .same
  split at hStep
  · split at hStep
    · split at hStep
      · cases hStep
        exact .edit fun _ _ => nameIn_zero _ _
      · cases hStep
    · cases hStep
  · dsimp only at hStep
    split at hStep
    · split at hStep
      · cases hStep
        exact .of_names fun c => names_push c _ _
      · cases hStep
    · cases hStep
  · cases hStep

section VersionTwo

variable {read : String → String} {p q : Progress} {line : String} {columns : List String}

/-- What a line under a member can come to. -/
theorem editMember_cases (f : Tiny.Member → Tiny.Member) :
    (∃ owner edit, p.owner = some owner ∧ (∀ c, (edit c).names = c.names) ∧
      p.editMember f = .ok { p with file := p.file.editClass owner edit }) ∨
    p.editMember f = .error .detailOutsideMember := by
  unfold Progress.editMember
  split
  · rename_i owner kind hOwner _
    exact .inl ⟨owner, _, hOwner, fun c => names_changeLast c kind f, rfl⟩
  · exact .inr rfl

theorem revision_readClass (hStep : readClass read p line columns = .ok q) :
    Revision p.file q.file := by
  unfold readClass at hStep
  split at hStep
  · split at hStep
    · split at hStep
      · cases hStep
        exact .edit fun _ _ => nameIn_zero _ _
      · cases hStep
    · cases hStep
  · cases hStep

/-- What a line under a class can come to. -/
theorem readMember_cases (read : String → String) (p : Progress) (line : String)
    (columns : List String) :
    (∃ owner edit member, p.owner = some owner ∧ (∀ c, (edit c).names = c.names) ∧
      readMember read p line columns =
        .ok { p with file := p.file.editClass owner edit, member := member }) ∨
    ∃ fault ∈ [.memberOutsideClass, .commentOutsideClass, .unrecognizedLine line],
      readMember read p line columns = .error fault := by
  unfold readMember
  extract_lets member comment
  have hMember (kind : MemberKind) (descriptor : String) (names : List String) :
      (∃ owner edit last, p.owner = some owner ∧ (∀ c, (edit c).names = c.names) ∧
        member kind descriptor names =
          .ok { p with file := p.file.editClass owner edit, member := last }) ∨
      ∃ fault ∈ [.memberOutsideClass, .commentOutsideClass, .unrecognizedLine line],
        member kind descriptor names = .error fault := by
    dsimp only [member]
    split
    · rename_i owner hOwner
      exact .inl ⟨owner, _, _, hOwner, fun c => names_push c _ _, rfl⟩
    · exact .inr ⟨_, by simp, rfl⟩
  have hComment : (∃ owner edit last, p.owner = some owner ∧ (∀ c, (edit c).names = c.names) ∧
      comment = .ok { p with file := p.file.editClass owner edit, member := last }) ∨
      ∃ fault ∈ [.memberOutsideClass, .commentOutsideClass, .unrecognizedLine line],
        comment = .error fault := by
    dsimp only [comment]
    split
    · rename_i text owner hOwner
      exact .inl ⟨owner, fun c => { c with javadoc := some (unescape text) }, none, hOwner,
        fun _ => rfl, rfl⟩
    · exact .inr ⟨_, by simp, rfl⟩
    · exact .inr ⟨_, by simp, rfl⟩
  split
  · split
    · exact hMember _ _ _
    · exact hComment
  · split
    · exact hMember _ _ _
    · exact hComment
  · exact hComment

/-- What a line under a member, or a local variable, can come to. -/
theorem readDetail_cases (read : String → String) (p : Progress) (line : String)
    (columns : List String) :
    (∃ owner edit, p.owner = some owner ∧ (∀ c, (edit c).names = c.names) ∧
      readDetail read p line columns = .ok { p with file := p.file.editClass owner edit }) ∨
    (columns.head? = some "v" ∧ readDetail read p line columns = .ok p) ∨
    ∃ fault, (fault = .detailOutsideMember ∨ fault = .unrecognizedLine line ∨
        ∃ text, fault = .badParameterIndex text) ∧
      readDetail read p line columns = .error fault := by
  unfold readDetail
  split
  · obtain hEdit | hEdit := editMember_cases (p := p) _
    · exact .inl hEdit
    · exact .inr (.inr ⟨_, .inl rfl, hEdit⟩)
  · rename_i index names
    split
    · cases hSlot : slot index with
      | ok i =>
        obtain hEdit | hEdit := editMember_cases (p := p) _
        · exact .inl hEdit
        · exact .inr (.inr ⟨_, .inl rfl, hEdit⟩)
      | error fault =>
        exact .inr (.inr ⟨fault, .inr (.inr ⟨index, slot_eq_error hSlot⟩), rfl⟩)
    · exact .inr (.inr ⟨_, .inr (.inl rfl), rfl⟩)
  · exact .inr (.inl ⟨rfl, rfl⟩)
  · exact .inr (.inr ⟨_, .inr (.inl rfl), rfl⟩)

/-- What a line of version 2 does to the file. -/
theorem revision_stepV2 (hStep : stepV2 read p line = .ok q) : Revision p.file q.file := by
  unfold stepV2 at hStep
  split at hStep
  · cases hStep
    exact .same
  dsimp only at hStep
  split at hStep
  · exact revision_readClass hStep
  · obtain ⟨owner, edit, member, -, hNames, hOk⟩ | ⟨fault, -, hError⟩ :=
      readMember_cases read p (Text.trim line) _
    · obtain rfl := Except.ok.inj (hOk.symm.trans hStep)
      exact .of_names hNames
    · cases hError.symm.trans hStep
  · obtain ⟨owner, edit, -, hNames, hOk⟩ | ⟨-, hOk⟩ | ⟨fault, -, hError⟩ :=
      readDetail_cases read p (Text.trim line) _
    · obtain rfl := Except.ok.inj (hOk.symm.trans hStep)
      exact .of_names hNames
    · obtain rfl := Except.ok.inj (hOk.symm.trans hStep)
      exact .same
    · cases hError.symm.trans hStep
  · cases hStep
    exact .same
  · cases hStep

end VersionTwo

/-- **In a file that was read every class stands under its first name.** -/
theorem keyedByFirst_of_parse (hParse : parse text = .ok file) : file.KeyedByFirst := by
  have hEmpty : ∀ namespaces, (⟨namespaces, ∅⟩ : TinyFile).KeyedByFirst := by
    rintro namespaces k c hGet
    cases hGet
  unfold parse at hParse
  split at hParse
  · split at hParse
    · obtain ⟨p, hRead, rfl⟩ := Outcome.map_ok_iff.1 hParse
      exact readLines_invariant (P := fun p : Progress => p.file.KeyedByFirst)
        (fun _ _ _ h hStep => h.revision (revision_stepV2 hStep)) (hEmpty _) hRead
    · split at hParse
      · exact readLines_invariant (P := KeyedByFirst)
          (fun _ _ _ h hStep => h.revision (revision_stepV1 hStep)) (hEmpty _) hParse
      · cases hParse
  · cases hParse

-- ---------------------------------------------------------------------------
-- Members
-- ---------------------------------------------------------------------------

/-- The entry of a class in a projection, without its members. -/
def heading (target : Nat) (c : ClassEntry) : ClassMapping :=
  { ClassMapping.new (nameIn c.names target) with javadoc := c.javadoc }

/-- The entry of a class in a projection. -/
def projected (file : TinyFile) (source target : Nat) (c : ClassEntry) : ClassMapping :=
  c.methods.foldl (file.projectMethod source target) <|
    c.fields.foldl (file.projectField source target) (heading target c)

section Members

variable {mapping : ClassMapping} {m : Tiny.Member}

theorem fieldKeys_projectField {k : FieldKey} :
    k ∈ (file.projectField source target mapping m).fields.keys ↔
      k = ⟨nameIn m.names source, some (file.descriptorIn source m.descriptor)⟩ ∨
        k ∈ mapping.fields.keys := by
  unfold projectField
  cases m.javadoc with
  | none => exact OrderedMap.mem_keys_insert
  | some text =>
    refine OrderedMap.mem_keys_insert.trans ?_
    rw [ClassMapping.addField, OrderedMap.mem_keys_insert, or_self_left]

theorem methods_projectField :
    (file.projectField source target mapping m).methods = mapping.methods := by
  unfold projectField
  cases m.javadoc <;> rfl

theorem named_projectField : (file.projectField source target mapping m).named = mapping.named := by
  unfold projectField
  cases m.javadoc <;> rfl

/-- A method is listed, and everything more that is said about it is said under its key. -/
theorem projectMethod_cases (file : TinyFile) (source target : Nat) (mapping : ClassMapping)
    (m : Tiny.Member) :
    ∃ methods : OrderedMap MethodKey MethodMapping,
      file.projectMethod source target mapping m = { mapping with methods := methods } ∧
      ∀ k, k ∈ methods.keys ↔
        k = ⟨nameIn m.names source, file.descriptorIn source m.descriptor⟩ ∨
          k ∈ mapping.methods.keys := by
  set key : MethodKey := ⟨nameIn m.names source, file.descriptorIn source m.descriptor⟩ with hKey
  let Lists (c : ClassMapping) : Prop := ∃ methods : OrderedMap MethodKey MethodMapping,
    c = { mapping with methods := methods } ∧
      ∀ k, k ∈ methods.keys ↔ k = key ∨ k ∈ mapping.methods.keys
  have hEdit : ∀ c f, Lists c → Lists (c.editMethod key f) := by
    rintro _ f ⟨methods, rfl, hKeys⟩
    refine ⟨_, rfl, fun k => ?_⟩
    rw [OrderedMap.update, OrderedMap.mem_keys_insert, hKeys, or_self_left]
  have hAdd : Lists (mapping.addMethod key (nameIn m.names target)) :=
    ⟨_, rfl, fun k => OrderedMap.mem_keys_insert⟩
  unfold projectMethod
  rw [← hKey]
  refine List.foldlRecOn (motive := Lists) m.parameters _ ?_ fun c hLists e _ => ?_
  · cases m.javadoc with
    | none => exact hAdd
    | some text => exact hEdit _ _ hAdd
  · dsimp only
    split
    · exact hEdit _ _ hLists
    · exact hLists

theorem methodKeys_projectMethod {k : MethodKey} :
    k ∈ (file.projectMethod source target mapping m).methods.keys ↔
      k = ⟨nameIn m.names source, file.descriptorIn source m.descriptor⟩ ∨
        k ∈ mapping.methods.keys := by
  obtain ⟨methods, hProject, hKeys⟩ := file.projectMethod_cases source target mapping m
  rw [hProject]
  exact hKeys k

theorem fields_projectMethod :
    (file.projectMethod source target mapping m).fields = mapping.fields := by
  obtain ⟨methods, hProject, -⟩ := file.projectMethod_cases source target mapping m
  rw [hProject]

theorem named_projectMethod :
    (file.projectMethod source target mapping m).named = mapping.named := by
  obtain ⟨methods, hProject, -⟩ := file.projectMethod_cases source target mapping m
  rw [hProject]

end Members

/-- The members of a class stand under their names in a namespace, and under descriptors that
`write` gives. -/
structure ListsMembers (index : Nat) (write : String → String) (c : ClassEntry)
    (mapping : ClassMapping) : Prop where
  fields : ∀ k, k ∈ mapping.fields.keys ↔
    ∃ m ∈ c.fields, k = ⟨nameIn m.names index, some (write m.descriptor)⟩
  methods : ∀ k, k ∈ mapping.methods.keys ↔
    ∃ m ∈ c.methods, k = ⟨nameIn m.names index, write m.descriptor⟩

theorem fieldKeys_foldl {l : List Tiny.Member} {mapping : ClassMapping} {k : FieldKey} :
    k ∈ (l.foldl (file.projectField source target) mapping).fields.keys ↔
      (∃ m ∈ l, k = ⟨nameIn m.names source, some (file.descriptorIn source m.descriptor)⟩) ∨
        k ∈ mapping.fields.keys :=
  OrderedMap.mem_keys_foldl ClassMapping.fields fun _ _ _ => fieldKeys_projectField

theorem methodKeys_foldl {l : List Tiny.Member} {mapping : ClassMapping} {k : MethodKey} :
    k ∈ (l.foldl (file.projectMethod source target) mapping).methods.keys ↔
      (∃ m ∈ l, k = ⟨nameIn m.names source, file.descriptorIn source m.descriptor⟩) ∨
        k ∈ mapping.methods.keys :=
  OrderedMap.mem_keys_foldl ClassMapping.methods fun _ _ _ => methodKeys_projectMethod

theorem listsMembers_projected :
    ListsMembers source (file.descriptorIn source) c (file.projected source target c) where
  fields k := by
    have hMethods : (file.projected source target c).fields =
        (c.fields.foldl (file.projectField source target) (heading target c)).fields :=
      OrderedMap.foldl_unchanged ClassMapping.fields fun _ _ _ => fields_projectMethod
    rw [hMethods, fieldKeys_foldl]
    exact or_iff_left List.not_mem_nil
  methods k := by
    have hFields :
        (c.fields.foldl (file.projectField source target) (heading target c)).methods = ∅ :=
      OrderedMap.foldl_unchanged ClassMapping.methods fun _ _ _ => methods_projectField
    rw [projected, methodKeys_foldl, hFields]
    exact or_iff_left List.not_mem_nil

theorem named_projected : (file.projected source target c).named = nameIn c.names target :=
  (OrderedMap.foldl_unchanged ClassMapping.named fun _ _ _ => named_projectMethod).trans
    (OrderedMap.foldl_unchanged ClassMapping.named fun _ _ _ => named_projectField)

-- ---------------------------------------------------------------------------
-- Classes
-- ---------------------------------------------------------------------------

/-- The table from the namespace at place `source` into the one at place `target`. -/
def project (file : TinyFile) (source target : Nat) : MappingSet :=
  file.classes.values.foldl (file.projectClass source target) ∅

/-- **The classes of a projection** stand in the order of the file, if their source names differ. -/
theorem classes_project (hNodup : (file.classes.values.map fun c => nameIn c.names source).Nodup) :
    (file.project source target).classes.entries =
      file.classes.values.map fun c => (nameIn c.names source, file.projected source target c) :=
  OrderedMap.entries_foldl_of_step (s := (∅ : MappingSet)) MappingSet.classes
    (fun _ _ hNew => MappingSet.entries_fillClass hNew) hNodup

/-- The table out of the first namespace lists the classes of the file. -/
theorem classes_project_zero (hKeyed : file.KeyedByFirst) :
    (file.project 0 target).classes = file.classes.mapValues fun _ => file.projected 0 target := by
  have hKeys : ∀ e ∈ file.classes.entries, nameIn e.2.names 0 = e.1 := fun e hMem =>
    hKeyed e.1 e.2 (OrderedMap.get?_eq_some.2 hMem)
  have hNames : (file.classes.values.map fun c => nameIn c.names 0) = file.classes.keys := by
    rw [OrderedMap.values, List.map_map]
    exact List.map_congr_left hKeys
  ext1
  rw [classes_project (hNames ▸ file.classes.nodup), OrderedMap.values, List.map_map]
  exact List.map_congr_left fun e hMem => congrArg (·, file.projected 0 target e.2) (hKeys e hMem)

theorem named_class?_project (hKeyed : file.KeyedByFirst) :
    ((file.project 0 target).class? name).map (·.named) =
      (file.classes.get? name).map fun c => nameIn c.names target := by
  rw [MappingSet.class?, classes_project_zero hKeyed, OrderedMap.get?_mapValues, Option.map_map]
  exact congrArg (Option.map · (file.classes.get? name)) (funext fun c => named_projected)

-- ---------------------------------------------------------------------------
-- Descriptors
-- ---------------------------------------------------------------------------

/-- **The projection writes descriptors by the classes of the file alone**, as an overlay of the
table into that namespace does. -/
theorem descriptorIn_eq (hKeyed : file.KeyedByFirst) (descriptor : String) :
    file.descriptorIn index descriptor = (file.project 0 index).listedDescriptor descriptor := by
  rw [MappingSet.listedDescriptor]
  simp only [named_class?_project hKeyed]
  rw [descriptorIn]
  split
  · rename_i hIndex
    obtain rfl := hIndex
    refine (Descriptor.rename_of_fixed fun x _ => ?_).symm
    cases hClass : file.classes.get? x with
    | none => rfl
    | some c => exact hKeyed x c hClass
  · rfl

theorem exists_indexOf (hMem : name ∈ file.namespaces) :
    ∃ index < file.width, file.indexOf name = .ok index := by
  have hAny : file.namespaces.any (· == name) = true :=
    List.any_eq_true.2 ⟨name, hMem, beq_self_eq_true name⟩
  rw [← List.findIdx?_isSome] at hAny
  obtain ⟨index, hFind⟩ := Option.isSome_iff_exists.1 hAny
  refine ⟨index, (List.findIdx?_eq_some_iff_findIdx_eq.1 hFind).1, ?_⟩
  rw [indexOf, hFind]

theorem indexOf_first (hFirst : file.namespaces.head? = some name) : file.indexOf name = .ok 0 := by
  obtain ⟨more, hNamespaces⟩ := List.head?_eq_some_iff.1 hFirst
  rw [indexOf, hNamespaces, List.findIdx?_cons, if_pos (beq_self_eq_true name)]

theorem toMappingSet_eq_ok {sourceName targetName : String}
    (hSource : file.indexOf sourceName = .ok source)
    (hTarget : file.indexOf targetName = .ok target) :
    file.toMappingSet sourceName targetName = .ok (file.project source target) := by
  rw [toMappingSet, hSource, hTarget]
  rfl

theorem mem_values {k : String} (hGet : file.classes.get? k = some c) : c ∈ file.classes.values :=
  List.mem_map_of_mem (f := Prod.snd) (OrderedMap.get?_eq_some.1 hGet)

/-- **The members of a projection** have the descriptors that an overlay of the table into the
source namespace reads. The table itself reads the covered ones alike and, unless a name of the
source namespace could end a class name early, no others. -/
theorem descriptors_projected {first sourceName targetName : String}
    (hParse : parse text = .ok file) (hFirst : file.namespaces.head? = some first)
    (hDistinct : ∀ index < file.width,
      (file.classes.values.map fun c => nameIn c.names index).Nodup)
    (hSource : sourceName ∈ file.namespaces) (hTarget : targetName ∈ file.namespaces) :
    ∃ index toSource set, file.indexOf sourceName = .ok index ∧
      file.toMappingSet first sourceName = .ok toSource ∧
      file.toMappingSet sourceName targetName = .ok set ∧
      List.Forall₂ (fun c e => e.1 = nameIn c.names index ∧
          ListsMembers index toSource.listedDescriptor c e.2)
        file.classes.values set.classes.entries ∧
      (∀ d, toSource.Covers d → toSource.listedDescriptor d = toSource.mapDescriptor d) ∧
      ((∀ c ∈ file.classes.values, ';' ∉ (nameIn c.names index).toList) →
        ∀ d, toSource.listedDescriptor d = toSource.mapDescriptor d ↔ toSource.Covers d) := by
  have hKeyed := keyedByFirst_of_parse hParse
  obtain ⟨source, hBound, hSourceIndex⟩ := exists_indexOf hSource
  obtain ⟨target, -, hTargetIndex⟩ := exists_indexOf hTarget
  refine ⟨source, file.project 0 source, file.project source target, hSourceIndex,
    toMappingSet_eq_ok (indexOf_first hFirst) hSourceIndex,
    toMappingSet_eq_ok hSourceIndex hTargetIndex, ?_,
    fun d => MappingSet.listedDescriptor_of_covers, fun hPlain d => ?_⟩
  · rw [classes_project (hDistinct source hBound), List.forall₂_map_right_iff, List.forall₂_same]
    refine fun c _ => ⟨rfl, ?_⟩
    rw [← funext (descriptorIn_eq hKeyed)]
    exact listsMembers_projected
  · refine MappingSet.listedDescriptor_eq_iff fun n mapping hClass => ?_
    rw [MappingSet.class?, classes_project_zero hKeyed, OrderedMap.get?_mapValues] at hClass
    obtain ⟨c, hGet, rfl⟩ := Option.map_eq_some_iff.1 hClass
    rw [named_projected]
    exact hPlain c (mem_values hGet)

/-- A class with a method that takes an inner class of it. -/
def innerParameter : String :=
  "v1\ta\tb\tc\nCLASS\ta\tx/A\ty/A\nMETHOD\ta\t(La;La$1;)V\tm\tm1\tm2\n"

def innerParameterFile : TinyFile where
  namespaces := ["a", "b", "c"]
  classes := .ofList [("a", ⟨["a", "x/A", "y/A"], none, [],
    [⟨"(La;La$1;)V", ["m", "m1", "m2"], none, []⟩]⟩)]

theorem descriptors_projected_innerParameter :
    ∃ toSource set, innerParameterFile.toMappingSet "a" "b" = .ok toSource ∧
      innerParameterFile.toMappingSet "b" "c" = .ok set ∧
      (∃ mapping, set.class? "x/A" = some mapping ∧
        ⟨"m1", toSource.listedDescriptor "(La;La$1;)V"⟩ ∈ mapping.methods.keys) ∧
      toSource.listedDescriptor "(La;La$1;)V" ≠ toSource.mapDescriptor "(La;La$1;)V" := by
  have hParse : parse innerParameter = .ok innerParameterFile := rfl
  have hFirst : innerParameterFile.namespaces.head? = some "a" := rfl
  have hSource : "b" ∈ innerParameterFile.namespaces := by decide
  have hTarget : "c" ∈ innerParameterFile.namespaces := by decide
  obtain ⟨index, toSource, set, hIndex, hToSource, hSet, hClasses, -, hExact⟩ :=
    descriptors_projected hParse hFirst (by decide) hSource hTarget
  obtain rfl : 1 = index := Except.ok.inj hIndex
  obtain rfl : innerParameterFile.project 0 1 = toSource := Except.ok.inj hToSource
  refine ⟨_, set, hToSource, hSet, ?_, ?_⟩
  · obtain ⟨e, _, ⟨hName, hMembers⟩, -, hEntries⟩ := List.forall₂_cons_left_iff.1 hClasses
    refine ⟨e.2, OrderedMap.get?_eq_some.2 ?_,
      (hMembers.methods _).2 ⟨_, List.mem_cons_self, rfl⟩⟩
    rw [hEntries, ← show e.1 = "x/A" from hName]
    exact List.mem_cons_self
  · rw [ne_eq, hExact (by decide) "(La;La$1;)V"]
    decide +kernel

/-- The inner class follows `a` in the table into `b`, but not in the method that is listed there. -/
example :
    (innerParameterFile.project 0 1).mapDescriptor "(La;La$1;)V" = "(Lx/A;Lx/A$1;)V" ∧
      ((innerParameterFile.project 1 2).class? "x/A").map (·.methods.keys) =
        some [⟨"m1", "(Lx/A;La$1;)V"⟩] := by
  decide +kernel

end Jarsmith.TinyFile
