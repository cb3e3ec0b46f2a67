import Jarsmith.Proofs.Mappings.FieldUnion
import Jarsmith.Proofs.Mappings.Layers

/-!
# Layers that rename nothing

A table in which every entry keeps its name, as documentation comes in. Its classes are looked for
among the target names of the table below.

* `ClassMapping.methodNames` — the listed methods with their target names, and what merging an entry
  that renames nothing does to them.
* `MappingSet.Follows` — the state of a union while such a layer is taken in; `Follows.add` is the
  step and `follows_merge` the run.
* `MappingSet.merge_identity_keeps` — such a layer renames nothing and drops nothing.
-/

namespace Jarsmith

namespace ClassMapping

variable {name : String} {c earlier later : ClassMapping} {key : MethodKey} {m : MethodMapping}

-- ---------------------------------------------------------------------------
-- Names of methods
-- ---------------------------------------------------------------------------

/-- The listed methods with their target names. -/
def methodNames (c : ClassMapping) : OrderedMap MethodKey String :=
  c.methods.mapValues fun _ m => m.named

@[simp] theorem keys_methodNames : c.methodNames.keys = c.methods.keys :=
  OrderedMap.keys_mapValues

theorem get?_methodNames : c.methodNames.get? key = (c.methods.get? key).map (·.named) :=
  OrderedMap.get?_mapValues

/-- A later method that keeps its name changes no name; if it is new it goes behind the others. -/
theorem methodNames_mergeMethod (hNamed : m.named = key.name) :
    (c.mergeMethod key m).methodNames =
      if key ∈ c.methods.keys then c.methodNames else c.methodNames.insert key key.name := by
  have hInsert : (c.mergeMethod key m).methodNames = c.methodNames.insert key
      ((c.methods.get? key).elim m (·.overriddenBy key.name m)).named := by
    rw [methodNames, mergeMethod, OrderedMap.mapValues_insert, methodNames]
    cases c.methods.get? key <;> rfl
  rw [hInsert]
  split
  · rename_i hKey
    obtain ⟨old, hOld⟩ := OrderedMap.mem_keys.1 hKey
    have hSame : (old.overriddenBy key.name m).named = old.named := if_pos hNamed
    rw [hOld, Option.elim_some, hSame]
    refine OrderedMap.insert_of_get? ?_
    rw [get?_methodNames, hOld]
    rfl
  · rename_i hKey
    rw [OrderedMap.get?_eq_none.2 hKey, Option.elim_none, hNamed]

theorem methodNames_withFieldsOf : (withFieldsOf name earlier later).methodNames =
    earlier.methodNames := by
  refine OrderedMap.foldl_unchanged methodNames fun c e _ => ?_
  rw [methodNames, methods_mergeField, methodNames]

theorem methodNames_overriddenBy_of_listed (hIdentity : later.isIdentity name = true)
    (hListed : ∀ k ∈ later.methods.keys, k ∈ earlier.methods.keys) :
    (earlier.overriddenBy name later).methodNames = earlier.methodNames := by
  obtain ⟨-, -, hNames⟩ := isIdentity_iff.1 hIdentity
  rw [overriddenBy_eq]
  refine List.foldlRecOn (motive := fun c : ClassMapping => c.methodNames = earlier.methodNames) _ _
    methodNames_withFieldsOf fun c hSame e hMem => ?_
  have hKey : e.1 ∈ c.methods.keys := by
    rw [← keys_methodNames, hSame, keys_methodNames]
    exact hListed _ (List.mem_map_of_mem hMem)
  rw [methodNames_mergeMethod (hNames _ _ (OrderedMap.get?_eq_some.2 hMem)), if_pos hKey, hSame]

/-- Methods that keep their names leave the listed ones in front, under their names. -/
theorem methodNames_front (hIdentity : later.isIdentity name = true) :
    earlier.methodNames.entries <+: (earlier.overriddenBy name later).methodNames.entries := by
  obtain ⟨-, -, hNames⟩ := isIdentity_iff.1 hIdentity
  rw [overriddenBy_eq]
  refine List.foldlRecOn (motive := fun c : ClassMapping =>
    earlier.methodNames.entries <+: c.methodNames.entries) _ _ ?_ fun c hFront e hMem => ?_
  · exact ⟨[], by rw [List.append_nil, methodNames_withFieldsOf]⟩
  · refine hFront.trans ?_
    rw [methodNames_mergeMethod (hNames _ _ (OrderedMap.get?_eq_some.2 hMem))]
    split
    · exact List.prefix_rfl
    · rename_i hKey
      rw [← keys_methodNames] at hKey
      rw [OrderedMap.entries_insert_of_not_mem hKey]
      exact List.prefix_append _ _

end ClassMapping

namespace MappingSet

variable {s p m : MappingSet} {c name owner : String} {target later : ClassMapping}

/-- The target names of the listed classes. -/
def targetNames (m : MappingSet) : List String := m.classes.entries.map (·.2.named)

theorem mem_targetNames : name ∈ m.targetNames ↔
    ∃ c entry, m.class? c = some entry ∧ entry.named = name := by
  rw [targetNames, List.mem_map]
  constructor
  · rintro ⟨⟨c, entry⟩, hMem, hNamed⟩
    exact ⟨c, entry, OrderedMap.get?_eq_some.2 hMem, hNamed⟩
  · rintro ⟨c, entry, hClass, hNamed⟩
    exact ⟨(c, entry), OrderedMap.get?_eq_some.1 hClass, hNamed⟩

/-- Every entry keeps its name. -/
def IsIdentity (m : MappingSet) : Prop := ∀ e ∈ m.classes.entries, e.2.isIdentity e.1 = true

instance (m : MappingSet) : Decidable m.IsIdentity :=
  inferInstanceAs (Decidable (∀ e ∈ m.classes.entries, e.2.isIdentity e.1 = true))

-- ---------------------------------------------------------------------------
-- Overlays
-- ---------------------------------------------------------------------------

theorem named_overlaid :
    (target.overriddenBy owner (m.overlay owner target later)).named = target.named := by
  rw [ClassMapping.named_overriddenBy]
  exact if_pos rfl

/-- In a class that is renamed, a method is found by its target name and its translated
descriptor. -/
theorem methodNamed?_of_renamed (hOwner : owner ≠ target.named) (theirs : MethodKey) :
    m.methodNamed? owner target theirs =
      (target.methodNames.entries.find? fun e =>
        e.2 == theirs.name && m.listedDescriptor e.1.descriptor == theirs.descriptor).map (·.1) := by
  have hFind : (target.methodNames.entries.find? fun e =>
      e.2 == theirs.name && m.listedDescriptor e.1.descriptor == theirs.descriptor) =
      (target.methods.entries.find? fun e => e.2.named == theirs.name &&
        m.listedDescriptor e.1.descriptor == theirs.descriptor).map fun e => (e.1, e.2.named) := by
    rw [ClassMapping.methodNames, OrderedMap.mapValues, List.find?_map]
    rfl
  rw [hFind, methodNamed?, if_neg hOwner]
  cases target.methods.entries.find? fun e => e.2.named == theirs.name &&
    m.listedDescriptor e.1.descriptor == theirs.descriptor <;> rfl

theorem methodNamed?_eq_some (hOwner : owner ≠ target.named) {theirs key : MethodKey}
    (hNamed : m.methodNamed? owner target theirs = some key) :
    ∃ e, target.methods.get? key = some e ∧ e.named = theirs.name ∧
      m.listedDescriptor key.descriptor = theirs.descriptor := by
  rw [methodNamed?_of_renamed hOwner] at hNamed
  obtain ⟨⟨k, named⟩, hFind, rfl⟩ := Option.map_eq_some_iff.1 hNamed
  have hMem : target.methodNames.get? k = some named :=
    OrderedMap.get?_eq_some.2 (List.mem_of_find?_eq_some hFind)
  have hFound := List.find?_some hFind
  rw [Bool.and_eq_true, beq_iff_eq, beq_iff_eq] at hFound
  rw [ClassMapping.get?_methodNames] at hMem
  obtain ⟨e, hGet, rfl⟩ := Option.map_eq_some_iff.1 hMem
  exact ⟨e, hGet, hFound⟩

/-- **An overlay changes no method name** of a class that is renamed, and adds no method. -/
theorem methodNames_overlaid (hOwner : owner ≠ target.named) :
    (target.overriddenBy owner (m.overlay owner target later)).methodNames =
      target.methodNames := by
  refine ClassMapping.methodNames_overriddenBy_of_listed isIdentity_overlay fun k hKey => ?_
  obtain ⟨e, hMethod⟩ := OrderedMap.mem_keys.1 hKey
  obtain ⟨theirs, g, -, hNamed, -⟩ := exists_of_methods_overlay hMethod
  obtain ⟨old, hGet, -⟩ := methodNamed?_eq_some hOwner hNamed
  exact OrderedMap.mem_keys.2 ⟨old, hGet⟩

-- ---------------------------------------------------------------------------
-- The state of a union
-- ---------------------------------------------------------------------------

/-- What a union is when `s` has taken in the entries `done`, none of which renames anything. -/
structure Follows (s : MappingSet) (done : List (String × ClassMapping)) (st : Merging) : Prop where
  listed : ∀ c, s.class? c ≠ none → st.set.class? c ≠ none
  known : ∀ c, st.set.class? c ≠ none → s.class? c ≠ none ∨ c ∈ done.map Prod.fst
  names : ∀ c, st.set.listedName c = s.listedName c
  /-- The index leads to the class with a target name, or to an entry that was new. -/
  sound : ∀ name owner, st.byNamed.get? name = some owner →
    owner = name ∧ name ∈ done.map Prod.fst ∨
      ∃ entry, s.class? owner = some entry ∧ entry.named = name
  complete : ∀ name ∈ s.targetNames, st.byNamed.get? name ≠ none

theorem listedName_of_class? {entry : ClassMapping} (hClass : m.class? c = some entry) :
    m.listedName c = entry.named := by
  rw [listedName, hClass]
  rfl

/-- An entry that renames nothing changes no class name. -/
theorem listedName_add (st : Merging) (hIdentity : later.isIdentity name = true) :
    (st.add name later).set.listedName c = st.set.listedName c := by
  have hView := (classView c).inTable_add st name later
  have hNamed := (ClassMapping.isIdentity_iff.1 hIdentity).1
  split at hView
  · rename_i hName
    exact hView.trans (if_pos (hNamed.trans hName))
  · exact hView

namespace Follows

variable {done : List (String × ClassMapping)} {st : Merging}

theorem start (s : MappingSet) : Follows s [] (Merging.start s) where
  listed _ h := h
  known _ h := .inl h
  names _ := rfl
  sound name owner hIndex := by
    refine .inr (OrderedMap.of_get?_foldl (P := fun name owner =>
      ∃ entry, s.class? owner = some entry ∧ entry.named = name) (fun byNamed e hMem => ?_) hIndex)
    exact .inr ⟨e.2.named, e.1, ⟨e.2, OrderedMap.get?_eq_some.2 hMem, rfl⟩, rfl⟩
  complete name hTarget := by
    -- a target name that has come in stays in the index, maybe for another class
    have hAll : ∀ e ∈ s.classes.entries, (Merging.start s).byNamed.get? e.2.named ≠ none := by
      refine OrderedMap.foldl_induction (motive := fun done byNamed => ∀ e ∈ done,
        OrderedMap.get? byNamed e.2.named ≠ none) s.classes.nodup (fun _ hMem => nomatch hMem) ?_
      intro done e byNamed _ _ ih e' hMem'
      rw [OrderedMap.get?_insert]
      split
      · exact Option.some_ne_none _
      · rename_i hNamed
        rcases List.mem_append.1 hMem' with hOld | hNew
        · exact ih e' hOld
        · rw [List.mem_singleton.1 hNew] at hNamed
          exact absurd rfl hNamed
    obtain ⟨e, hMem, rfl⟩ := List.mem_map.1 hTarget
    exact hAll e hMem

/-- A listed class has the target name that it had at first. -/
theorem named_eq (h : Follows s done st) {entry entry' : ClassMapping}
    (hClass : s.class? c = some entry) (hClass' : st.set.class? c = some entry') :
    entry'.named = entry.named := by
  rw [← listedName_of_class? hClass', h.names, listedName_of_class? hClass]

/-- The index leads to a class of `s` when an entry comes in that was not there before. -/
theorem exists_of_index (h : Follows s done st) (hNew : name ∉ done.map Prod.fst)
    (hIndex : st.byNamed.get? name = some owner) :
    ∃ entry, s.class? owner = some entry ∧ entry.named = name :=
  (h.sound name owner hIndex).resolve_left fun hDone => hNew hDone.2

/-- An entry that finds no class to overlay is not for a target name. -/
theorem not_mem_targetNames (h : Follows s done st) (hNew : name ∉ done.map Prod.fst)
    (hFree : ∀ owner, st.byNamed.get? name = some owner → st.set.class? owner = none) :
    name ∉ s.targetNames := by
  intro hTarget
  obtain ⟨owner, hIndex⟩ := Option.ne_none_iff_exists'.1 (h.complete name hTarget)
  obtain ⟨entry, hEntry, -⟩ := h.exists_of_index hNew hIndex
  exact h.listed owner (Option.ne_none_iff_exists'.2 ⟨_, hEntry⟩) (hFree owner hIndex)

theorem add (h : Follows s done st) (hNew : name ∉ done.map Prod.fst)
    (hIdentity : later.isIdentity name = true) :
    Follows s (done ++ [(name, later)]) (st.add name later) := by
  have hNamed := (ClassMapping.isIdentity_iff.1 hIdentity).1
  have hNames : ∀ c, (st.add name later).set.listedName c = s.listedName c := fun c =>
    (listedName_add st hIdentity).trans (h.names c)
  have hKeys : ∀ c, c ∈ (done ++ [(name, later)]).map Prod.fst ↔
      c ∈ done.map Prod.fst ∨ c = name := by simp
  have hKnown : ∀ c, st.set.class? c ≠ none →
      s.class? c ≠ none ∨ c ∈ (done ++ [(name, later)]).map Prod.fst := fun c hc =>
    (h.known c hc).imp_right fun hDone => (hKeys c).2 (.inl hDone)
  have hSound : ∀ n o, st.byNamed.get? n = some o →
      o = n ∧ n ∈ (done ++ [(name, later)]).map Prod.fst ∨
        ∃ entry, s.class? o = some entry ∧ entry.named = n := fun n o hIndex =>
    (h.sound n o hIndex).imp_left fun hOld => ⟨hOld.1, (hKeys n).2 (.inl hOld.2)⟩
  have hAdds := st.adds_add name later
  generalize st.add name later = st' at hAdds hNames ⊢
  cases hAdds with
  | @own earlier hClass =>
    have hEntry : s.class? name ≠ none :=
      (h.known name (Option.ne_none_iff_exists'.2 ⟨_, hClass⟩)).resolve_right hNew
    refine ⟨fun c hc => class?_insert_ne_none.2 (.inr (h.listed c hc)), fun c hc => ?_, hNames,
      fun n o hIndex => ?_, fun n hTarget => OrderedMap.get?_insert_ne_none.2
        (.inr (h.complete n hTarget))⟩
    · rcases class?_insert_ne_none.1 hc with rfl | hOld
      · exact .inl hEntry
      · exact hKnown c hOld
    · rw [OrderedMap.get?_insert] at hIndex
      split at hIndex
      · rename_i hSame
        obtain rfl := Option.some.inj hIndex
        obtain ⟨entry, hEntry⟩ := Option.ne_none_iff_exists'.1 hEntry
        have hListed := hNames name
        rw [listedName_of_class? (class?_insert.trans (if_pos rfl)), hSame,
          listedName_of_class? hEntry] at hListed
        exact .inr ⟨entry, hEntry, hListed.symm⟩
      · exact hSound n o hIndex
  | @overlaid owner target _ _ _ hTarget =>
    refine ⟨fun c hc => class?_insert_ne_none.2 (.inr (h.listed c hc)), fun c hc => hKnown c ?_,
      hNames, hSound, h.complete⟩
    rcases class?_insert_ne_none.1 hc with rfl | hOld
    · rw [hTarget]
      exact Option.some_ne_none _
    · exact hOld
  | fresh _ _ =>
    refine ⟨fun c hc => class?_insert_ne_none.2 (.inr (h.listed c hc)), fun c hc => ?_, hNames,
      fun n o hIndex => ?_, fun n hTarget => OrderedMap.get?_insert_ne_none.2
        (.inr (h.complete n hTarget))⟩
    · rcases class?_insert_ne_none.1 hc with rfl | hOld
      · exact .inr ((hKeys name).2 (.inr rfl))
      · exact hKnown c hOld
    · rw [OrderedMap.get?_insert, hNamed] at hIndex
      split at hIndex
      · rename_i hName
        subst hName
        exact .inl ⟨(Option.some.inj hIndex).symm, (hKeys name).2 (.inr rfl)⟩
      · exact hSound n o hIndex

end Follows

/-- A layer that renames nothing is taken in entry by entry: what holds at first and survives one
more entry holds in the end. -/
theorem follows_merge (s : MappingSet) (hIdentity : p.IsIdentity)
    {motive : List (String × ClassMapping) → Merging → Prop} (hStart : motive [] (Merging.start s))
    (hStep : ∀ done name later st, p.class? name = some later → later.isIdentity name = true →
      name ∉ done.map Prod.fst → Follows s done st → motive done st →
      motive (done ++ [(name, later)]) (st.add name later)) :
    ∃ st, s.merge p = st.set ∧ Follows s p.classes.entries st ∧ motive p.classes.entries st := by
  refine ⟨_, merge_eq s p, OrderedMap.foldl_induction
    (motive := fun done st => Follows s done st ∧ motive done st) p.classes.nodup
    ⟨Follows.start s, hStart⟩ ?_⟩
  rintro done ⟨name, later⟩ st hMem hNew ⟨hFollows, hDone⟩
  have hKeeps := hIdentity _ hMem
  exact ⟨hFollows.add hNew hKeeps,
    hStep done name later st (OrderedMap.get?_eq_some.2 hMem) hKeeps hNew hFollows hDone⟩

-- ---------------------------------------------------------------------------
-- What is kept
-- ---------------------------------------------------------------------------

/-- The class, its fields and its methods are listed under the same keys, in the same order and with
the same target names. -/
structure SameNames (new old : ClassMapping) : Prop where
  named : new.named = old.named
  fields : new.fieldNames = old.fieldNames
  methods : new.methodNames = old.methodNames

/-- What a union is when `s` has taken in the entries `done`, which rename nothing and are for
classes that `s` does not list. -/
structure Extends (s : MappingSet) (done : List (String × ClassMapping)) (st : Merging) : Prop where
  keys : st.set.classes.keys =
    s.classes.keys ++ (done.map Prod.fst).filter (· ∉ s.targetNames)
  kept : ∀ c old, s.class? c = some old →
    ∃ new, st.set.class? c = some new ∧ SameNames new old

theorem SameNames.overlaid {new old : ClassMapping} (h : SameNames new old)
    (hOld : old.Unambiguous) (hOwner : owner ≠ old.named) :
    SameNames (new.overriddenBy owner (m.overlay owner new later)) old where
  named := named_overlaid.trans h.named
  fields := (fieldNames_overlaid ((ClassMapping.unambiguous_congr h.fields).2 hOld)).trans h.fields
  methods := (methodNames_overlaid (h.named ▸ hOwner)).trans h.methods

/-- One more entry either overlays a class or is listed behind the others. -/
theorem Extends.add {done : List (String × ClassMapping)} {st : Merging} (h : Extends s done st)
    (hs : s.Unambiguous) (hFollows : Follows s done st) (hNew : name ∉ done.map Prod.fst)
    (hSource : s.class? name = none) (hIdentity : later.isIdentity name = true) :
    Extends s (done ++ [(name, later)]) (st.add name later) := by
  have hUnlisted : st.set.class? name = none := by
    by_contra hListed
    rcases hFollows.known name hListed with hOld | hDone
    · exact hOld hSource
    · exact hNew hDone
  have hAdds := st.adds_add name later
  generalize st.add name later = st' at hAdds ⊢
  cases hAdds with
  | own hClass =>
    rw [hUnlisted] at hClass
    cases hClass
  | @overlaid owner target _ _ hIndex hTarget =>
    obtain ⟨entry, hEntry, hNamed⟩ := hFollows.exists_of_index hNew hIndex
    refine ⟨?_, fun c old hOld => ?_⟩
    · have hMem : owner ∈ st.set.classes.keys := OrderedMap.mem_keys.2 ⟨target, hTarget⟩
      have hNone : [name].filter (· ∉ s.targetNames) = [] := by
        simp [mem_targetNames.2 ⟨owner, entry, hEntry, hNamed⟩]
      rw [OrderedMap.keys_insert, if_pos hMem, h.keys, List.map_append, List.filter_append,
        List.map_singleton, hNone, List.append_nil]
    · obtain ⟨new, hClass, hSame⟩ := h.kept c old hOld
      by_cases hName : owner = c
      · subst hName
        obtain rfl := Option.some.inj (hTarget.symm.trans hClass)
        obtain rfl := Option.some.inj (hEntry.symm.trans hOld)
        exact ⟨_, class?_insert.trans (if_pos rfl),
          hSame.overlaid (hs.of_class? hOld) (hNamed ▸ (ne_of_class? hSource hEntry).symm)⟩
      · exact ⟨new, class?_insert.trans ((if_neg hName).trans hClass), hSame⟩
  | fresh _ hFree =>
    have hTarget : name ∉ s.targetNames := hFollows.not_mem_targetNames hNew (hFree hIdentity)
    refine ⟨?_, fun c old hOld => ?_⟩
    · have hMem : name ∉ st.set.classes.keys := OrderedMap.get?_eq_none.1 hUnlisted
      have hSome : [name].filter (· ∉ s.targetNames) = [name] := by simp [hTarget]
      rw [OrderedMap.keys_insert, if_neg hMem, h.keys, List.map_append, List.filter_append,
        List.map_singleton, hSome, List.append_assoc]
    · obtain ⟨new, hClass, hSame⟩ := h.kept c old hOld
      have hName : name ≠ c := ne_of_class? hSource hOld
      exact ⟨new, class?_insert.trans ((if_neg hName).trans hClass), hSame⟩

/-- **A layer that renames nothing drops nothing.** In the union, the classes stand in their order
with all fields and methods under the same keys and target names; behind them come the classes of
the layer that are no target names. -/
theorem merge_identity_keeps (hs : s.Unambiguous) (hIdentity : p.IsIdentity)
    (hSource : ∀ n, p.class? n ≠ none → s.class? n = none) :
    (s.merge p).classes.keys =
        s.classes.keys ++ p.classes.keys.filter (· ∉ s.targetNames) ∧
      ∀ c old, s.class? c = some old →
        ∃ new, (s.merge p).class? c = some new ∧ SameNames new old := by
  have hStart : Extends s [] (Merging.start s) :=
    ⟨(List.append_nil _).symm, fun c old hOld => ⟨old, hOld, rfl, rfl, rfl⟩⟩
  obtain ⟨st, hUnion, -, hExtends⟩ := follows_merge s hIdentity hStart
    fun done name later st hLater hKeeps hNew hFollows hDone =>
      hDone.add hs hFollows hNew (hSource name (Option.ne_none_iff_exists'.2 ⟨_, hLater⟩)) hKeeps
  rw [hUnion]
  exact ⟨hExtends.keys, hExtends.kept⟩

/-- A class with a field and a method that are renamed, and one that keeps its name. -/
def namedClasses : MappingSet :=
  ((((∅ : MappingSet).addClass "a" "x/A").addField "a" "f" none "count").addMethod "a" "m" "(I)V"
    "tick").addClass "b" "x/B"

/-- Documentation for a class by its target name, and for a class that is new. -/
def documentation : MappingSet :=
  ((((∅ : MappingSet).documentField "x/A" "count" (some "I") "How many.").documentMethod "x/A"
    "tick" "(I)V" "Ticks.").documentMethod "x/A" "other" "()V" "Unknown.").documentClass "x/C" "New."

theorem documentation_keeps :
    namedClasses.Unambiguous ∧ documentation.IsIdentity ∧
    (∀ n, documentation.class? n ≠ none → namedClasses.class? n = none) ∧
    (namedClasses.merge documentation).classes.keys = ["a", "b", "x/C"] ∧
    ∀ c old, namedClasses.class? c = some old →
      ∃ new, (namedClasses.merge documentation).class? c = some new ∧ SameNames new old := by
  have hUnambiguous : namedClasses.Unambiguous := by decide
  have hIdentity : documentation.IsIdentity := by decide
  have hSource : ∀ n, documentation.class? n ≠ none → namedClasses.class? n = none := by
    intro n hListed
    obtain ⟨entry, hClass⟩ := Option.ne_none_iff_exists'.1 hListed
    have hNames : ∀ e ∈ documentation.classes.entries, namedClasses.class? e.1 = none := by decide
    exact hNames (n, entry) (OrderedMap.get?_eq_some.1 hClass)
  obtain ⟨hKeys, hKept⟩ := merge_identity_keeps hUnambiguous hIdentity hSource
  refine ⟨hUnambiguous, hIdentity, hSource, hKeys.trans ?_, hKept⟩
  decide

end MappingSet

end Jarsmith
