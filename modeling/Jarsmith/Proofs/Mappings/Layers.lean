import Jarsmith.Mappings.Layers
import Jarsmith.Proofs.Mappings.Merge

/-!
# The last layer wins

The names of classes and methods in a stack of tables. Each comes from the last table that has an
opinion about it, whether the tables before and after it list the class, overlay it or do not know
it.

* `MappingSet.union` — a stack of tables as one table.
* `NameView` — a name that merging looks after; `NameView.inTable_merge` is the law for two tables
  and `NameView.inTable_union` the one for a stack.
* `union_names_last` — the names of all classes and methods of a stack.
-/

namespace Jarsmith

namespace MappingSet

/-- The tables of a stack, the first one lowest, as one table. -/
def union (layers : List MappingSet) : MappingSet := layers.foldl merge ∅

/-- The target name of a class, or the name itself if the class is not listed. -/
def listedName (m : MappingSet) (c : String) : String := ((m.class? c).map (·.named)).getD c

/-- The target name of a method, or the name itself if the method is not listed. -/
def methodName (m : MappingSet) (c name descriptor : String) : String :=
  (((m.class? c).bind (·.method? name descriptor)).map (·.named)).getD name

end MappingSet

/-- The last of `names` that differs from `kept`, or `kept` if none does. -/
def lastChange (kept : String) (names : List String) : String :=
  (names.filter (· ≠ kept)).getLastD kept

-- ---------------------------------------------------------------------------
-- Names that merging looks after
-- ---------------------------------------------------------------------------

/-- A name that the entries for the class `c` give, for the class or for something in it. An entry
that gives `kept` has no opinion, and neither has one that renames nothing. -/
structure NameView (c : String) where
  kept : String
  name : ClassMapping → String
  name_overriddenBy : ∀ earlier later, name (earlier.overriddenBy c later) =
    if name later = kept then name earlier else name later
  name_of_isIdentity : ∀ later, later.isIdentity c = true → name later = kept

namespace NameView

open MappingSet

variable {c : String} (v : NameView c) {m : MappingSet}

/-- The name in a table; a table without the class has no opinion. -/
def inTable (m : MappingSet) : String := ((m.class? c).map v.name).getD v.kept

theorem inTable_of_class? {entry : ClassMapping} (hClass : m.class? c = some entry) :
    v.inTable m = v.name entry := by
  rw [inTable, hClass]
  rfl

theorem inTable_of_none (hClass : m.class? c = none) : v.inTable m = v.kept := by
  rw [inTable, hClass]
  rfl

/-- One step of a merge: only the entry of `c` itself can change the name. -/
theorem inTable_add (s : Merging) (name : String) (later : ClassMapping) :
    v.inTable (s.add name later).set =
      if name = c then (if v.name later = v.kept then v.inTable s.set else v.name later)
      else v.inTable s.set := by
  have hAdds := s.adds_add name later
  generalize s.add name later = t at hAdds ⊢
  cases hAdds with
  | @own earlier hClass =>
    by_cases hName : name = c
    · subst hName
      rw [if_pos rfl, v.inTable_of_class? (class?_insert.trans (if_pos rfl)), v.name_overriddenBy,
        v.inTable_of_class? hClass]
    · rw [if_neg hName, inTable, class?_insert, if_neg hName]
      rfl
  | @overlaid owner target hClass hIdentity hNamed hTarget =>
    have hSame : v.inTable ⟨s.set.classes.insert owner
        (target.overriddenBy owner (s.set.overlay owner target later))⟩ = v.inTable s.set := by
      by_cases hOwner : owner = c
      · subst hOwner
        rw [v.inTable_of_class? (class?_insert.trans (if_pos rfl)), v.name_overriddenBy,
          if_pos (v.name_of_isIdentity _ isIdentity_overlay), v.inTable_of_class? hTarget]
      · rw [inTable, class?_insert, if_neg hOwner]
        rfl
    rw [hSame]
    split
    · rename_i hName
      subst hName
      rw [if_pos (v.name_of_isIdentity later hIdentity)]
    · rfl
  | fresh hClass _ =>
    by_cases hName : name = c
    · subst hName
      rw [if_pos rfl, v.inTable_of_class? (class?_insert.trans (if_pos rfl)),
        v.inTable_of_none hClass]
      split
      · rename_i hKept
        exact hKept
      · rfl
    · rw [if_neg hName, inTable, class?_insert, if_neg hName]
      rfl

/-- **Two tables**: the later one gives the name, unless it has no opinion. -/
theorem inTable_merge (m later : MappingSet) : v.inTable (m.merge later) =
    if v.inTable later = v.kept then v.inTable m else v.inTable later := by
  have hFold := OrderedMap.foldl_independent (fun s => v.inTable s.set)
    (fun old entry => if v.name entry = v.kept then old else v.name entry)
    (s := Merging.start m) later.classes.nodup fun s e _ => v.inTable_add s e.1 e.2
  have hMerge : v.inTable (m.merge later) = (later.class? c).elim (v.inTable m)
      fun entry => if v.name entry = v.kept then v.inTable m else v.name entry := hFold
  rw [hMerge]
  cases hClass : later.class? c with
  | none => rw [v.inTable_of_none hClass, if_pos rfl, Option.elim_none]
  | some entry => rw [v.inTable_of_class? hClass, Option.elim_some]

/-- **A stack of tables**: the last one with an opinion gives the name. -/
theorem inTable_union (layers : List MappingSet) :
    v.inTable (union layers) = lastChange v.kept (layers.map v.inTable) := by
  -- a stack on top of any table: the table takes the place of the last word
  have hFold : ∀ (layers : List MappingSet) (m : MappingSet), v.inTable (layers.foldl merge m) =
      ((layers.map v.inTable).filter (· ≠ v.kept)).getLastD (v.inTable m) := by
    intro layers
    induction layers with
    | nil => exact fun _ => rfl
    | cons layer more ih =>
      intro m
      rw [List.foldl_cons, ih, inTable_merge, List.map_cons, List.filter_cons]
      by_cases hKept : v.inTable layer = v.kept
      · rw [if_pos hKept, if_neg (by simp [hKept])]
      · rw [if_neg hKept, if_pos (by simp [hKept]), List.getLastD_cons]
  rw [union, hFold]
  rfl

end NameView

-- ---------------------------------------------------------------------------
-- Classes and methods
-- ---------------------------------------------------------------------------

/-- The name of a class. -/
def classView (c : String) : NameView c where
  kept := c
  name := (·.named)
  name_overriddenBy _ _ := ClassMapping.named_overriddenBy
  name_of_isIdentity _ hIdentity := (ClassMapping.isIdentity_iff.1 hIdentity).1

/-- The name of a method of `c`. -/
def methodView (c : String) (key : MethodKey) : NameView c where
  kept := key.name
  name entry := ((entry.methods.get? key).map (·.named)).getD key.name
  name_overriddenBy earlier later := by
    rw [ClassMapping.get?_methods_overriddenBy]
    cases later.methods.get? key with
    | none => simp
    | some new =>
      cases earlier.methods.get? key with
      | none => simp +contextual
      | some old => simp [MethodMapping.overriddenBy]
  name_of_isIdentity later hIdentity := by
    obtain ⟨-, -, hMethods⟩ := ClassMapping.isIdentity_iff.1 hIdentity
    cases hMethod : later.methods.get? key with
    | none => rfl
    | some entry => exact hMethods key entry hMethod

theorem inTable_methodView (m : MappingSet) (c name descriptor : String) :
    (methodView c ⟨name, descriptor⟩).inTable m = m.methodName c name descriptor := by
  rw [NameView.inTable, MappingSet.methodName]
  cases m.class? c with
  | none => rfl
  | some entry => rfl

namespace ResolvedLayer

/-- Reading a stack of files is reading them all, the first one first, and stacking the tables. -/
theorem readAll_eq (files : List ResolvedLayer) :
    readAll files = MappingSet.union <$> files.mapM read := by
  have hFold : ∀ (files : List ResolvedLayer) (m : MappingSet),
      files.foldlM (fun merged layer => do pure (merged.merge (← layer.read))) m =
        (List.foldl MappingSet.merge m) <$> files.mapM read := by
    intro files
    induction files with
    | nil =>
      intro m
      rw [List.foldlM_nil, List.mapM_nil, map_pure, List.foldl_nil]
    | cons file more ih =>
      intro m
      rw [List.foldlM_cons, List.mapM_cons, bind_assoc, map_bind]
      congr 1
      funext table
      rw [pure_bind, ih, map_bind, ← bind_pure_comp]
      rfl
  exact hFold files ∅

end ResolvedLayer

/-- **The last layer wins.** What is read from a stack of files is the union of their tables, and in
the union of any tables each class and each method has the name that the last table with an opinion
gives it, or keeps its own. -/
theorem union_names_last :
    (∀ files : List ResolvedLayer,
      ResolvedLayer.readAll files = MappingSet.union <$> files.mapM ResolvedLayer.read) ∧
    ∀ layers : List MappingSet,
      (∀ c, (MappingSet.union layers).listedName c =
        lastChange c (layers.map (·.listedName c))) ∧
      ∀ c name descriptor, (MappingSet.union layers).methodName c name descriptor =
        lastChange name (layers.map (·.methodName c name descriptor)) := by
  refine ⟨ResolvedLayer.readAll_eq, fun layers => ⟨fun c => ?_, fun c name descriptor => ?_⟩⟩
  · exact (classView c).inTable_union layers
  · have hUnion := (methodView c ⟨name, descriptor⟩).inTable_union layers
    simp only [funext (inTable_methodView · c name descriptor)] at hUnion
    exact hUnion

end Jarsmith
