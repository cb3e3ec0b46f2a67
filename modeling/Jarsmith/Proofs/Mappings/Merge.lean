import Jarsmith.Mappings.Merge
import Jarsmith.Proofs.OrderedMap

/-!
# Taking in later entries

What an entry of a class is after a later one, and the three ways in which a table takes in a later
entry of a class.

* `ClassMapping.isIdentity_iff` — an entry that renames nothing.
* `ClassMapping.named_overriddenBy`, `ClassMapping.get?_methods_overriddenBy`,
  `ClassMapping.fields_overriddenBy` — an entry after a later one, part by part.
* `MappingSet.isIdentity_overlay` — an entry that is carried back into source names renames nothing.
* `Merging.Adds`, `Merging.adds_add` — what one step of a merge can do.
-/

namespace Jarsmith

namespace SlotNames

/-- A slot that both name is called as the later one says. -/
theorem get?_overriddenBy (m other : SlotNames) (slot : UInt16) :
    (m.overriddenBy other).get? slot = (other.get? slot).or (m.get? slot) := by
  -- later writes win, so the first name of a slot is the last one only because slots are distinct
  have hFold : ∀ (l : List (UInt16 × String)) (m : SlotNames),
      (l.Pairwise fun a b => a.1.toNat < b.1.toNat) →
      (l.foldl (fun m e => m.insert e.1 e.2) m).get? slot =
        (lookup slot l).or (m.get? slot) := by
    intro l
    induction l with
    | nil => exact fun _ _ => rfl
    | cons e rest ih =>
      intro m hSorted
      obtain ⟨hHead, hRest⟩ := List.pairwise_cons.1 hSorted
      rw [List.foldl_cons, ih _ hRest, get?_insert, lookup]
      split
      · rename_i hSlot
        have hAbsent : ∀ l : List (UInt16 × String), (∀ b ∈ l, e.1.toNat < b.1.toNat) →
            lookup slot l = none := by
          intro l hLater
          induction l with
          | nil => rfl
          | cons b more ihMore =>
            have hNe : b.1 ≠ slot := by
              rintro rfl
              exact absurd (hLater b List.mem_cons_self) (by rw [hSlot]; exact Nat.lt_irrefl _)
            rw [lookup, if_neg hNe, ihMore fun c hc => hLater c (List.mem_cons_of_mem _ hc)]
        rw [hAbsent rest hHead]
        rfl
      · rfl
  exact hFold other.entries m other.sorted

end SlotNames

namespace ClassMapping

variable {name : String} {c earlier later : ClassMapping}

/-- An entry that renames nothing, by what it gives for the members that it lists. -/
theorem isIdentity_iff : c.isIdentity name = true ↔ c.named = name ∧
    (∀ k f, c.fields.get? k = some f → f.named = k.name) ∧
    (∀ k m, c.methods.get? k = some m → m.named = k.name) := by
  rw [isIdentity, Bool.and_eq_true, Bool.and_eq_true, beq_iff_eq, List.all_eq_true,
    List.all_eq_true, and_assoc]
  have hFields : (∀ e ∈ c.fields.entries, (e.1.name == e.2.named) = true) ↔
      ∀ k f, c.fields.get? k = some f → f.named = k.name := by
    simp only [OrderedMap.get?_eq_some, beq_iff_eq, Prod.forall]
    exact forall₃_congr fun _ _ _ => eq_comm
  have hMethods : (∀ e ∈ c.methods.entries, (e.1.name == e.2.named) = true) ↔
      ∀ k m, c.methods.get? k = some m → m.named = k.name := by
    simp only [OrderedMap.get?_eq_some, beq_iff_eq, Prod.forall]
    exact forall₃_congr fun _ _ _ => eq_comm
  exact and_congr eq_comm (and_congr hFields hMethods)

-- ---------------------------------------------------------------------------
-- One member
-- ---------------------------------------------------------------------------

theorem mergeField_eq (key : FieldKey) (f : FieldMapping) :
    c.mergeField key f = { c with fields := (c.mergeField key f).fields } := by
  rw [mergeField]
  split
  · split <;> rfl
  · rfl

@[simp] theorem named_mergeField (key : FieldKey) (f : FieldMapping) :
    (c.mergeField key f).named = c.named := by
  rw [mergeField_eq]

@[simp] theorem methods_mergeField (key : FieldKey) (f : FieldMapping) :
    (c.mergeField key f).methods = c.methods := by
  rw [mergeField_eq]

theorem get?_methods_mergeMethod (key j : MethodKey) (m : MethodMapping) :
    (c.mergeMethod key m).methods.get? j =
      if key = j then some ((c.methods.get? j).elim m (·.overriddenBy j.name m))
      else c.methods.get? j := by
  rw [mergeMethod, OrderedMap.get?_insert]
  split
  · rename_i hKey
    rw [← hKey]
    cases c.methods.get? key <;> rfl
  · rfl

-- ---------------------------------------------------------------------------
-- A whole entry
-- ---------------------------------------------------------------------------

/-- The entry before its members are taken in. -/
def renamedBy (name : String) (earlier later : ClassMapping) : ClassMapping :=
  { earlier with
    named := if later.named = name then earlier.named else later.named
    javadoc := later.javadoc.or earlier.javadoc }

/-- The entry with some later fields taken in, one after the other. -/
def mergeFields (c : ClassMapping) (l : List (FieldKey × FieldMapping)) : ClassMapping :=
  l.foldl (fun c e => c.mergeField e.1 e.2) c

/-- The entry with the fields of the later one taken in, and its methods not yet. -/
def withFieldsOf (name : String) (earlier later : ClassMapping) : ClassMapping :=
  (renamedBy name earlier later).mergeFields later.fields.entries

theorem overriddenBy_eq : earlier.overriddenBy name later =
    later.methods.entries.foldl (fun c e => c.mergeMethod e.1 e.2)
      (withFieldsOf name earlier later) := rfl

theorem named_overriddenBy : (earlier.overriddenBy name later).named =
    if later.named = name then earlier.named else later.named := by
  have hFields : (withFieldsOf name earlier later).named =
      if later.named = name then earlier.named else later.named :=
    OrderedMap.foldl_unchanged named fun c e _ => named_mergeField e.1 e.2
  rw [overriddenBy_eq, ← hFields]
  exact OrderedMap.foldl_unchanged named fun _ _ _ => rfl

/-- The methods of the two entries; a method of both is overridden. -/
theorem get?_methods_overriddenBy (key : MethodKey) :
    (earlier.overriddenBy name later).methods.get? key =
      (later.methods.get? key).elim (earlier.methods.get? key) fun m =>
        some ((earlier.methods.get? key).elim m (·.overriddenBy key.name m)) := by
  have hMethods : (withFieldsOf name earlier later).methods = earlier.methods :=
    OrderedMap.foldl_unchanged methods fun c e _ => methods_mergeField e.1 e.2
  have hFold := OrderedMap.foldl_independent (fun c => c.methods.get? key)
    (fun earlier m => some (earlier.elim m (·.overriddenBy key.name m)))
    (s := withFieldsOf name earlier later) later.methods.nodup
    fun c e _ => get?_methods_mergeMethod e.1 key e.2
  rw [overriddenBy_eq, hFold, hMethods]
  rfl

/-- The fields do not depend on the methods that are taken in behind them. -/
theorem fields_overriddenBy : (earlier.overriddenBy name later).fields =
    (withFieldsOf name earlier later).fields :=
  OrderedMap.foldl_unchanged fields fun _ _ _ => rfl

end ClassMapping

-- ---------------------------------------------------------------------------
-- Overlays
-- ---------------------------------------------------------------------------

namespace MappingSet

variable {m : MappingSet} {owner : String} {target later : ClassMapping}

@[simp] theorem class?_insert {classes : OrderedMap String ClassMapping} {name c : String}
    {entry : ClassMapping} :
    (MappingSet.mk (classes.insert name entry)).class? c =
      if name = c then some entry else (MappingSet.mk classes).class? c :=
  classes.get?_insert c name entry

theorem class?_insert_ne_none {classes : OrderedMap String ClassMapping} {name c : String}
    {entry : ClassMapping} : (MappingSet.mk (classes.insert name entry)).class? c ≠ none ↔
      name = c ∨ (MappingSet.mk classes).class? c ≠ none :=
  OrderedMap.get?_insert_ne_none

theorem ne_of_class? {name c : String} {entry : ClassMapping} (hNone : m.class? name = none)
    (hClass : m.class? c = some entry) : name ≠ c := by
  rintro rfl
  rw [hNone] at hClass
  cases hClass

/-- A field of an overlay is one that the later entry gives by its target name. -/
theorem exists_of_fields_overlay {k : FieldKey} {f : FieldMapping}
    (hField : (m.overlay owner target later).fields.get? k = some f) :
    ∃ theirs g, later.fields.get? theirs = some g ∧ m.fieldNamed? target theirs = some k ∧
      f = ⟨k.name, g.javadoc⟩ := by
  refine OrderedMap.of_get?_foldl (P := fun k f => ∃ theirs g, later.fields.get? theirs = some g ∧
    m.fieldNamed? target theirs = some k ∧ f = ⟨k.name, g.javadoc⟩) (fun fields e hMem => ?_) hField
  dsimp only
  cases hNamed : m.fieldNamed? target e.1 with
  | none => exact .inl rfl
  | some j => exact .inr ⟨j, _, ⟨e.1, e.2, OrderedMap.get?_eq_some.2 hMem, hNamed, rfl⟩, rfl⟩

theorem exists_of_methods_overlay {k : MethodKey} {e : MethodMapping}
    (hMethod : (m.overlay owner target later).methods.get? k = some e) :
    ∃ theirs g, later.methods.get? theirs = some g ∧
      m.methodNamed? owner target theirs = some k ∧ e = { g with named := k.name } := by
  refine OrderedMap.of_get?_foldl (P := fun k e => ∃ theirs g, later.methods.get? theirs = some g ∧
    m.methodNamed? owner target theirs = some k ∧ e = { g with named := k.name })
    (fun methods e hMem => ?_) hMethod
  dsimp only
  cases hNamed : m.methodNamed? owner target e.1 with
  | none => exact .inl rfl
  | some j => exact .inr ⟨j, _, ⟨e.1, e.2, OrderedMap.get?_eq_some.2 hMem, hNamed, rfl⟩, rfl⟩

/-- **An overlay renames nothing**, whatever it was made from. -/
theorem isIdentity_overlay : (m.overlay owner target later).isIdentity owner = true := by
  refine ClassMapping.isIdentity_iff.2 ⟨rfl, fun k f hField => ?_, fun k e hMethod => ?_⟩
  · obtain ⟨theirs, g, -, -, rfl⟩ := exists_of_fields_overlay hField
    rfl
  · obtain ⟨theirs, g, -, -, rfl⟩ := exists_of_methods_overlay hMethod
    rfl

-- ---------------------------------------------------------------------------
-- Steps of a merge
-- ---------------------------------------------------------------------------

namespace Merging

variable {s : Merging} {name : String} {later : ClassMapping}

/-- A table before anything is taken in. -/
def start (m : MappingSet) : Merging :=
  ⟨m, m.classes.entries.foldl (fun byNamed e => byNamed.insert e.2.named e.1) ∅⟩

/-- What a table can become when it takes in the later entry of the class called `name`. -/
inductive Adds (s : Merging) (name : String) (later : ClassMapping) : Merging → Prop where
  /-- The class is listed. -/
  | own {earlier : ClassMapping} : s.set.class? name = some earlier →
      Adds s name later
        ⟨⟨s.set.classes.insert name (earlier.overriddenBy name later)⟩,
          s.byNamed.insert (earlier.overriddenBy name later).named name⟩
  /-- It is the target name of a listed class, and the entry renames nothing. -/
  | overlaid {owner : String} {target : ClassMapping} : s.set.class? name = none →
      later.isIdentity name = true → s.byNamed.get? name = some owner →
      s.set.class? owner = some target →
      Adds s name later
        { s with set := ⟨s.set.classes.insert owner
          (target.overriddenBy owner (s.set.overlay owner target later))⟩ }
  /-- Nothing is known about it, or the entry renames something. -/
  | fresh : s.set.class? name = none →
      (later.isIdentity name = true → ∀ owner, s.byNamed.get? name = some owner →
        s.set.class? owner = none) →
      Adds s name later
        ⟨⟨s.set.classes.insert name later⟩, s.byNamed.insert later.named name⟩

theorem adds_add (s : Merging) (name : String) (later : ClassMapping) :
    s.Adds name later (s.add name later) := by
  cases hClass : s.set.class? name with
  | some earlier =>
    rw [add, hClass]
    exact .own hClass
  | none =>
    rw [add, hClass]
    dsimp only
    split
    · rename_i owner target hOwner
      obtain ⟨owner', hNamed, hTarget⟩ := Option.bind_eq_some_iff.1 hOwner
      obtain ⟨target', hTarget, hPair⟩ := Option.map_eq_some_iff.1 hTarget
      cases hPair
      split at hNamed
      · rename_i hIdentity
        exact .overlaid hClass hIdentity hNamed hTarget
      · cases hNamed
    · rename_i hOwner
      refine .fresh hClass fun hIdentity owner hNamed => ?_
      rw [if_pos hIdentity, hNamed] at hOwner
      exact Option.map_eq_none_iff.1 hOwner

end Merging

/-- A union takes in the later entries one after the other. -/
theorem merge_eq (m later : MappingSet) : m.merge later =
    (later.classes.entries.foldl (fun s e => Merging.add s e.1 e.2) (Merging.start m)).set := rfl

end MappingSet

end Jarsmith
