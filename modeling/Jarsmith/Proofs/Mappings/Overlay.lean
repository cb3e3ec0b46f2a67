import Jarsmith.Proofs.ClassFile.Descriptor
import Jarsmith.Proofs.Mappings.Identity
import Jarsmith.Proofs.Mappings.Reverse

/-!
# Documentation by target names

A layer that renames nothing documents the methods of a class that is renamed: it lists the class
and the methods by their target names, and the methods with descriptors in target names.

Two translations of descriptors take part. An overlay reads a descriptor by the entries of its
classes alone (`MappingSet.listedDescriptor`), and the descriptor that a method has in target names
lets an inner class without an entry follow the class around it (`MappingSet.mapDescriptor`).
Documentation arrives where the two agree.

* `MappingSet.overlayKey?` — the name by which an overlay finds a method; `get?_methods_overlay` says
  what it brings.
* `MappingSet.listedDescriptor_eq_iff` — where the two translations agree.
* `MappingSet.accounts` — what a layer says about a method; `Named.get?_merge` says what becomes of
  the method in a union.
* `MappingSet.merge_documents` — a layer documents the method that it names.
* `MappingSet.merge_undocumented` — where the translations differ it does not.
-/

namespace Jarsmith

namespace MethodMapping

/-- What a method is after a later entry that keeps its name. -/
def documentedBy (earlier later : MethodMapping) : MethodMapping :=
  { earlier with
    parameters := earlier.parameters.overriddenBy later.parameters
    javadoc := later.javadoc.or earlier.javadoc }

variable {earlier later : MethodMapping} {name : String} {accounts : List MethodMapping}

theorem overriddenBy_of_named (hNamed : later.named = name) :
    earlier.overriddenBy name later = earlier.documentedBy later := by
  rw [overriddenBy, if_pos hNamed]
  rfl

/-- What several entries document: the last one with a word about it has the say. -/
theorem say_foldl {α : Type} (say : MethodMapping → Option α)
    (hSay : ∀ earlier later, say (documentedBy earlier later) = (say later).or (say earlier)) :
    say (accounts.foldl documentedBy earlier) =
      (accounts.reverse.findSome? say).or (say earlier) := by
  induction accounts generalizing earlier with
  | nil => rfl
  | cons account more ih =>
    have hLast : [account].findSome? say = say account := by cases h : say account <;> simp [h]
    rw [List.foldl_cons, ih, hSay, List.reverse_cons, List.findSome?_append, hLast, Option.or_assoc]

/-- A method keeps its name and carries what `accounts` say about it over what was known before;
where several have a word about something, it is the last one's. -/
structure Carries (documented earlier : MethodMapping) (accounts : List MethodMapping) : Prop where
  named : documented.named = earlier.named
  javadoc : documented.javadoc = (accounts.reverse.findSome? (·.javadoc)).or earlier.javadoc
  parameters : ∀ slot, documented.parameters.get? slot =
    (accounts.reverse.findSome? (·.parameters.get? slot)).or (earlier.parameters.get? slot)

theorem carries_foldl : (accounts.foldl documentedBy earlier).Carries earlier accounts where
  named := OrderedMap.foldl_unchanged MethodMapping.named fun _ _ _ => rfl
  javadoc := say_foldl (·.javadoc) fun _ _ => rfl
  parameters slot := say_foldl (·.parameters.get? slot) fun earlier later =>
    earlier.parameters.get?_overriddenBy later.parameters slot

end MethodMapping

namespace MappingSet

open ClassMapping MethodMapping

variable {s p m m' : MappingSet} {c owner descriptor : String} {target target' later : ClassMapping}
  {key theirs : MethodKey} {earlier : MethodMapping}

-- ---------------------------------------------------------------------------
-- Overlays
-- ---------------------------------------------------------------------------

/-- The target name and descriptor by which an overlay finds the method `key`. It finds no other
method by them, and an inner class without an entry keeps its name in the descriptor. -/
def overlayKey? (m : MappingSet) (owner : String) (target : ClassMapping) (key : MethodKey) :
    Option MethodKey :=
  ((target.methods.get? key).map fun e => ⟨e.named, m.listedDescriptor key.descriptor⟩).filter
    fun theirs => m.methodNamed? owner target theirs = some key

theorem overlayKey?_eq_some (hOwner : owner ≠ target.named) :
    m.overlayKey? owner target key = some theirs ↔
      m.methodNamed? owner target theirs = some key := by
  rw [overlayKey?, Option.filter_eq_some_iff, decide_eq_true_iff]
  constructor
  · exact And.right
  · intro hNamed
    obtain ⟨e, hGet, hName, hDescriptor⟩ := methodNamed?_eq_some hOwner hNamed
    refine ⟨?_, hNamed⟩
    rw [hGet, Option.map_some, hName, hDescriptor]

theorem methods_overlay : (m.overlay owner target later).methods =
    later.methods.entries.foldl (fun methods e => (m.methodNamed? owner target e.1).elim methods
      fun k => methods.insert k { e.2 with named := k.name }) ∅ := by
  refine congrArg (List.foldl · ∅ later.methods.entries) (funext₂ fun methods e => ?_)
  dsimp only
  cases m.methodNamed? owner target e.1 <;> rfl

/-- **An overlay carries documentation back** to the method that is found for it. -/
theorem get?_methods_overlay (hOwner : owner ≠ target.named) :
    (m.overlay owner target later).methods.get? key =
      ((m.overlayKey? owner target key).bind later.methods.get?).map
        fun e => { e with named := key.name } := by
  cases hFound : m.overlayKey? owner target key with
  | none =>
    -- nothing is ever written under the key
    cases hGet : (m.overlay owner target later).methods.get? key with
    | none => rfl
    | some e =>
      obtain ⟨theirs, -, -, hNamed, -⟩ := exists_of_methods_overlay hGet
      rw [(overlayKey?_eq_some hOwner).2 hNamed] at hFound
      cases hFound
  | some theirs =>
    have hNamed : ∀ j, m.methodNamed? owner target j = some key ↔ j = theirs := by
      intro j
      rw [← overlayKey?_eq_some hOwner, hFound, Option.some_inj, eq_comm]
    have hStep : ∀ (methods : OrderedMap MethodKey MethodMapping) (e : MethodKey × MethodMapping),
        e ∈ later.methods.entries →
        ((m.methodNamed? owner target e.1).elim methods
          fun k => methods.insert k { e.2 with named := k.name }).get? key =
          if e.1 = theirs then some { e.2 with named := key.name } else methods.get? key := by
      intro methods e _
      by_cases hTheirs : e.1 = theirs
      · rw [if_pos hTheirs, (hNamed e.1).2 hTheirs]
        exact (OrderedMap.get?_insert _ _ _ _).trans (if_pos rfl)
      · rw [if_neg hTheirs]
        cases hOther : m.methodNamed? owner target e.1 with
        | none => rfl
        | some k =>
          refine (OrderedMap.get?_insert _ _ _ _).trans (if_neg ?_)
          rintro rfl
          exact hTheirs ((hNamed e.1).1 hOther)
    have hFold := OrderedMap.foldl_independent (OrderedMap.get? · key)
      (fun _ e => some { e with named := key.name }) (s := ∅) later.methods.nodup hStep
    have hOverlay : (m.overlay owner target later).methods.get? key =
        (later.methods.get? theirs).elim none fun e => some { e with named := key.name } :=
      (congrArg (OrderedMap.get? · key) methods_overlay).trans hFold
    rw [hOverlay, Option.bind_some]
    cases later.methods.get? theirs <;> rfl

/-- Methods that are listed behind the others do not change how those are found. -/
theorem overlayKey?_of_front (hOwner : owner ≠ target.named) (hSame : target'.named = target.named)
    (hNames : ∀ c, m'.listedName c = m.listedName c)
    (hFront : target.methodNames.entries <+: target'.methodNames.entries)
    (hKey : key ∈ target.methods.keys) :
    m'.overlayKey? owner target' key = m.overlayKey? owner target key := by
  have hDescriptors : m'.listedDescriptor = m.listedDescriptor := by
    funext d
    exact congrArg (Descriptor.rename · d) (funext hNames)
  obtain ⟨more, hMore⟩ := hFront
  have hBehind : ∀ e ∈ more, e.1 ≠ key := by
    have hNodup := target'.methodNames.nodup
    rw [← hMore, List.map_append] at hNodup
    rw [← keys_methodNames] at hKey
    exact fun e hMem hSame => (List.nodup_append.1 hNodup).2.2 _ hKey _
      (List.mem_map_of_mem hMem) hSame.symm
  refine Option.ext fun theirs => ?_
  rw [overlayKey?_eq_some (hSame ▸ hOwner), overlayKey?_eq_some hOwner,
    methodNamed?_of_renamed (hSame ▸ hOwner), methodNamed?_of_renamed hOwner, hDescriptors, ← hMore,
    List.find?_append]
  cases target.methodNames.entries.find? fun e =>
    e.2 == theirs.name && m.listedDescriptor e.1.descriptor == theirs.descriptor with
  | some e => rfl
  | none =>
    refine iff_of_false (fun hFound => ?_) nofun
    obtain ⟨e, hFind, rfl⟩ := Option.map_eq_some_iff.1 hFound
    exact hBehind e (List.mem_of_find?_eq_some hFind) rfl

-- ---------------------------------------------------------------------------
-- A method in a union
-- ---------------------------------------------------------------------------

/-- The class `c` is the only one with its target name, and no class is listed under that name. -/
structure Named (s : MappingSet) (c : String) (target : ClassMapping) : Prop where
  distinct : s.targetNames.Nodup
  listed : s.class? c = some target
  unlisted : s.class? target.named = none

/-- What an entry of a layer says about the method `key` of the class `c`: an entry for `c` by the
source name, and an entry for the target name `named` by the name `found`. -/
def account (c named : String) (key : MethodKey) (found : Option MethodKey)
    (e : String × ClassMapping) : Option MethodMapping :=
  if e.1 = named then found.bind e.2.methods.get?
  else if e.1 = c then e.2.methods.get? key
  else none

/-- What a layer says about the method, in the order of its classes. -/
def accounts (p : MappingSet) (c named : String) (key : MethodKey) (found : Option MethodKey) :
    List MethodMapping :=
  p.classes.entries.filterMap (account c named key found)

/-- The class on the way to a union: its methods stand in front, and what the entries `done` say
about one of them has been taken in. -/
def Documents (c : String) (target : ClassMapping) (key : MethodKey) (found : Option MethodKey)
    (earlier : MethodMapping) (done : List (String × ClassMapping)) (st : Merging) : Prop :=
  ∃ entry, st.set.class? c = some entry ∧
    target.methodNames.entries <+: entry.methodNames.entries ∧
    entry.methods.get? key =
      some ((done.filterMap (account c target.named key found)).foldl documentedBy earlier)

section Step

variable {done : List (String × ClassMapping)} {e : String × ClassMapping} {st st' : Merging}
  {entry : ClassMapping} {name : String} {found : Option MethodKey}

/-- An entry that leaves the class alone says nothing about its method. -/
theorem Documents.silent (hDone : Documents c target key found earlier done st)
    (hSame : st'.set.class? c = st.set.class? c)
    (hAccount : account c target.named key found e = none) :
    Documents c target key found earlier (done ++ [e]) st' := by
  obtain ⟨entry, hClass, hFront, hGet⟩ := hDone
  refine ⟨entry, hSame.trans hClass, hFront, ?_⟩
  rw [List.filterMap_append, List.filterMap_cons, hAccount, List.filterMap_nil, List.append_nil]
  exact hGet

theorem Documents.taken (hDone : Documents c target key found earlier done st)
    (hOld : st.set.class? c = some entry)
    (hNew : st'.set.class? c = some (entry.overriddenBy c later))
    (hIdentity : later.isIdentity c = true)
    (hAccount : later.methods.get? key =
      (account c target.named key found e).map fun m => { m with named := key.name }) :
    Documents c target key found earlier (done ++ [e]) st' := by
  obtain ⟨entry', hClass, hFront, hGet⟩ := hDone
  obtain rfl := Option.some.inj (hOld.symm.trans hClass)
  refine ⟨_, hNew, hFront.trans (methodNames_front hIdentity), ?_⟩
  rw [get?_methods_overriddenBy, hGet, hAccount, List.filterMap_append, List.foldl_append]
  cases hSays : account c target.named key found e with
  | none =>
    rw [List.filterMap_cons, hSays]
    rfl
  | some m =>
    rw [List.filterMap_cons, hSays]
    exact congrArg some (overriddenBy_of_named rfl)

namespace Named

theorem ne_named (h : Named s c target) : c ≠ target.named :=
  (ne_of_class? h.unlisted h.listed).symm

theorem owner_eq (h : Named s c target) (hOwner : s.class? owner = some entry)
    (hNamed : entry.named = target.named) : owner = c := by
  have hSame := List.inj_on_of_nodup_map h.distinct (OrderedMap.get?_eq_some.1 hOwner)
    (OrderedMap.get?_eq_some.1 h.listed) hNamed
  exact (Prod.mk.inj hSame).1

theorem add (h : Named s c target) (hFollows : Follows s done st)
    (hNew : name ∉ done.map Prod.fst) (hIdentity : later.isIdentity name = true)
    (hKey : key ∈ target.methods.keys)
    (hDone : Documents c target key (s.overlayKey? c target key) earlier done st) :
    Documents c target key (s.overlayKey? c target key) earlier (done ++ [(name, later)])
      (st.add name later) := by
  have ⟨entry, hClass, hFront, _⟩ := hDone
  have hAdds := st.adds_add name later
  generalize st.add name later = st' at hAdds ⊢
  cases hAdds with
  | @own listed hOwn =>
    have hTarget : name ≠ target.named := by
      rintro rfl
      rcases hFollows.known _ (Option.ne_none_iff_exists'.2 ⟨_, hOwn⟩) with hOld | hOld
      · exact hOld h.unlisted
      · exact hNew hOld
    by_cases hName : name = c
    · subst hName
      refine hDone.taken hOwn (class?_insert.trans (if_pos rfl)) hIdentity ?_
      obtain ⟨-, -, hNames⟩ := isIdentity_iff.1 hIdentity
      rw [account, if_neg hTarget, if_pos rfl]
      cases hSays : later.methods.get? key with
      | none => rfl
      | some m => rw [Option.map_some, ← hNames key m hSays]
    · refine hDone.silent (class?_insert.trans (if_neg hName)) ?_
      rw [account, if_neg hTarget, if_neg hName]
  | @overlaid holder overlaid hFree _ hIndex hHolder =>
    obtain ⟨old, hOld, hNamed⟩ := hFollows.exists_of_index hNew hIndex
    by_cases hOwner : holder = c
    · subst hOwner
      obtain rfl := Option.some.inj (h.listed.symm.trans hOld)
      obtain rfl := Option.some.inj (hHolder.symm.trans hClass)
      refine hDone.taken hHolder (class?_insert.trans (if_pos rfl)) isIdentity_overlay ?_
      have hSame := hFollows.named_eq hOld hHolder
      rw [account, if_pos hNamed.symm, get?_methods_overlay (hSame ▸ h.ne_named),
        overlayKey?_of_front h.ne_named hSame hFollows.names hFront hKey]
    · refine hDone.silent (class?_insert.trans (if_neg hOwner)) ?_
      have hTarget : name ≠ target.named := fun hName =>
        hOwner (h.owner_eq hOld (hNamed.trans hName))
      rw [account, if_neg hTarget, if_neg (ne_of_class? hFree hClass)]
  | fresh hFree hHolder =>
    have hTarget : name ≠ target.named := by
      rintro rfl
      exact hFollows.not_mem_targetNames hNew (hHolder hIdentity)
        (mem_targetNames.2 ⟨c, target, h.listed, rfl⟩)
    have hName : name ≠ c := ne_of_class? hFree hClass
    refine hDone.silent (class?_insert.trans (if_neg hName)) ?_
    rw [account, if_neg hTarget, if_neg hName]

/-- **A method of a union** is what it was, with everything over it that the layer says about it. -/
theorem get?_merge (h : Named s c target) (hIdentity : p.IsIdentity)
    (hMethod : target.methods.get? key = some earlier) :
    ∃ entry, (s.merge p).class? c = some entry ∧ entry.methods.get? key =
      some ((p.accounts c target.named key (s.overlayKey? c target key)).foldl documentedBy
        earlier) := by
  have hStart : Documents c target key (s.overlayKey? c target key) earlier [] (Merging.start s) :=
    ⟨target, h.listed, List.prefix_rfl, hMethod⟩
  have hKey : key ∈ target.methods.keys := OrderedMap.mem_keys.2 ⟨earlier, hMethod⟩
  obtain ⟨st, hUnion, -, entry, hClass, -, hGet⟩ := follows_merge s hIdentity hStart
    fun done name later st _ hKeeps hNew hFollows hDone => h.add hFollows hNew hKeeps hKey hDone
  exact ⟨entry, hUnion ▸ hClass, hGet⟩

end Named

end Step

-- ---------------------------------------------------------------------------
-- Two translations of a descriptor
-- ---------------------------------------------------------------------------

/-- Every class of a descriptor is listed or keeps its name: none follows the class around it. -/
def Covers (m : MappingSet) (descriptor : String) : Prop :=
  ∀ x ∈ Descriptor.classNames descriptor, m.class? x ≠ none ∨ m.className x = x

instance (m : MappingSet) (descriptor : String) : Decidable (m.Covers descriptor) :=
  inferInstanceAs (Decidable (∀ x ∈ Descriptor.classNames descriptor, _ ∨ _))

theorem listedDescriptor_of_covers (hCovers : m.Covers descriptor) :
    m.listedDescriptor descriptor = m.mapDescriptor descriptor := by
  refine Descriptor.rename_congr fun x hx => ?_
  cases hClass : m.class? x with
  | some entry => exact (className_of_class? hClass).symm
  | none =>
    rcases hCovers x hx with hListed | hKept
    · exact absurd hClass hListed
    · exact hKept.symm

/-- A class that is not covered has another name in the other translation, so the translations agree
on the covered descriptors alone. Target names that could end a name early are left out. -/
theorem listedDescriptor_eq_iff (hPlain : ∀ n c, m.class? n = some c → ';' ∉ c.named.toList) :
    m.listedDescriptor descriptor = m.mapDescriptor descriptor ↔ m.Covers descriptor := by
  refine ⟨fun hSame x hx => ?_, listedDescriptor_of_covers⟩
  have hOwn : ∀ x ∈ Descriptor.classNames descriptor,
      ';' ∉ (((m.class? x).map (·.named)).getD x).toList := by
    intro x hx
    cases hClass : m.class? x with
    | none => exact Descriptor.not_mem_of_mem_classNames hx
    | some entry => exact hPlain x entry hClass
  have hAgree := (Descriptor.rename_eq_rename_iff hOwn fun x hx =>
    not_mem_className hPlain (Descriptor.not_mem_of_mem_classNames hx)).1 hSame x hx
  cases hClass : m.class? x with
  | some entry => exact .inl (Option.some_ne_none entry)
  | none =>
    rw [hClass] at hAgree
    exact .inr hAgree.symm

/-- The method `k` of the class is called `theirs` in target names. -/
def IsCalled (m : MappingSet) (target : ClassMapping) (theirs k : MethodKey) : Prop :=
  ∃ e, target.methods.get? k = some e ∧ e.named = theirs.name ∧
    m.mapDescriptor k.descriptor = theirs.descriptor

/-- The only method that is called `theirs` is found by it where the translations agree. -/
theorem overlayKey?_of_isCalled (hOwner : owner ≠ target.named)
    (hOnly : ∀ k, m.IsCalled target theirs k ↔ k = key)
    (hCovers : ∀ k e, target.methods.get? k = some e → e.named = theirs.name →
      m.Covers k.descriptor) :
    m.overlayKey? owner target key = some theirs := by
  rw [overlayKey?_eq_some hOwner]
  cases hNamed : m.methodNamed? owner target theirs with
  | some k =>
    obtain ⟨e, hGet, hName, hDescriptor⟩ := methodNamed?_eq_some hOwner hNamed
    rw [listedDescriptor_of_covers (hCovers k e hGet hName)] at hDescriptor
    rw [(hOnly k).1 ⟨e, hGet, hName, hDescriptor⟩]
  | none =>
    obtain ⟨e, hGet, hName, hDescriptor⟩ := (hOnly key).2 rfl
    rw [← listedDescriptor_of_covers (hCovers key e hGet hName)] at hDescriptor
    rw [methodNamed?_of_renamed hOwner, Option.map_eq_none_iff, List.find?_eq_none] at hNamed
    refine absurd ?_ (hNamed (key, e.named) (OrderedMap.get?_eq_some.1 ?_))
    · simp [hName, hDescriptor]
    · rw [get?_methodNames, hGet]
      rfl

-- ---------------------------------------------------------------------------
-- Documented methods
-- ---------------------------------------------------------------------------

theorem accounts_of_unlisted {named : String} {found : Option MethodKey}
    (hLater : p.class? named = some later)
    (hSilent : (p.class? c).bind (·.methods.get? key) = none) :
    p.accounts c named key found = (found.bind later.methods.get?).toList := by
  obtain ⟨before, after, hSplit, hBefore, hAfter⟩ := OrderedMap.exists_split hLater
  have hOther : ∀ e ∈ p.classes.entries, e.1 ≠ named → account c named key found e = none := by
    intro e hMem hName
    rw [account, if_neg hName]
    split
    · rename_i hSource
      have hClass : p.class? c = some e.2 := hSource ▸ OrderedMap.get?_eq_some.2 hMem
      rw [hClass] at hSilent
      exact hSilent
    · rfl
  have hLast : account c named key found (named, later) = found.bind later.methods.get? :=
    if_pos rfl
  rw [hSplit] at hOther
  rw [accounts, hSplit, List.filterMap_append, List.filterMap_cons, hLast,
    List.filterMap_eq_nil_iff.2 fun e hMem =>
      hOther e (List.mem_append_left _ hMem) (hBefore e hMem),
    List.filterMap_eq_nil_iff.2 fun e hMem =>
      hOther e (List.mem_append_right _ (List.mem_cons_of_mem _ hMem)) (hAfter e hMem)]
  cases found.bind later.methods.get? <;> rfl

/-- **A layer documents the method whose target name it lists**: the one method of the class that is
called so, if no class of such a method's descriptor follows the class around it. The method carries
everything that the layer says about it, which is the documentation under its target name alone
unless the layer lists it by its source name as well. -/
theorem merge_documents {doc : MethodMapping} (hDistinct : s.targetNames.Nodup)
    (hIdentity : p.IsIdentity) (hClass : s.class? c = some target)
    (hSource : s.class? target.named = none) (hLater : p.class? target.named = some later)
    (hDoc : later.methods.get? theirs = some doc) (hMethod : target.methods.get? key = some earlier)
    (hOnly : ∀ k, s.IsCalled target theirs k ↔ k = key)
    (hCovers : ∀ k e, target.methods.get? k = some e → e.named = theirs.name →
      s.Covers k.descriptor) :
    ∃ entry documented, (s.merge p).class? c = some entry ∧
      entry.methods.get? key = some documented ∧
      documented.Carries earlier (p.accounts c target.named key theirs) ∧
      ((p.class? c).bind (·.methods.get? key) = none →
        documented.javadoc = doc.javadoc.or earlier.javadoc ∧
        ∀ slot, documented.parameters.get? slot =
          (doc.parameters.get? slot).or (earlier.parameters.get? slot)) := by
  have hNamed : Named s c target := ⟨hDistinct, hClass, hSource⟩
  obtain ⟨entry, hEntry, hGet⟩ := hNamed.get?_merge hIdentity hMethod
  rw [overlayKey?_of_isCalled hNamed.ne_named hOnly hCovers] at hGet
  refine ⟨entry, _, hEntry, hGet, carries_foldl, fun hSilent => ?_⟩
  rw [accounts_of_unlisted hLater hSilent, Option.bind_some, hDoc]
  exact ⟨rfl, SlotNames.get?_overriddenBy _ _⟩

/-- A class with two methods that get the same name. -/
def twoRuns : ClassMapping :=
  ((ClassMapping.new "x/A").addMethod ⟨"m", "([[La;IJ)Lb;"⟩ "run").addParameter
    ⟨"m", "([[La;IJ)Lb;"⟩ 2 "count" |>.addMethod ⟨"n", "()V"⟩ "run"

def runningClasses : MappingSet := ⟨.ofList [("a", twoRuns), ("b", .new "x/B")]⟩

/-- Documentation for one of the methods. -/
def runDocumentation : MappingSet :=
  ((∅ : MappingSet).documentMethod "x/A" "run" "([[Lx/A;IJ)Lx/B;" "Runs.").addParameter "x/A" "run"
    "([[Lx/A;IJ)Lx/B;" 1 "all"

theorem merge_documents_run :
    ∃ entry documented, (runningClasses.merge runDocumentation).class? "a" = some entry ∧
      entry.methods.get? ⟨"m", "([[La;IJ)Lb;"⟩ = some documented ∧ documented.named = "run" ∧
      documented.javadoc = some "Runs." ∧ documented.parameters.get? 1 = some "all" ∧
      documented.parameters.get? 2 = some "count" := by
  have hCalled : ∀ e ∈ twoRuns.methods.entries,
      (e.2.named = "run" ∧ runningClasses.mapDescriptor e.1.descriptor = "([[Lx/A;IJ)Lx/B;") ↔
        e.1 = ⟨"m", "([[La;IJ)Lb;"⟩ := by
    decide +kernel
  have hCovers : ∀ e ∈ twoRuns.methods.entries, runningClasses.Covers e.1.descriptor := by
    decide +kernel
  have hOnly : ∀ k, runningClasses.IsCalled twoRuns ⟨"run", "([[Lx/A;IJ)Lx/B;"⟩ k ↔
      k = ⟨"m", "([[La;IJ)Lb;"⟩ := by
    refine fun k => ⟨fun ⟨e, hGet, hIs⟩ => ?_, ?_⟩
    · exact (hCalled (k, e) (OrderedMap.get?_eq_some.1 hGet)).1 hIs
    · rintro rfl
      exact ⟨_, rfl, (hCalled _ List.mem_cons_self).2 rfl⟩
  obtain ⟨entry, documented, hEntry, hMethod, hCarries, hOnce⟩ :=
    merge_documents (c := "a") (p := runDocumentation) (by decide) (by decide) rfl rfl rfl rfl rfl
      hOnly fun k e hGet _ => hCovers (k, e) (OrderedMap.get?_eq_some.1 hGet)
  obtain ⟨hDoc, hSlots⟩ := hOnce rfl
  exact ⟨entry, documented, hEntry, hMethod, hCarries.named, hDoc, hSlots 1, hSlots 2⟩

/-- The documentation of a method is lost if the overlay reads its descriptor differently. -/
theorem merge_undocumented (hDistinct : s.targetNames.Nodup) (hIdentity : p.IsIdentity)
    (hClass : s.class? c = some target) (hSource : s.class? target.named = none)
    (hLater : p.class? target.named = some later) (hMethod : target.methods.get? key = some earlier)
    (hSilent : (p.class? c).bind (·.methods.get? key) = none)
    (hDiffers : later.methods.get? ⟨earlier.named, s.listedDescriptor key.descriptor⟩ = none) :
    ∃ entry, (s.merge p).class? c = some entry ∧ entry.methods.get? key = some earlier := by
  have hNamed : Named s c target := ⟨hDistinct, hClass, hSource⟩
  obtain ⟨entry, hEntry, hGet⟩ := hNamed.get?_merge hIdentity hMethod
  refine ⟨entry, hEntry, ?_⟩
  have hNone : (s.overlayKey? c target key).bind later.methods.get? = none := by
    refine Option.bind_eq_none_iff.2 fun theirs hFound => ?_
    obtain ⟨e, hGet, hName, hDescriptor⟩ :=
      methodNamed?_eq_some hNamed.ne_named ((overlayKey?_eq_some hNamed.ne_named).1 hFound)
    obtain rfl := Option.some.inj (hMethod.symm.trans hGet)
    rw [hName, hDescriptor] at hDiffers
    exact hDiffers
  rw [hGet, accounts_of_unlisted hLater hSilent, hNone]
  rfl

/-- The method is `run(Lx/A$1;)V` in target names, and the overlay looks for `run(La$1;)V`. -/
example :
    let s := ((∅ : MappingSet).addClass "a" "x/A").addMethod "a" "m" "(La$1;)V" "run"
    let p := (∅ : MappingSet).documentMethod "x/A" "run" "(Lx/A$1;)V" "Runs."
    s.mapDescriptor "(La$1;)V" = "(Lx/A$1;)V" ∧
      ((s.merge p).class? "a").bind (fun c => c.methods.get? ⟨"m", "(La$1;)V"⟩) =
        some ⟨"run", ∅, none⟩ := by
  decide +kernel

end MappingSet

end Jarsmith
