import Jarsmith.Remap.Hierarchy
import Mathlib.Logic.Function.Iterate
import Mathlib.Order.Lattice.Nat

/-!
# Lineages

The walk through the classes above a class, one class at a time, and the walk under other names. A
lineage is walked with a queue: the class that has waited longest is visited, and its parents wait
behind all others. A class may wait many times, and the hierarchy may lead back to where it came from.

* `lineage_eq_cons` — a lineage starts with the class itself.
* `forall_mem_lineage` — what parents inherit backwards holds of a whole lineage.
* `Renamed` — two hierarchies are the same but for the names of their classes.
* `Renamed.lineage` — the lineage of a renamed class is the renamed lineage, in the same order.

Two facts about a walk on its way carry everything that is said about a whole one.

* `Walk.Logged` — all that ever waited is the first class and the parents of the visited ones, and
  the visited classes are those that no longer wait, each once.
* `Walk.Layered` — what waits is the rest of one level and a part of the next one, and no class that
  is nearer is missing.
* `Walk.iterate_next` — the walk ends, and how many turns it takes.
* `Walk.Layered.next` — a turn keeps the levels apart.
* `lineage_breadthFirst` — a lineage is the whole walk: complete, nearest classes first, and in the
  order in which each class declares its parents.
-/

namespace Jarsmith.ClassHierarchy

variable {h h' : ClassHierarchy} {name : String} {seen queue : List String}

-- ---------------------------------------------------------------------------
-- One class of the walk
-- ---------------------------------------------------------------------------

/-- The classes directly above a class. Nothing is known to be above an unknown one. -/
def parentsOf (h : ClassHierarchy) (name : String) : List String :=
  ((h.node? name).map ClassNode.parents).getD []

theorem parentsOf_of_node? {node : ClassNode} (hNode : h.node? name = some node) :
    h.parentsOf name = node.superName.toList ++ node.interfaces := by
  rw [parentsOf, hNode]
  rfl

theorem mem_parentsOf {p : String} :
    p ∈ h.parentsOf name ↔ ∃ node, h.node? name = some node ∧ p ∈ node.parents := by
  rw [parentsOf]
  cases h.node? name <;> simp

theorem walk_nil : h.walk seen [] = [] := by rw [walk]

theorem walk_seen (hSeen : name ∈ seen) : h.walk seen (name :: queue) = h.walk seen queue := by
  rw [walk]
  split
  · rfl
  · rename_i hNew
    rw [List.contains_eq_mem, decide_eq_false_iff_not] at hNew
    exact absurd hSeen hNew

/-- A class that comes up for the first time is followed by what waits, and then by its parents. -/
theorem walk_new (hNew : name ∉ seen) : h.walk seen (name :: queue) =
    name :: h.walk (name :: seen) (queue ++ ((h.node? name).map ClassNode.parents).getD []) := by
  rw [walk]
  split
  · rename_i hSeen
    rw [List.contains_eq_mem, decide_eq_true_eq] at hSeen
    exact absurd hSeen hNew
  · split
    · rename_i node hNode
      rw [hNode]
      rfl
    · rename_i hNode
      rw [hNode, Option.map_none, Option.getD_none, List.append_nil]

/-- A class is visited or has been visited before; what is known about it does not matter. -/
theorem walk_induction {motive : List String → List String → Prop}
    (hEnd : ∀ seen, motive seen [])
    (hOld : ∀ seen name queue, name ∈ seen → motive seen queue → motive seen (name :: queue))
    (hNew : ∀ seen name queue, name ∉ seen →
      motive (name :: seen) (queue ++ h.parentsOf name) → motive seen (name :: queue))
    (seen queue : List String) : motive seen queue := by
  induction seen, queue using ClassHierarchy.walk.induct h with
  | case1 seen => exact hEnd seen
  | case2 seen name queue hSeen ih =>
    rw [List.contains_eq_mem, decide_eq_true_eq] at hSeen
    exact hOld seen name queue hSeen ih
  | case3 seen name queue hSeen node hNode ih =>
    rw [List.contains_eq_mem, decide_eq_false_iff_not] at hSeen
    have hParents : h.parentsOf name = node.parents := parentsOf_of_node? hNode
    exact hNew seen name queue hSeen (hParents ▸ ih)
  | case4 seen name queue hSeen hNode ih =>
    rw [List.contains_eq_mem, decide_eq_false_iff_not] at hSeen
    refine hNew seen name queue hSeen ?_
    rw [parentsOf, hNode, Option.map_none, Option.getD_none, List.append_nil]
    exact ih

/-- A lineage starts with the class itself. -/
theorem lineage_eq_cons (h : ClassHierarchy) (name : String) :
    ∃ above, h.lineage name = name :: above :=
  ⟨_, walk_new List.not_mem_nil⟩

theorem mem_lineage_self : name ∈ h.lineage name := by
  obtain ⟨above, hEq⟩ := h.lineage_eq_cons name
  rw [hEq]
  exact List.mem_cons_self

theorem forall_mem_parentsOf {S : String → Prop}
    (hParents : ∀ a node, S a → h.node? a = some node → ∀ p ∈ node.parents, S p)
    (hName : S name) : ∀ p ∈ h.parentsOf name, S p := by
  intro p hp
  obtain ⟨node, hNode, hp⟩ := mem_parentsOf.1 hp
  exact hParents name node hName hNode p hp

/-- What holds of the classes that wait, and goes over to the parents of a class, holds of every class
that the walk still visits. -/
theorem forall_mem_walk {S : String → Prop}
    (hParents : ∀ a node, S a → h.node? a = some node → ∀ p ∈ node.parents, S p)
    (hQueue : ∀ a ∈ queue, S a) : ∀ a ∈ h.walk seen queue, S a := by
  induction seen, queue using walk_induction (h := h) with
  | hEnd seen =>
    rw [walk_nil]
    exact fun _ hMem => absurd hMem List.not_mem_nil
  | hOld seen name queue hSeen ih =>
    rw [walk_seen hSeen]
    exact ih (List.forall_mem_cons.1 hQueue).2
  | hNew seen name queue hNew ih =>
    obtain ⟨hName, hQueue⟩ := List.forall_mem_cons.1 hQueue
    rw [walk_new hNew]
    exact List.forall_mem_cons.2 ⟨hName,
      ih (List.forall_mem_append.2 ⟨hQueue, forall_mem_parentsOf hParents hName⟩)⟩

theorem forall_mem_lineage {S : String → Prop}
    (hParents : ∀ a node, S a → h.node? a = some node → ∀ p ∈ node.parents, S p)
    (hName : S name) : ∀ a ∈ h.lineage name, S a :=
  forall_mem_walk hParents (List.forall_mem_singleton.2 hName)

-- ---------------------------------------------------------------------------
-- The walk under other names
-- ---------------------------------------------------------------------------

/-- On the classes of `S`, the hierarchy `h'` is `h` with the names that `f` gives; no two classes of
`S` get the same name. -/
structure Renamed (f : String → String) (S : String → Prop) (h h' : ClassHierarchy) : Prop where
  injective : ∀ {a b}, S a → S b → f a = f b → a = b
  closed : ∀ a node, S a → h.node? a = some node → ∀ p ∈ node.parents, S p
  parents : ∀ {a}, S a → (h'.node? (f a)).map ClassNode.parents =
    (h.node? a).map fun node => node.parents.map f

namespace Renamed

variable {f : String → String} {S : String → Prop}

theorem mem_map_iff (hRenamed : Renamed f S h h') (hSeen : ∀ a ∈ seen, S a) (hName : S name) :
    f name ∈ seen.map f ↔ name ∈ seen := by
  rw [List.mem_map]
  constructor
  · rintro ⟨a, ha, hEq⟩
    rwa [← hRenamed.injective (hSeen a ha) hName hEq]
  · exact fun hMem => ⟨name, hMem, rfl⟩

theorem parentsOf (hRenamed : Renamed f S h h') (hName : S name) :
    h'.parentsOf (f name) = (h.parentsOf name).map f := by
  rw [ClassHierarchy.parentsOf, hRenamed.parents hName, ClassHierarchy.parentsOf]
  cases h.node? name <;> rfl

/-- The walk under the new names visits the same classes in the same order. -/
theorem walk (hRenamed : Renamed f S h h') (hSeen : ∀ a ∈ seen, S a) (hQueue : ∀ a ∈ queue, S a) :
    h'.walk (seen.map f) (queue.map f) = (h.walk seen queue).map f := by
  induction seen, queue using walk_induction (h := h) with
  | hEnd seen => rw [List.map_nil, walk_nil, walk_nil, List.map_nil]
  | hOld seen name queue hOld ih =>
    obtain ⟨hName, hQueue⟩ := List.forall_mem_cons.1 hQueue
    rw [List.map_cons, walk_seen ((hRenamed.mem_map_iff hSeen hName).2 hOld), walk_seen hOld]
    exact ih hSeen hQueue
  | hNew seen name queue hNew ih =>
    obtain ⟨hName, hQueue⟩ := List.forall_mem_cons.1 hQueue
    -- what waits behind the class is renamed as well
    have hRest := ih (List.forall_mem_cons.2 ⟨hName, hSeen⟩)
      (List.forall_mem_append.2 ⟨hQueue, forall_mem_parentsOf hRenamed.closed hName⟩)
    rw [List.map_append, ← hRenamed.parentsOf hName] at hRest
    rw [List.map_cons, walk_new (mt (hRenamed.mem_map_iff hSeen hName).1 hNew), walk_new hNew]
    exact congrArg (f name :: ·) hRest

/-- The lineage of a renamed class is the renamed lineage. -/
theorem lineage (hRenamed : Renamed f S h h') (hName : S name) :
    h'.lineage (f name) = (h.lineage name).map f :=
  hRenamed.walk (List.forall_mem_nil S) (List.forall_mem_singleton.2 hName)

end Renamed

-- ---------------------------------------------------------------------------
-- Ways up
-- ---------------------------------------------------------------------------

variable {a b c : String} {n : Nat}

/-- A way from the class `c` up to another one that takes `n` edges. -/
inductive Climbs (h : ClassHierarchy) (c : String) : Nat → String → Prop
  | here : Climbs h c 0 c
  | up {n : Nat} {a b : String} : Climbs h c n a → b ∈ h.parentsOf a → Climbs h c (n + 1) b

/-- The number of edges on the shortest way up, if there is a way. -/
noncomputable def distance (h : ClassHierarchy) (c a : String) : Nat := sInf {n | h.Climbs c n a}

theorem Climbs.trans {m : Nat} (hFirst : h.Climbs c m a) (hRest : h.Climbs a n b) :
    h.Climbs c (m + n) b := by
  induction hRest with
  | here => exact hFirst
  | up _ hParent ih => exact .up ih hParent

theorem Climbs.distance_le (hClimb : h.Climbs c n a) : h.distance c a ≤ n := Nat.sInf_le hClimb

theorem Climbs.le_distance {k : Nat} (hClimb : h.Climbs c n a)
    (hNearer : ∀ j < k, ¬ h.Climbs c j a) : k ≤ h.distance c a := by
  have hShortest : h.Climbs c (h.distance c a) a :=
    Nat.sInf_mem (s := {n | h.Climbs c n a}) ⟨n, hClimb⟩
  exact Nat.le_of_not_lt fun hLess => hNearer _ hLess hShortest

-- ---------------------------------------------------------------------------
-- Turns of a walk
-- ---------------------------------------------------------------------------

/-- A walk on its way: the classes that it has visited, in order, and those that wait. -/
structure Walk where
  visited : List String
  waiting : List String
  deriving DecidableEq

namespace Walk

/-- The walk that sets out from `c`. -/
def start (c : String) : Walk := ⟨[], [c]⟩

/-- Takes the class that has waited longest. If it was visited before, nothing else happens. -/
def next (h : ClassHierarchy) (w : Walk) : Walk :=
  match w.waiting with
  | [] => w
  | name :: waiting =>
    if name ∈ w.visited then { w with waiting := waiting }
    else ⟨w.visited ++ [name], waiting ++ h.parentsOf name⟩

variable {w : Walk} {visited waiting near far : List String}

theorem next_of_mem (hSeen : name ∈ visited) :
    next h ⟨visited, name :: waiting⟩ = ⟨visited, waiting⟩ := if_pos hSeen

theorem next_of_not_mem (hNew : name ∉ visited) :
    next h ⟨visited, name :: waiting⟩ = ⟨visited ++ [name], waiting ++ h.parentsOf name⟩ :=
  if_neg hNew

/-- **The walk ends.** It takes one turn for each class that waits and one for each edge that leaves a
class which is still to be visited. -/
theorem iterate_next (seen waiting : List String) :
    (next h)^[waiting.length + ((h.walk seen waiting).flatMap h.parentsOf).length]
      ⟨seen.reverse, waiting⟩ = ⟨seen.reverse ++ h.walk seen waiting, []⟩ := by
  induction seen, waiting using walk_induction (h := h) with
  | hEnd seen =>
    rw [walk_nil, List.append_nil]
    rfl
  | hOld seen name waiting hSeen ih =>
    rw [walk_seen hSeen, List.length_cons, Nat.succ_add, Function.iterate_succ_apply,
      next_of_mem (List.mem_reverse.2 hSeen)]
    exact ih
  | hNew seen name waiting hNew ih =>
    have hWalk : h.walk seen (name :: waiting) =
        name :: h.walk (name :: seen) (waiting ++ h.parentsOf name) := walk_new hNew
    rw [List.reverse_cons, List.length_append, Nat.add_assoc, List.append_assoc,
      List.singleton_append] at ih
    rw [hWalk, List.length_cons, List.flatMap_cons, List.length_append, Nat.succ_add,
      Function.iterate_succ_apply, next_of_not_mem (mt List.mem_reverse.1 hNew)]
    exact ih

-- ---------------------------------------------------------------------------
-- What has waited
-- ---------------------------------------------------------------------------

/-- The classes of `done` have waited and do so no longer. With those that still wait they are `c` and
the parents of the visited classes, in order, and the visited classes are they without repetitions. -/
structure Logged (h : ClassHierarchy) (c : String) (done : List String) (w : Walk) : Prop where
  log : done ++ w.waiting = c :: w.visited.flatMap h.parentsOf
  visited : w.visited = done.eraseDups
  nodup : w.visited.Nodup

theorem Logged.start (c : String) : Logged h c [] (start c) := ⟨rfl, rfl, List.nodup_nil⟩

theorem Logged.next {done : List String} (hLog : Logged h c done w) :
    ∃ done, Logged h c done (next h w) := by
  obtain ⟨visited, waiting⟩ := w
  obtain ⟨hAll, hVisited, hNodup⟩ := hLog
  dsimp only at hAll hVisited hNodup
  cases waiting with
  | nil => exact ⟨done, hAll, hVisited, hNodup⟩
  | cons name waiting =>
    have hMem : name ∈ visited ↔ name ∈ done := by rw [hVisited, List.mem_eraseDups]
    refine ⟨done ++ [name], ?_⟩
    by_cases hSeen : name ∈ visited
    · rw [next_of_mem hSeen]
      refine ⟨?_, ?_, hNodup⟩
      · rwa [List.append_assoc, List.singleton_append]
      · have hOld : [name].removeAll done = [] := by simpa [List.removeAll] using hMem.1 hSeen
        rw [List.eraseDups_append, hOld, List.eraseDups_nil, List.append_nil]
        exact hVisited
    · rw [next_of_not_mem hSeen]
      refine ⟨?_, ?_, List.concat_eq_append ▸ hNodup.concat hSeen⟩
      · rw [List.flatMap_append, ← List.cons_append, ← hAll]
        simp
      · have hNew : [name].removeAll done = [name] := by
          simpa [List.removeAll] using mt hMem.2 hSeen
        rw [List.eraseDups_append, hNew, ← hVisited]
        rfl

-- ---------------------------------------------------------------------------
-- Levels
-- ---------------------------------------------------------------------------

/-- What waits are the classes `near`, `n` edges above `c`, and behind them the classes `far`, one edge
above those. No class that can be reached with fewer edges is missing among the visited ones. -/
structure Layered (h : ClassHierarchy) (c : String) (n : Nat) (near far : List String) (w : Walk) :
    Prop where
  waiting : w.waiting = near ++ far
  onLevel : ∀ a ∈ near, h.Climbs c n a
  above : ∀ a ∈ far, h.Climbs c (n + 1) a
  reached : ∀ a ∈ w.visited, ∃ k ≤ n, h.Climbs c k a
  nearer : ∀ k < n, ∀ a, h.Climbs c k a → a ∈ w.visited
  level : ∀ a, h.Climbs c n a → a ∈ w.visited ∨ a ∈ near
  parents : ∀ a ∈ w.visited, ∀ b ∈ h.parentsOf a, b ∈ w.visited ∨ b ∈ near ++ far
  ordered : w.visited.Pairwise fun a b => h.distance c a ≤ h.distance c b

theorem Layered.start (c : String) : Layered h c 0 [c] [] (start c) where
  waiting := rfl
  onLevel := List.forall_mem_singleton.2 .here
  above := List.forall_mem_nil _
  reached := List.forall_mem_nil _
  nearer _ hk := absurd hk (Nat.not_lt_zero _)
  level _ hClimb := by
    cases hClimb
    exact .inr List.mem_cons_self
  parents := List.forall_mem_nil _
  ordered := .nil

/-- When a level is done, the next one has waited for its turn and is complete. -/
theorem Layered.rise (hLayers : Layered h c n [] far w) : Layered h c (n + 1) far [] w where
  waiting := by
    rw [hLayers.waiting, List.nil_append, List.append_nil]
  onLevel := hLayers.above
  above := List.forall_mem_nil _
  reached a ha := by
    obtain ⟨k, hk, hClimb⟩ := hLayers.reached a ha
    exact ⟨k, Nat.le_succ_of_le hk, hClimb⟩
  nearer k hk a hClimb := by
    rcases Nat.lt_or_eq_of_le (Nat.le_of_lt_succ hk) with hLess | rfl
    · exact hLayers.nearer k hLess a hClimb
    · exact (hLayers.level a hClimb).resolve_right List.not_mem_nil
  level b hClimb := by
    cases hClimb with
    | up hBelow hParent =>
      have hVisited := (hLayers.level _ hBelow).resolve_right List.not_mem_nil
      exact hLayers.parents _ hVisited b hParent
  parents a ha b hb := by
    rw [List.append_nil]
    exact hLayers.parents a ha b hb
  ordered := hLayers.ordered

/-- A class that is dropped was visited, so nothing is lost. -/
theorem Layered.drop (hLayers : Layered h c n (name :: near) far ⟨visited, name :: near ++ far⟩)
    (hSeen : name ∈ visited) : Layered h c n near far ⟨visited, near ++ far⟩ where
  waiting := rfl
  onLevel := (List.forall_mem_cons.1 hLayers.onLevel).2
  above := hLayers.above
  reached := hLayers.reached
  nearer := hLayers.nearer
  level a hClimb := by
    rcases hLayers.level a hClimb with hOld | hNear
    · exact .inl hOld
    · exact (List.mem_cons.1 hNear).imp (fun hEq : a = name => hEq ▸ hSeen) id
  parents a ha b hb := by
    rcases hLayers.parents a ha b hb with hOld | hWaits
    · exact .inl hOld
    · exact (List.mem_cons.1 hWaits).imp (fun hEq : b = name => hEq ▸ hSeen) id
  ordered := hLayers.ordered

/-- A class that is visited now is on the level that is being visited, and its parents are on the next
one. -/
theorem Layered.visit (hLayers : Layered h c n (name :: near) far ⟨visited, name :: near ++ far⟩)
    (hNew : name ∉ visited) : Layered h c n near (far ++ h.parentsOf name)
      ⟨visited ++ [name], near ++ far ++ h.parentsOf name⟩ := by
  have hName : h.Climbs c n name := hLayers.onLevel name List.mem_cons_self
  have hFar : ∀ k < n, ¬ h.Climbs c k name := fun k hk hClimb => hNew (hLayers.nearer k hk _ hClimb)
  refine ⟨List.append_assoc .., (List.forall_mem_cons.1 hLayers.onLevel).2, ?_, ?_, ?_, ?_, ?_, ?_⟩
  · exact List.forall_mem_append.2 ⟨hLayers.above, fun b hb => hName.up hb⟩
  · exact List.forall_mem_append.2
      ⟨hLayers.reached, List.forall_mem_singleton.2 ⟨n, Nat.le_refl n, hName⟩⟩
  · exact fun k hk a hClimb => List.mem_append_left _ (hLayers.nearer k hk a hClimb)
  · intro a hClimb
    rw [List.mem_append, List.mem_singleton, or_assoc, ← List.mem_cons]
    exact hLayers.level a hClimb
  · intro a ha b hb
    rw [List.mem_append, List.mem_singleton, or_assoc, ← List.append_assoc]
    rcases List.mem_append.1 ha with ha | ha
    · refine (hLayers.parents a ha b hb).imp id fun hWaits => ?_
      rw [List.mem_append, ← or_assoc, ← List.mem_cons]
      exact .inl hWaits
    · rw [List.mem_singleton.1 ha] at hb
      exact .inr (.inr (List.mem_append_right _ hb))
  · refine List.pairwise_append.2 ⟨hLayers.ordered, List.pairwise_singleton .., ?_⟩
    intro a ha b hb
    obtain ⟨k, hk, hClimb⟩ := hLayers.reached a ha
    rw [List.mem_singleton.1 hb]
    exact (hClimb.distance_le.trans hk).trans (hName.le_distance hFar)

theorem Layered.next_of_near (hLayers : Layered h c n (name :: near) far w) :
    ∃ near' far', Layered h c n near' far' (Walk.next h w) := by
  obtain ⟨visited, waiting⟩ := w
  obtain rfl : waiting = name :: near ++ far := hLayers.waiting
  rw [List.cons_append]
  by_cases hSeen : name ∈ visited
  · rw [next_of_mem hSeen]
    exact ⟨_, _, hLayers.drop hSeen⟩
  · rw [next_of_not_mem hSeen]
    exact ⟨_, _, hLayers.visit hSeen⟩

/-- **A turn keeps the levels apart.** -/
theorem Layered.next (hLayers : Layered h c n near far w) :
    ∃ n near far, Layered h c n near far (Walk.next h w) := by
  cases near with
  | cons name near => exact ⟨n, hLayers.next_of_near⟩
  | nil =>
    cases far with
    | cons name far => exact ⟨n + 1, hLayers.rise.next_of_near⟩
    | nil =>
      obtain ⟨visited, waiting⟩ := w
      obtain rfl : waiting = [] := hLayers.waiting
      exact ⟨n, [], [], hLayers⟩

end Walk

-- ---------------------------------------------------------------------------
-- Whole lineages
-- ---------------------------------------------------------------------------

/-- The parents of the class `name` that come up with it for the first time, when the classes `before`
have been visited: its superclass, and its interfaces in the order in which they are declared. -/
def discoveries (h : ClassHierarchy) (c : String) (before : List String) (node : ClassNode) :
    List String :=
  ((node.superName.toList ++ node.interfaces).filter fun p =>
    p ≠ c ∧ ∀ a ∈ before, p ∉ h.parentsOf a).eraseDups

/-- A list holds the class `c` and all that is above it, as a walk level by level comes upon it. -/
structure BreadthFirst (h : ClassHierarchy) (c : String) (order : List String) : Prop where
  /-- The walk takes a number of turns that is known, and then nothing waits any longer. -/
  ends : (Walk.next h)^[1 + (order.flatMap h.parentsOf).length] (.start c) = ⟨order, []⟩
  first : order.head? = some c
  nodup : order.Nodup
  /-- It holds the classes that can be reached, also those of which nothing is known. -/
  complete : ∀ a, a ∈ order ↔ ∃ n, h.Climbs c n a
  ordered : order.Pairwise fun a b => h.distance c a ≤ h.distance c b
  /-- What a class discovers stands together, its superclass before its interfaces. -/
  together : ∀ before name after node, order = before ++ name :: after →
    h.node? name = some node → h.discoveries c before node <:+: order
  /-- Every other class is discovered by a class of the list. -/
  discovered : ∀ a ∈ order, a ≠ c → ∃ before name after node, order = before ++ name :: after ∧
    h.node? name = some node ∧ a ∈ h.discoveries c before node
  /-- The lineage of a class of the list adds nothing to it. -/
  closed : ∀ a ∈ order, h.lineage a ⊆ order

theorem iterate_start (h : ClassHierarchy) (c : String) :
    (Walk.next h)^[1 + ((h.lineage c).flatMap h.parentsOf).length] (.start c) =
      ⟨h.lineage c, []⟩ :=
  Walk.iterate_next [] [c]

/-- The classes of a lineage are the first class and their own parents, without repetitions. -/
theorem logged_lineage (h : ClassHierarchy) (c : String) :
    Walk.Logged h c (c :: (h.lineage c).flatMap h.parentsOf) ⟨h.lineage c, []⟩ := by
  have hRun : ∃ done, Walk.Logged h c done ⟨h.lineage c, []⟩ := by
    rw [← iterate_start]
    exact Function.Iterate.rec (fun w => ∃ done, Walk.Logged h c done w) ⟨[], .start c⟩
      (fun _ ⟨_, hLog⟩ => hLog.next) _
  obtain ⟨done, hLog⟩ := hRun
  have hDone : done = c :: (h.lineage c).flatMap h.parentsOf := by
    rw [← hLog.log, List.append_nil]
  exact hDone ▸ hLog

/-- At the end of a walk all levels are done. -/
theorem layered_lineage (h : ClassHierarchy) (c : String) :
    ∃ n, Walk.Layered h c n [] [] ⟨h.lineage c, []⟩ := by
  have hRun : ∃ n near far, Walk.Layered h c n near far ⟨h.lineage c, []⟩ := by
    rw [← iterate_start]
    exact Function.Iterate.rec (fun w => ∃ n near far, Walk.Layered h c n near far w)
      ⟨0, [c], [], .start c⟩ (fun _ ⟨_, _, _, hLayers⟩ => hLayers.next) _
  obtain ⟨n, near, far, hLayers⟩ := hRun
  obtain ⟨rfl, rfl⟩ := List.append_eq_nil_iff.1 hLayers.waiting.symm
  exact ⟨n, hLayers⟩

/-- A lineage holds the classes that can be reached. -/
theorem mem_lineage : a ∈ h.lineage c ↔ ∃ n, h.Climbs c n a := by
  obtain ⟨n, hLayers⟩ := h.layered_lineage c
  constructor
  · intro ha
    obtain ⟨k, -, hClimb⟩ := hLayers.reached a ha
    exact ⟨k, hClimb⟩
  · rintro ⟨k, hClimb⟩
    induction hClimb with
    | here => exact mem_lineage_self
    | up _ hParent ih => exact (hLayers.parents _ ih _ hParent).resolve_right List.not_mem_nil

theorem lineage_subset (ha : a ∈ h.lineage c) : h.lineage a ⊆ h.lineage c := by
  intro b hb
  obtain ⟨m, hFirst⟩ := mem_lineage.1 ha
  obtain ⟨n, hRest⟩ := mem_lineage.1 hb
  exact mem_lineage.2 ⟨m + n, hFirst.trans hRest⟩

theorem discoveries_infix {before after : List String} {node : ClassNode}
    (hSplit : h.lineage c = before ++ name :: after) (hNode : h.node? name = some node) :
    h.discoveries c before node <:+: h.lineage c := by
  have hLog := (h.logged_lineage c).visited
  -- all that waited: what came up before the class, its parents, what came up after it
  have hParts : c :: (h.lineage c).flatMap h.parentsOf =
      (c :: before.flatMap h.parentsOf) ++ h.parentsOf name ++ after.flatMap h.parentsOf := by
    rw [hSplit, List.flatMap_append, List.flatMap_cons, List.cons_append, List.cons_append,
      List.append_assoc]
  have hNew : (h.parentsOf name).removeAll (c :: before.flatMap h.parentsOf) =
      (node.superName.toList ++ node.interfaces).filter fun p =>
        p ≠ c ∧ ∀ a ∈ before, p ∉ h.parentsOf a := by
    rw [parentsOf_of_node? hNode, List.removeAll]
    refine List.filter_congr fun p _ => ?_
    rw [Bool.eq_iff_iff]
    simp
  dsimp only at hLog
  rw [hParts, List.eraseDups_append, List.eraseDups_append, hNew] at hLog
  exact ⟨_, _, hLog.symm⟩

theorem exists_discoverer (ha : a ∈ h.lineage c) (hOther : a ≠ c) :
    ∃ before name after node, h.lineage c = before ++ name :: after ∧
      h.node? name = some node ∧ a ∈ h.discoveries c before node := by
  have hLog : a ∈ c :: (h.lineage c).flatMap h.parentsOf := by
    rw [← List.mem_eraseDups, ← (h.logged_lineage c).visited]
    exact ha
  obtain ⟨heir, hHeir, hParent⟩ := List.mem_flatMap.1 ((List.mem_cons.1 hLog).resolve_left hOther)
  -- the first class of the lineage that has `a` among its parents
  obtain ⟨name, hFind⟩ := Option.isSome_iff_exists.1 (List.find?_isSome
    (p := fun name => decide (a ∈ h.parentsOf name)).2 ⟨heir, hHeir, decide_eq_true hParent⟩)
  obtain ⟨hName, before, after, hSplit, hBefore⟩ := List.find?_eq_some_iff_append.1 hFind
  rw [decide_eq_true_eq] at hName
  obtain ⟨node, hNode, hName⟩ := mem_parentsOf.1 hName
  refine ⟨before, name, after, node, hSplit, hNode, ?_⟩
  rw [discoveries, List.mem_eraseDups, List.mem_filter]
  exact ⟨hName, by simpa [hOther] using hBefore⟩

/-- **A lineage is a complete breadth-first walk**, whether the hierarchy has cycles or not. -/
theorem lineage_breadthFirst (h : ClassHierarchy) (c : String) :
    h.BreadthFirst c (h.lineage c) where
  ends := h.iterate_start c
  first := by
    obtain ⟨above, hEq⟩ := h.lineage_eq_cons c
    rw [hEq, List.head?_cons]
  nodup := (h.logged_lineage c).nodup
  complete _ := mem_lineage
  ordered := by
    obtain ⟨n, hLayers⟩ := h.layered_lineage c
    exact hLayers.ordered
  together _ _ _ _ := discoveries_infix
  discovered _ := exists_discoverer
  closed _ := lineage_subset

/-- Two classes that inherit from each other, and an interface that both name. -/
example : (Walk.next ⟨.ofList [("b", ⟨some "a", ["i"], [], [], []⟩),
    ("a", ⟨some "b", ["j", "i"], [], [], []⟩)]⟩)^[6] (.start "b") = ⟨["b", "a", "i", "j"], []⟩ := by
  decide

end Jarsmith.ClassHierarchy
