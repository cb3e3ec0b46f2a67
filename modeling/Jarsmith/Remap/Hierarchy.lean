import Jarsmith.Archive.Entry
import Jarsmith.ClassFile.Basic
import Jarsmith.Error
import Jarsmith.Jar.Entry
import Jarsmith.OrderedMap

/-!
# Class hierarchies

Which classes a class inherits from, and which members it declares, as far as the classes are known.

* `ClassHierarchy.lineage` — a class and everything above it, nearest first.
-/

namespace Jarsmith

/-- The name and the descriptor of a member. -/
structure MemberKey where
  name : String
  descriptor : String
  deriving DecidableEq, Repr

/-- What a hierarchy knows about a class. Private members are not inherited. -/
structure ClassNode where
  superName : Option String
  interfaces : List String
  privateMethods : List MemberKey
  privateFields : List MemberKey
  fields : List MemberKey
  deriving DecidableEq

namespace ClassNode

/-- The classes directly above, the superclass before the interfaces. -/
def parents (node : ClassNode) : List String := node.superName.toList ++ node.interfaces

/-- The name and the descriptor of a member. -/
def memberKey (c : ClassFile) (m : Member) : ClassResult MemberKey := do
  let name ← c.pool.storedText m.name
  let descriptor ← c.pool.storedText m.descriptor
  pure ⟨name, descriptor⟩

/-- What a class file says about its class. -/
def ofClassFile (c : ClassFile) : ClassResult ClassNode := do
  let superName ← c.superClass.mapM c.pool.storedClassName
  let interfaces ← c.interfaces.mapM c.pool.storedClassName
  let isPrivate (m : Member) : Bool := m.access.has AccessFlags.privateBit
  let privateMethods ← (c.methods.filter isPrivate).mapM (memberKey c)
  let fields ← c.fields.mapM fun m => do pure (isPrivate m, ← memberKey c m)
  pure ⟨superName, interfaces, privateMethods, (fields.filter (·.1)).map (·.2),
    fields.map (·.2)⟩

end ClassNode

/-- The known classes by their names. -/
structure ClassHierarchy where
  classes : OrderedMap String ClassNode

namespace ClassHierarchy

/-- The hierarchy without classes. -/
def empty : ClassHierarchy := ⟨∅⟩

instance : Inhabited ClassHierarchy := ⟨empty⟩

/-- The number of classes. -/
def size (h : ClassHierarchy) : Nat := h.classes.size

/-- What is known about a class. -/
def node? (h : ClassHierarchy) (name : String) : Option ClassNode := h.classes.get? name

/-- Takes in the class that bytes hold. -/
def add (h : ClassHierarchy) (bytes : Bytes) : ClassResult ClassHierarchy := do
  let c ← ClassFile.decode bytes
  let node ← ClassNode.ofClassFile c
  let name ← c.pool.storedClassName c.thisClass
  pure ⟨h.classes.insert name node⟩

/-- The classes of a jar. The copies for single releases do not count; `jar` is named in errors. -/
def ofEntries (jar : String) (entries : List ArchiveEntry) : Result ClassHierarchy :=
  (entries.filter fun e => e.kind == .classFile && e.release?.isNone).foldlM
    (fun h e => (h.add e.data).mapError (.malformedClass e.name jar)) empty

/-- The classes of some class files. -/
def ofClassFiles (files : List Bytes) : ClassResult ClassHierarchy := files.foldlM add empty

/-- The known classes that are not among `seen`. -/
def unseen (h : ClassHierarchy) (seen : List String) : List String :=
  h.classes.keys.filter fun name => !seen.contains name

theorem unseen_cons (h : ClassHierarchy) (seen : List String) (name : String) :
    h.unseen (name :: seen) = (h.unseen seen).filter fun x => x != name := by
  simp only [unseen, List.filter_filter]
  refine List.filter_congr fun x _ => ?_
  by_cases hx : x = name <;> simp [hx]

theorem length_unseen_lt {h : ClassHierarchy} {seen : List String} {name : String}
    {node : ClassNode}
    (hn : h.node? name = some node) (hs : seen.contains name = false) :
    (h.unseen (name :: seen)).length < (h.unseen seen).length := by
  have mem : name ∈ h.unseen seen := by
    refine List.mem_filter.2 ⟨?_, by simp only [hs, Bool.not_false]⟩
    refine Decidable.byContradiction fun hk => ?_
    have := OrderedMap.lookup_eq_none hk
    simp [node?, OrderedMap.get?, this] at hn
  rw [unseen_cons]
  exact List.length_filter_lt_length_iff_exists.2 ⟨name, mem, by simp⟩

/-- Goes on from the classes of `queue`, in the order in which they came up; `seen` were visited. -/
def walk (h : ClassHierarchy) (seen : List String) (queue : List String) : List String :=
  match queue with
  | [] => []
  | name :: queue =>
    match _hs : seen.contains name with
    | true => h.walk seen queue
    | false =>
      match _hn : h.node? name with
      | some node => name :: h.walk (name :: seen) (queue ++ node.parents)
      | none => name :: h.walk (name :: seen) queue
termination_by ((h.unseen seen).length, queue.length)
decreasing_by
  · exact Prod.Lex.right _ (by simp)
  · exact Prod.Lex.left _ _ (length_unseen_lt _hn _hs)
  · have le : (h.unseen (name :: seen)).length ≤ (h.unseen seen).length := by
      rw [unseen_cons]
      exact List.length_filter_le _ _
    rcases Nat.lt_or_eq_of_le le with lt | eq
    · exact Prod.Lex.left _ _ lt
    · rw [eq]
      exact Prod.Lex.right _ (by simp)

/-- A class and the classes above it, breadth first: of the classes at one distance, those come
first whose heirs came first, and a superclass comes before interfaces. -/
def lineage (h : ClassHierarchy) (name : String) : List String := h.walk [] [name]

/-- Whether a class keeps the method for itself. -/
def isPrivateMethod (h : ClassHierarchy) (owner : String) (key : MemberKey) : Bool :=
  (h.node? owner).any (·.privateMethods.contains key)

/-- Whether a class keeps the field for itself. -/
def isPrivateField (h : ClassHierarchy) (owner : String) (key : MemberKey) : Bool :=
  (h.node? owner).any (·.privateFields.contains key)

/-- Whether a class itself declares the field. -/
def declaresField (h : ClassHierarchy) (owner : String) (key : MemberKey) : Bool :=
  (h.node? owner).any (·.fields.contains key)

end ClassHierarchy

end Jarsmith
