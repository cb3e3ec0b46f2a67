import Jarsmith.Error
import Jarsmith.OrderedMap
import Jarsmith.Text.Split

/-!
# Access wideners

Rules that relax who may see, extend or change a class or a member. A text of rules opens with a
header that names the version of the format and the namespace of the names in it.

* `AccessRule.parse` reads one rule; `AccessWidener.add` takes it in.
* `AccessWidener.read` takes in a text and stops at its first faulty line; `AccessWidener.merge`
  takes in the rules of another widener.
-/

namespace Jarsmith

/-- What a rule may do. -/
inductive AccessChange where
  | accessible
  | extendable
  | mutable
  deriving DecidableEq, Repr

/-- The change that a word names. -/
def AccessChange.ofWord? : String → Option AccessChange
  | "accessible" | "widen" => some accessible
  | "extendable" => some extendable
  | "mutable" => some mutable
  | _ => none

/-- All changes to one target. -/
structure Access where
  accessible : Bool
  extendable : Bool
  mutable : Bool
  deriving DecidableEq, Repr

namespace Access

/-- No change. -/
def none : Access := ⟨false, false, false⟩

/-- A single change. -/
def only : AccessChange → Access
  | .accessible => ⟨true, false, false⟩
  | .extendable => ⟨false, true, false⟩
  | .mutable => ⟨false, false, true⟩

/-- The changes of both. -/
def join (a b : Access) : Access :=
  ⟨a.accessible || b.accessible, a.extendable || b.extendable, a.mutable || b.mutable⟩

end Access

/-- A field or a method of a class. -/
structure MemberTarget where
  owner : String
  name : String
  descriptor : String
  deriving DecidableEq, Repr

/-- A rule. Only those exist that mean something: a class or a method is never made mutable, a field
never extendable. -/
inductive AccessRule where
  | onClass (name : String) (change : AccessChange)
  | onMethod (target : MemberTarget) (change : AccessChange)
  | onField (target : MemberTarget) (change : AccessChange)
  deriving DecidableEq, Repr

namespace AccessRule

/-- The versions of the format. -/
inductive Version where
  | v1
  | v2
  deriving DecidableEq, Repr

/-- The change that the first word of a rule names. The word `transitive` in front of it says
nothing about the class at hand. -/
def change (version : Version) (word : String) : Except WidenerFault AccessChange := do
  let word ← match Text.stripPrefix? "transitive-" word with
    | some word => if version = .v1 then throw .transitiveNeedsV2 else pure word
    | none => pure word
  match AccessChange.ofWord? word with
  | some change => pure change
  | none => throw (.unknownChange word)

/-- The rule that a line writes. -/
def parse (version : Version) (line : String) : Except WidenerFault AccessRule := do
  let word :: rest := Text.words line | throw (.malformedRule line)
  let change ← change version word
  match rest with
  | ["class", name] =>
    if change = .mutable then throw .mutableClass
    pure (.onClass name change)
  | ["method", owner, name, descriptor] =>
    if change = .mutable then throw .mutableMethod
    if !Text.startsWith descriptor "(" then throw (.invalidDescriptor descriptor)
    pure (.onMethod ⟨owner, name, descriptor⟩ change)
  | ["field", owner, name, descriptor] =>
    if change = .extendable then throw .extendableField
    pure (.onField ⟨owner, name, descriptor⟩ change)
  | _ => throw (.malformedRule line)

end AccessRule

/-- The rules that were taken in, and the namespace of their names. -/
structure AccessWidener where
  naming : Option String
  classes : OrderedMap String Access
  methods : OrderedMap MemberTarget Access
  fields : OrderedMap MemberTarget Access

namespace AccessWidener

/-- The widener without rules. -/
def empty : AccessWidener := ⟨none, ∅, ∅, ∅⟩

instance : Inhabited AccessWidener := ⟨empty⟩

/-- Whether there is no rule. -/
def isEmpty (w : AccessWidener) : Bool :=
  w.classes.isEmpty && w.methods.isEmpty && w.fields.isEmpty

/-- The changes of a class. -/
def class? (w : AccessWidener) (name : String) : Option Access := w.classes.get? name

/-- Whether a class has a rule, or a member with a rule that needs the class. -/
def targets (w : AccessWidener) (name : String) : Bool := (w.class? name).isSome

/-- The changes of a method. -/
def method? (w : AccessWidener) (owner name descriptor : String) : Option Access :=
  w.methods.get? ⟨owner, name, descriptor⟩

/-- The changes of a field. -/
def field? (w : AccessWidener) (owner name descriptor : String) : Option Access :=
  w.fields.get? ⟨owner, name, descriptor⟩

/-- Joins changes to those of a key. -/
def widen {κ : Type} [DecidableEq κ] (table : OrderedMap κ Access) (key : κ) (access : Access) :
    OrderedMap κ Access :=
  table.update key .none (·.join access)

/-- Takes in changes of a class. -/
def addClass (w : AccessWidener) (name : String) (access : Access) : AccessWidener :=
  { w with classes := widen w.classes name access }

/-- Takes in a rule. A member is out of reach without its class, so its class becomes accessible
with it, or extendable if the member is to be overridden; a field that is only made mutable stays
where it is. -/
def add (w : AccessWidener) : AccessRule → AccessWidener
  | .onClass name change => w.addClass name (.only change)
  | .onMethod target change =>
    let w := { w with methods := widen w.methods target (.only change) }
    w.addClass target.owner (.only (if change = .extendable then .extendable else .accessible))
  | .onField target change =>
    let w := { w with fields := widen w.fields target (.only change) }
    if change = .accessible then w.addClass target.owner (.only .accessible) else w

-- ---------------------------------------------------------------------------
-- Reading
-- ---------------------------------------------------------------------------

/-- The lines that hold more than blanks and a comment, which starts at `#`, trimmed. -/
def contentLines (text : String) : List (Nat × String) :=
  ((Text.numberedLines text).map fun (n, line) =>
      (n, Text.trim (String.ofList (line.toList.takeWhile (· != '#'))))).filter
    fun (_, line) => !line.isEmpty

/-- The version and the namespace that a header names. -/
def header (line : String) : Except WidenerFault (AccessRule.Version × String) :=
  match Text.words line with
  | ["accessWidener", "v1", name] => .ok (.v1, name)
  | ["accessWidener", "v2", name] => .ok (.v2, name)
  | _ => .error (.invalidHeader line)

/-- Takes in a header: its namespace must be the expected one, and the one of the rules so far. -/
def addHeader (w : AccessWidener) (expected : Option String) (line : String) :
    Except WidenerFault (AccessRule.Version × AccessWidener) := do
  let (version, name) ← header line
  match expected with
  | some expected => if expected ≠ name then throw (.unexpectedNamespace name expected)
  | none => pure ()
  match w.naming with
  | some existing => if existing ≠ name then throw (.differentNamespace name existing)
  | none => pure ()
  pure (version, { w with naming := some name })

/-- Takes in rules up to the first faulty line. -/
def addLines (w : AccessWidener) (version : AccessRule.Version) :
    List (Nat × String) → AccessWidener × Result Unit
  | [] => (w, .ok ())
  | (n, line) :: more =>
    match AccessRule.parse version line with
    | .ok rule => (w.add rule).addLines version more
    | .error fault => (w, .error (.accessWidener n fault))

/-- Takes in a text. What stands above a faulty line stays. -/
def read (w : AccessWidener) (text : String) (expected : Option String) :
    AccessWidener × Result Unit :=
  match contentLines text with
  | [] => (w, .error (.accessWidener 1 .empty))
  | (n, first) :: lines =>
    match w.addHeader expected first with
    | .ok (version, w) => w.addLines version lines
    | .error fault => (w, .error (.accessWidener n fault))

/-- The widener that a text writes. -/
def parse (text : String) (expected : Option String) : Result AccessWidener :=
  match empty.read text expected with
  | (w, .ok ()) => .ok w
  | (_, .error e) => .error e

/-- The rules of both; the namespace is that of `w`, if it has one. -/
def merge (w other : AccessWidener) : AccessWidener :=
  let join {κ : Type} [DecidableEq κ] (a b : OrderedMap κ Access) : OrderedMap κ Access :=
    b.entries.foldl (fun a (key, access) => widen a key access) a
  ⟨w.naming.or other.naming, join w.classes other.classes, join w.methods other.methods,
    join w.fields other.fields⟩

end AccessWidener

end Jarsmith
