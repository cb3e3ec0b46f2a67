import Jarsmith.AccessWidener.Basic
import Jarsmith.ClassFile.Basic
import Jarsmith.ClassFile.Structure

/-!
# Widening classes

How the rules of a widener change the access flags of a class, of its members and of the rows that
list nested classes.
-/

namespace Jarsmith

namespace AccessFlags

/-- The flags of a class after a rule. -/
def widenedClass (flags : AccessFlags) (rule : Access) : AccessFlags :=
  let flags := if rule.accessible || rule.extendable then flags.seenAs publicBit else flags
  if rule.extendable then flags.without finalBit else flags

/-- The flags of a method after a rule. A private method that becomes visible must not take part in
overriding, so it becomes final, unless it is static or a constructor or is to be overridden. -/
def widenedMethod (flags : AccessFlags) (isConstructor : Bool) (rule : Access) : AccessFlags :=
  let sealed := flags.has privateBit && !flags.has staticBit && !isConstructor
  let seen :=
    if rule.accessible then
      let seen := flags.seenAs publicBit
      if sealed then seen.adding finalBit else seen
    else flags
  if rule.extendable then
    (if seen.has publicBit then seen else seen.seenAs protectedBit).without finalBit
  else seen

/-- The flags of a field after a rule. -/
def widenedField (flags : AccessFlags) (rule : Access) : AccessFlags :=
  let flags := if rule.accessible then flags.seenAs publicBit else flags
  if rule.mutable then flags.without finalBit else flags

end AccessFlags

namespace AccessWidener

/-- The members after the rules that `rule?` finds by name and descriptor. -/
def widenMembers (pool : Pool) (rule? : String → String → Option Access)
    (change : AccessFlags → String → Access → AccessFlags) (members : List Member) :
    ClassResult (List Member) :=
  members.mapM fun m => do
    let name ← pool.storedText m.name
    let descriptor ← pool.storedText m.descriptor
    match rule? name descriptor with
    | some rule => pure { m with access := change m.access name rule }
    | none => pure m

/-- The rows of nested classes after the rules. -/
def widenRows (w : AccessWidener) (pool : Pool) (rows : List InnerClass) :
    ClassResult (List InnerClass) :=
  rows.mapM fun row => do
    match w.class? (← pool.className row.inner) with
    | some rule => pure { row with access := row.access.widenedClass rule }
    | none => pure row

/-- The attributes of a class after the rules; only the first list of nested classes counts. -/
def widenNested (w : AccessWidener) (pool : Pool) (attributes : List Attribute) :
    ClassResult (List Attribute) := do
  match ← pool.attribute? attributes AttributeName.innerClasses with
  | none => pure attributes
  | some (place, a) =>
    let rows ← InnerClass.table a.info
    let widened ← w.widenRows pool rows
    if widened = rows then pure attributes
    else pure (setBody attributes place (← InnerClass.tableToBytes widened))

/-- A class after the rules. -/
def apply (w : AccessWidener) (c : ClassFile) : ClassResult ClassFile := do
  let name ← c.name
  let access := match w.class? name with
    | some rule => c.access.widenedClass rule
    | none => c.access
  let methods ← widenMembers c.pool (w.method? name)
    (fun flags method rule => flags.widenedMethod (method == "<init>") rule) c.methods
  let fields ← widenMembers c.pool (w.field? name)
    (fun flags _ rule => flags.widenedField rule) c.fields
  let attributes ← w.widenNested c.pool c.attributes
  pure { c with access := access, methods := methods, fields := fields, attributes := attributes }

/-- Whether two states of a class differ in what a widener can change. -/
def changed (before after : ClassFile) : Bool :=
  before.access != after.access || before.methods != after.methods
    || before.fields != after.fields || before.attributes != after.attributes

end AccessWidener

end Jarsmith
