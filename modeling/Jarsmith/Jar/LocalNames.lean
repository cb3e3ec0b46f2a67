import Jarsmith.ClassFile.Basic
import Jarsmith.ClassFile.Code
import Jarsmith.ClassFile.Structure
import Jarsmith.Text.Letters

/-!
# Names of local variables

Obfuscated classes carry names of local variables that no source file can contain. Such names are
replaced by `this`, `param` and `var` with a number; names that are identifiers stay.

* `NameScope.unique` never gives out a name twice.
* `ClassFile.fixLocalNames` fixes every method of a class.
-/

namespace Jarsmith

/-- Whether a name can stand in a source file. -/
def isIdentifier (name : String) : Bool :=
  let isMark (c : Char) : Bool := c == '_' || c == '$'
  match name.toList with
  | [] => false
  | c :: rest =>
    (Text.isAlphabetic c || isMark c) && rest.all fun c => Text.isAlphanumeric c || isMark c

/-- The names that are given out in one method. -/
structure NameScope where
  taken : List String
  isStatic : Bool
  /-- The slots in which the parameters start, and the first slot behind them. -/
  slots : List UInt16
  stop : UInt16
  nextLocal : Nat

namespace NameScope

/-- The scope of a method in which the names `existing` occur. -/
def new (descriptor : String) (isStatic : Bool) (existing : List String) : NameScope :=
  let (slots, stop) := match Descriptor.layout descriptor isStatic with
    | .ok layout => layout
    | .error _ => ([], if isStatic then 0 else 1)
  ⟨existing.filter isIdentifier, isStatic, slots, stop, 0⟩

/-- The name with `n` letters behind it that make it differ from others. -/
def padded (name : String) (n : Nat) : String := name ++ String.ofList (List.replicate n 'x')

/-- Gives out `name`, with as many letters behind it as it takes to be new. -/
def unique (name : String) : StateM NameScope String := do
  let scope ← get
  let candidates := (List.range (scope.taken.length + 1)).map (padded name)
  let found := (candidates.find? fun n => !scope.taken.contains n).getD name
  set { scope with taken := found :: scope.taken }
  pure found

/-- The number of the last parameter that starts in `slot` or before it. -/
def parameterAt (scope : NameScope) (slot : UInt16) : Nat :=
  let numbered := scope.slots.zip (List.range scope.slots.length)
  ((numbered.reverse.find? fun (start, _) => start ≤ slot).map (·.2)).getD 0

/-- A name for the local variable in `slot`. -/
def nameForSlot (slot : UInt16) : StateM NameScope String := do
  let scope ← get
  if slot = 0 ∧ !scope.isStatic then pure "this"
  else if slot < scope.stop then unique s!"param{scope.parameterAt slot}"
  else do
    set { scope with nextLocal := scope.nextLocal + 1 }
    unique s!"var{scope.nextLocal}"

/-- A name for the parameter at the given place. -/
def nameForParameter (place : Nat) : StateM NameScope String := unique s!"param{place}"

end NameScope

namespace LocalNames

/-- A step that edits the pool and gives out names. -/
abbrev Fix := StateT NameScope Pool.Edit

/-- The index of a new name. -/
def fresh (name : StateM NameScope String) : Fix UInt16 := do
  let (text, scope) := name.run (← get)
  set scope
  Pool.internText text

/-- Whether the text at `index` can stay a name. -/
def isFine (index : UInt16) : Fix Bool := do
  pure (isIdentifier (← Pool.reading (Pool.text · index)))

/-- The new names of local variables by slot and first instruction. -/
abbrev Renamed := List ((UInt16 × UInt16) × UInt16)

/-- Replaces the names of local variables that cannot stay. -/
def fixRows : List LocalVariable → Fix (List LocalVariable × Renamed)
  | [] => pure ([], [])
  | v :: more => do
    if ← isFine v.name then
      let (more, renamed) ← fixRows more
      pure (v :: more, renamed)
    else
      let name ← fresh (NameScope.nameForSlot v.slot)
      let (more, renamed) ← fixRows more
      pure ({ v with name := name } :: more, ((v.slot, v.start), name) :: renamed)

/-- Replaces the name of the parameter at the given place if it cannot stay, and tells whether it was
replaced. -/
def fixParameter (place : Nat) (p : MethodParameter) : Fix (MethodParameter × Bool) := do
  let some name := p.name | return (p, false)
  if ← isFine name then pure (p, false)
  else pure ({ p with name := some (← fresh (NameScope.nameForParameter place)) }, true)

/-- Replaces the names of parameters that cannot stay, and tells whether there were any; the first
parameter has the given place. -/
def fixParameters (place : Nat) : List MethodParameter → Fix (List MethodParameter × Bool)
  | [] => pure ([], false)
  | p :: more => do
    let (p, first) ← fixParameter place p
    let (more, others) ← fixParameters (place + 1) more
    pure (p :: more, first || others)

/-- The rows of a type table with the new names of their local variables. -/
def followRows (renamed : Renamed) (rows : List LocalVariable) : List LocalVariable :=
  rows.map fun v => { v with name := (renamed.lookup (v.slot, v.start)).getD v.name }

/-- The rows that an attribute holds, if it is there. -/
def rowsOf (found : Option (Nat × Attribute)) : ClassResult (List LocalVariable) :=
  match found with
  | some (_, a) => LocalVariable.table a.info
  | none => .ok []

/-- The declared parameters that an attribute holds, if it is there. -/
def parametersOf (found : Option (Nat × Attribute)) : ClassResult (List MethodParameter) :=
  match found with
  | some (_, a) => MethodParameter.table a.info
  | none => .ok []

/-- Writes the rows and the names that follow them into the body of a method. -/
def replaceRows (code : Code) (plain types : Option (Nat × Attribute)) (rows : List LocalVariable)
    (renamed : Renamed) : ClassResult Code := do
  let attributes ← match plain with
    | some (place, _) => pure (setBody code.attributes place (← LocalVariable.tableToBytes rows))
    | none => pure code.attributes
  let attributes ← match types with
    | some (place, a) => do
      let rows := followRows renamed (← LocalVariable.table a.info)
      pure (setBody attributes place (← LocalVariable.tableToBytes rows))
    | none => pure attributes
  pure { code with attributes := attributes }

/-- The tables of names that a method has, each with its place: the body of the method, the tables
of local variables in the body, and the declared parameters. -/
structure NameTables where
  code : Option (Nat × Code)
  plain : Option (Nat × Attribute)
  types : Option (Nat × Attribute)
  parameters : Option (Nat × Attribute)

namespace NameTables

/-- Looks for the tables of a method. -/
def find (pool : Pool) (m : Member) : ClassResult NameTables := do
  let code ← pool.attribute? m.attributes AttributeName.code
  let parameters ← pool.attribute? m.attributes AttributeName.methodParameters
  let code ← code.mapM fun (place, a) => do pure (place, ← Code.split a.info)
  let nested := (code.map (·.2.attributes)).getD []
  let plain ← pool.attribute? nested AttributeName.localVariableTable
  let types ← pool.attribute? nested AttributeName.localVariableTypeTable
  pure ⟨code, plain, types, parameters⟩

/-- Writes names into the tables of a method; declared parameters are written only if there are new
ones. -/
def replace (tables : NameTables) (m : Member) (rows : List LocalVariable) (renamed : Renamed)
    (parameters : Option (List MethodParameter)) : ClassResult Member := do
  let attributes ← match tables.code with
    | some (place, code) => do
      let code ← replaceRows code tables.plain tables.types rows renamed
      pure (setBody m.attributes place (← code.toBytes))
    | none => pure m.attributes
  let attributes ← match tables.parameters, parameters with
    | some (place, _), some parameters =>
      pure (setBody attributes place (← MethodParameter.tableToBytes parameters))
    | _, _ => pure attributes
  pure { m with attributes := attributes }

/-- Replaces the names in the tables of a method that cannot stay; the answer is none if all can. -/
def fix (tables : NameTables) (descriptor : String) (m : Member) : Pool.Edit (Option Member) := do
  let rows : List LocalVariable ← liftM (rowsOf tables.plain)
  let parameters : List MethodParameter ← liftM (parametersOf tables.parameters)
  let names := rows.map (·.name) ++ parameters.filterMap (·.name)
  let existing ← names.mapM fun name => Pool.reading (Pool.text · name)
  let scope := NameScope.new descriptor (m.access.has AccessFlags.staticBit) existing
  let ((rows, renamed), scope) ← (fixRows rows).run scope
  let ((parameters, parametersChanged), _) ← (fixParameters 0 parameters).run scope
  if renamed.isEmpty && !parametersChanged then pure none
  else
    let fixed : Member ←
      liftM (tables.replace m rows renamed (if parametersChanged then some parameters else none))
    pure (some fixed)

end NameTables

/-- Fixes a method of a class that has the pool `pool`, if there is something to fix; in that pool the
attributes are looked up, so a constant that was added for an earlier method is never the name of an
attribute. -/
def fixMethod (pool : Pool) (m : Member) : Pool.Edit (Option Member) := do
  let descriptor ← Pool.reading (Pool.text · m.descriptor)
  let tables : NameTables ← liftM (NameTables.find pool m)
  tables.fix descriptor m

end LocalNames

/-- Gives the local variables and parameters of a class names that can stand in a source file; the
answer is none if all of them have such names. -/
def ClassFile.fixLocalNames (c : ClassFile) : Pool.Edit (Option ClassFile) := do
  let fixed ← c.methods.mapM (LocalNames.fixMethod c.pool)
  if fixed.all Option.isNone then pure none
  else pure (some { c with methods := List.zipWith Option.getD fixed c.methods })

end Jarsmith
