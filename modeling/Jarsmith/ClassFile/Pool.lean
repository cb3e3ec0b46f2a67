import Std.Data.HashMap
import Jarsmith.ClassFile.Fault

/-!
# Constant pools

A pool that can be edited while every index handed out stays valid: entries are appended or replaced
by one of the same width, and a text is never replaced.

Equal texts, class references and name-and-type pairs are found again through three lookup tables. A
table keeps the first index that it learns for a value; replacing the entry at that index makes the
table forget the old value, even if another entry still holds it.

An edit is a computation in `Pool.Edit`, which keeps what was done before a fault.
-/

namespace Jarsmith

/-- A constant pool with its lookup tables. Slot 0 is never usable. -/
structure Pool where
  entries : Array Constant
  utf8s : Std.HashMap Bytes UInt16
  classes : Std.HashMap UInt16 UInt16
  nameAndTypes : Std.HashMap (UInt16 × UInt16) UInt16

namespace Pool

/-- The pool without constants. -/
def empty : Pool := ⟨#[.unusable], ∅, ∅, ∅⟩

instance : Inhabited Pool := ⟨empty⟩

/-- The number of slots, slot 0 included. -/
def size (pool : Pool) : Nat := pool.entries.size

/-- Teaches the lookup tables what stands at `index`, unless they know the value already. -/
def learn (pool : Pool) (index : UInt16) : Constant → Pool
  | .utf8 raw => { pool with utf8s := pool.utf8s.insertIfNew raw index }
  | .classRef name => { pool with classes := pool.classes.insertIfNew name index }
  | .nameAndType name descriptor =>
    { pool with nameAndTypes := pool.nameAndTypes.insertIfNew (name, descriptor) index }
  | _ => pool

/-- Makes the lookup tables forget what stands at `index`, if they lead there. -/
def forget (pool : Pool) (index : UInt16) : Constant → Pool
  | .classRef name =>
    if pool.classes[name]? = some index then { pool with classes := pool.classes.erase name }
    else pool
  | .nameAndType name descriptor =>
    if pool.nameAndTypes[(name, descriptor)]? = some index then
      { pool with nameAndTypes := pool.nameAndTypes.erase (name, descriptor) }
    else pool
  | _ => pool

/-- The slots that a constant takes. -/
def slotsOf (constant : Constant) : List Constant :=
  if constant.isWide then [constant, .unusable] else [constant]

/-- Appends a constant; its index is the number of slots before. -/
def append (pool : Pool) (constant : Constant) : Pool :=
  let pool := pool.learn (UInt16.ofNat pool.size) constant
  if constant.isWide then
    { pool with entries := (pool.entries.push constant).push .unusable }
  else { pool with entries := pool.entries.push constant }

/-- The pool that holds `constants` in their order. -/
def ofConstants (constants : List Constant) : Pool := constants.foldl append empty

-- ---------------------------------------------------------------------------
-- Reading entries
-- ---------------------------------------------------------------------------

/-- The constant at `index`, if the slot can be used. -/
def find? (pool : Pool) (index : UInt16) : Option Constant :=
  match pool.entries[index.toNat]? with
  | none | some .unusable => none
  | some constant => some constant

/-- The constant at `index`. -/
def get (pool : Pool) (index : UInt16) : ClassResult Constant :=
  match pool.find? index with
  | some constant => .ok constant
  | none => .error (.noConstant index)

/-- The usable slots, in order. -/
def indices (pool : Pool) : List UInt16 :=
  ((List.range pool.size).map UInt16.ofNat).filter fun index => (pool.find? index).isSome

/-- The text that modified UTF-8 encodes. -/
def decodeText (raw : Bytes) : ClassResult String :=
  (ModifiedUtf8.textOf raw).mapError .unpairedSurrogate

/-- The text at `index`. -/
def text (pool : Pool) (index : UInt16) : ClassResult String := do
  match ← pool.get index with
  | .utf8 raw => decodeText raw
  | other => throw (.notUtf8 index other)

/-- The name of the class at `index`. -/
def className (pool : Pool) (index : UInt16) : ClassResult String := do
  match ← pool.get index with
  | .classRef name => pool.text name
  | other => throw (.notClass index other)

/-- The name and the descriptor at `index`. -/
def nameAndType (pool : Pool) (index : UInt16) : ClassResult (String × String) := do
  match ← pool.get index with
  | .nameAndType name descriptor => pure (← pool.text name, ← pool.text descriptor)
  | other => throw (.notNameAndType index other)

/-- A field or method as a constant refers to it. -/
structure MemberRef where
  owner : String
  name : String
  descriptor : String
  deriving DecidableEq, Repr

/-- The member at `index`. -/
def memberRef (pool : Pool) (index : UInt16) : ClassResult MemberRef := do
  match ← pool.get index with
  | .fieldRef owner nat | .methodRef owner nat | .interfaceMethodRef owner nat =>
    let (name, descriptor) ← pool.nameAndType nat
    pure ⟨← pool.className owner, name, descriptor⟩
  | other => throw (.notMember index other)

/-- The bytes of the text at `index`, for a reader that takes any other slot for a broken file. -/
def rawText (pool : Pool) (index : UInt16) : ClassResult Bytes :=
  match pool.find? index with
  | some (.utf8 raw) => .ok raw
  | _ => .error .undecodable

/-- The text at `index`, for a reader that takes any other slot for a broken file. -/
def storedText (pool : Pool) (index : UInt16) : ClassResult String := do
  decodeText (← pool.rawText index)

/-- The name of the class at `index`, for a reader that takes any other slot for a broken file. -/
def storedClassName (pool : Pool) (index : UInt16) : ClassResult String :=
  match pool.find? index with
  | some (.classRef name) => pool.storedText name
  | _ => .error .undecodable

-- ---------------------------------------------------------------------------
-- Editing
-- ---------------------------------------------------------------------------

/-- An edit of a pool; what was done before a fault stays done. -/
abbrev Edit := ExceptT ClassFault (StateM Pool)

/-- Looks at the pool as it is now. -/
def reading {α : Type} (f : Pool → ClassResult α) : Edit α := do
  match f (← getThe Pool) with
  | .ok value => pure value
  | .error fault => throw fault

/-- The greatest number of slots. -/
def maxSize : Nat := 65535

/-- Appends a constant and gives its index, if the pool has room for it. -/
def add (constant : Constant) : Edit UInt16 := do
  let size := (← getThe Pool).size
  if size + (slotsOf constant).length ≤ maxSize then
    modify (·.append constant)
    pure (UInt16.ofNat size)
  else throw .poolOverflow

/-- Puts `constant` in the place of the one at `index`, which must be no text and of the same
width. -/
def replaceAt (index : UInt16) (constant : Constant) : Edit Unit := do
  let existing ← reading (Pool.get · index)
  let isText := match existing with
    | .utf8 _ => true
    | _ => false
  if isText || existing.isWide != constant.isWide then
    throw (.irreplaceable index constant)
  modify fun pool =>
    let pool := (pool.forget index existing).learn index constant
    { pool with entries := pool.entries.setIfInBounds index.toNat constant }

/-- The index of a text, which is appended if the pool does not know it. -/
def internText (text : String) : Edit UInt16 := do
  let raw := ModifiedUtf8.encode text
  match (← getThe Pool).utf8s[raw]? with
  | some index => pure index
  | none =>
    let _ ← (count16 raw.length "bytes in a Utf8 constant" : ClassResult UInt16)
    add (.utf8 raw)

/-- The index of a class. -/
def internClass (name : String) : Edit UInt16 := do
  let name ← internText name
  match (← getThe Pool).classes[name]? with
  | some index => pure index
  | none => add (.classRef name)

/-- The index of a name and a descriptor. -/
def internNameAndType (name descriptor : String) : Edit UInt16 := do
  let name ← internText name
  let descriptor ← internText descriptor
  match (← getThe Pool).nameAndTypes[(name, descriptor)]? with
  | some index => pure index
  | none => add (.nameAndType name descriptor)

/-- The index of `text`: `index` itself if the text stands there. -/
def repoint (index : UInt16) (text : String) : Edit UInt16 := do
  if (← reading (Pool.text · index)) = text then pure index else internText text

end Pool

end Jarsmith
