import Jarsmith.ClassFile.Pool

/-!
# The encoding of constants

Each constant is a tag and its parts. A pool is the number of its slots and the constants of the
slots from 1 on; the slot behind a wide constant is not written. Slot 0 counts too, so the number
is never 0.
-/

namespace Jarsmith

namespace Reader

/-- An index that must lead somewhere. -/
def index : Reader UInt16 := do
  let index ← u16
  if index = 0 then failure else pure index

/-- An index that may be missing. -/
def index? : Reader (Option UInt16) := do
  let index ← u16
  pure (if index = 0 then none else some index)

/-- What `f` makes of the next value; fails when it makes nothing of it. -/
def accept {α β : Type} (f : α → Option β) (r : Reader α) : Reader β := do
  match f (← r) with
  | some value => pure value
  | none => failure

end Reader

/-- The two bytes of an index that may be missing. -/
def putIndex? (index : Option UInt16) : Bytes := putU16 (index.getD 0)

namespace Constant

/-- A text as the pool of a class file holds it. -/
def readUtf8 : Reader Constant := do
  let length ← Reader.u16
  let raw ← Reader.take length.toNat
  if (ModifiedUtf8.units? raw).isSome then pure (.utf8 raw) else failure

/-- The next constant. -/
def read : Reader Constant := do
  match (← Reader.byte).toNat with
  | 1 => readUtf8
  | 3 => (fun n => .integer (UInt32.ofNat n).toInt32) <$> Reader.big 4
  | 4 => (fun n => .float (UInt32.ofNat n)) <$> Reader.big 4
  | 5 => (fun n => .long (UInt64.ofNat n).toInt64) <$> Reader.big 8
  | 6 => (fun n => .double (UInt64.ofNat n)) <$> Reader.big 8
  | 7 => .classRef <$> Reader.index
  | 8 => .string <$> Reader.index
  | 9 => .fieldRef <$> Reader.index <*> Reader.index
  | 10 => .methodRef <$> Reader.index <*> Reader.index
  | 11 => .interfaceMethodRef <$> Reader.index <*> Reader.index
  | 12 => .nameAndType <$> Reader.index <*> Reader.index
  | 15 => .methodHandle <$> Reader.accept HandleKind.ofTag? Reader.byte <*> Reader.index
  | 16 => .methodType <$> Reader.index
  | 17 => .dynamic <$> Reader.u16 <*> Reader.index
  | 18 => .invokeDynamic <$> Reader.u16 <*> Reader.index
  | 19 => .module <$> Reader.index
  | 20 => .package <$> Reader.index
  | _ => failure

/-- The written form; a slot that cannot be used has none. -/
def toBytes : Constant → ClassResult Bytes
  | utf8 raw => do
    let length ← count16 raw.length "bytes in a Utf8 constant"
    pure (1 :: (putU16 length ++ raw))
  | integer value => pure (3 :: big 4 value.toUInt32.toNat)
  | float bits => pure (4 :: big 4 bits.toNat)
  | long value => pure (5 :: big 8 value.toUInt64.toNat)
  | double bits => pure (6 :: big 8 bits.toNat)
  | classRef name => pure (7 :: putU16 name)
  | string value => pure (8 :: putU16 value)
  | fieldRef owner nat => pure (9 :: (putU16 owner ++ putU16 nat))
  | methodRef owner nat => pure (10 :: (putU16 owner ++ putU16 nat))
  | interfaceMethodRef owner nat => pure (11 :: (putU16 owner ++ putU16 nat))
  | nameAndType name descriptor => pure (12 :: (putU16 name ++ putU16 descriptor))
  | methodHandle kind reference => pure (15 :: kind.tag :: putU16 reference)
  | methodType descriptor => pure (16 :: putU16 descriptor)
  | dynamic bootstrap nat => pure (17 :: (putU16 bootstrap ++ putU16 nat))
  | invokeDynamic bootstrap nat => pure (18 :: (putU16 bootstrap ++ putU16 nat))
  | module name => pure (19 :: putU16 name)
  | package name => pure (20 :: putU16 name)
  | unusable => pure []

/-- Constants until `slots` slots are filled. -/
def readMany : Nat → Reader (List Constant)
  | 0 => pure []
  | slots + 1 => do
    let constant ← read
    if constant.isWide then
      match slots with
      | 0 => pure [constant]
      | slots + 1 => (constant :: ·) <$> readMany slots
    else (constant :: ·) <$> readMany slots

end Constant

namespace Pool

/-- The pool at the front of the bytes. -/
def read : Reader Pool := do
  let count ← Reader.u16
  if count = 0 then failure
  else ofConstants <$> Constant.readMany (count.toNat - 1)

/-- The written form. -/
def toBytes (pool : Pool) : ClassResult Bytes := do
  let count ← count16 pool.size "constants"
  let constants ← (pool.entries.toList.drop 1).mapM Constant.toBytes
  pure (putU16 count ++ constants.flatten)

end Pool

end Jarsmith
