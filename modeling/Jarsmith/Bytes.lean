/-!
# Bytes

Byte sequences are lists, so that every reader below is a recursion on its input. The module holds
big-endian numbers, the only numbers of the class-file format, the reader that takes values off the
front of a byte sequence, and hexadecimal text.

* `big w n` writes the `w` lowest bytes of `n`, highest first; `Reader.big w` reads them back.
* `Reader α` either fails, or gives a value and the bytes that follow it.
* `toHex` writes two lower-case digits a byte; `ofHex?` accepts both cases of a digit and refuses an
  odd number of digits.
-/

namespace Jarsmith

/-- A finite sequence of bytes. -/
abbrev Bytes := List UInt8

/-- The `w` lowest bytes of `n`, highest first. -/
def big : Nat → Nat → Bytes
  | 0, _ => []
  | w + 1, n => big w (n / 256) ++ [UInt8.ofNat n]

/-- Two bytes, highest first. -/
def putU16 (n : UInt16) : Bytes := big 2 n.toNat

/-- The number that `bytes` spell, highest byte first. -/
def ofBig (bytes : Bytes) : Nat :=
  bytes.foldl (fun acc b => acc * 256 + b.toNat) 0

@[simp] theorem length_big (w n : Nat) : (big w n).length = w := by
  induction w generalizing n with
  | zero => rfl
  | succ w ih => simp [big, ih]

/-- A step that takes a value off the front of a byte sequence, or fails when the bytes hold
none. -/
abbrev Reader := StateT Bytes Option

namespace Reader

/-- The next byte. -/
def byte : Reader UInt8
  | [] => none
  | b :: rest => some (b, rest)

/-- The next `n` bytes. -/
def take (n : Nat) : Reader Bytes := fun bytes =>
  let taken := bytes.take n
  if taken.length = n then some (taken, bytes.drop n) else none

/-- The next `w` bytes as a number, highest byte first. -/
def big (w : Nat) : Reader Nat := ofBig <$> take w

/-- An unsigned 16-bit number. -/
def u16 : Reader UInt16 := UInt16.ofNat <$> big 2

/-- An unsigned 32-bit number, as a natural number. -/
def u32 : Reader Nat := big 4

/-- The value of `r`, `n` times in a row. -/
def times {α : Type} : Nat → Reader α → Reader (List α)
  | 0, _ => pure []
  | n + 1, r => do
    let first ← r
    let rest ← times n r
    pure (first :: rest)

/-- A table: its 16-bit number of rows, then the rows. -/
def table {α : Type} (row : Reader α) : Reader (List α) := do
  let count ← u16
  times count.toNat row

/-- A table whose number of rows is a single byte. -/
def smallTable {α : Type} (row : Reader α) : Reader (List α) := do
  let count ← byte
  times count.toNat row

/-- A value of the kind that the next byte stands for. -/
def tagged {κ α : Type} (ofTag? : UInt8 → Option κ) (value : κ → Reader α) : Reader α := do
  let tag ← byte
  match ofTag? tag with
  | some kind => value kind
  | none => failure

/-- The value at the front of `bytes`; what follows it is ignored. -/
def front {α : Type} (r : Reader α) (bytes : Bytes) : Option α :=
  (r bytes).map (·.1)

/-- The value that `bytes` hold from the first to the last. -/
def whole {α : Type} (r : Reader α) (bytes : Bytes) : Option α :=
  match r bytes with
  | some (value, []) => some value
  | _ => none

end Reader

-- ---------------------------------------------------------------------------
-- Hexadecimal text
-- ---------------------------------------------------------------------------

/-- The lower-case digit of a number below sixteen. -/
def hexDigit (n : Nat) : Char :=
  if n < 10 then Char.ofNat ('0'.toNat + n) else Char.ofNat ('a'.toNat + (n - 10))

/-- The number that a hexadecimal digit of either case stands for. -/
def hexValue? (c : Char) : Option Nat :=
  if '0' ≤ c ∧ c ≤ '9' then some (c.toNat - '0'.toNat)
  else if 'a' ≤ c ∧ c ≤ 'f' then some (c.toNat - 'a'.toNat + 10)
  else if 'A' ≤ c ∧ c ≤ 'F' then some (c.toNat - 'A'.toNat + 10)
  else none

/-- The two digits of a byte. -/
def hexOfByte (b : UInt8) : List Char :=
  [hexDigit (b.toNat / 16), hexDigit (b.toNat % 16)]

/-- The lower-case hexadecimal text of `bytes`. -/
def toHex (bytes : Bytes) : String := String.ofList (bytes.flatMap hexOfByte)

/-- The bytes that a sequence of digits spells. -/
def bytesOfDigits? : List Char → Option Bytes
  | [] => some []
  | [_] => none
  | high :: low :: rest =>
    match hexValue? high, hexValue? low, bytesOfDigits? rest with
    | some h, some l, some tail => some (UInt8.ofNat (h * 16 + l) :: tail)
    | _, _, _ => none

/-- The bytes whose hexadecimal text is `text`. -/
def ofHex? (text : String) : Option Bytes := bytesOfDigits? text.toList

/-- The lower-case digits of `n`, at least `width` of them. -/
def hexNat (width n : Nat) : String :=
  let digits := (Nat.toDigits 16 n)
  String.ofList (List.replicate (width - digits.length) '0' ++ digits)

end Jarsmith
