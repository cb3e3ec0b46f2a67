import Jarsmith.Archive.PrefixCode

/-!
# Deflated data

Reading data that was packed with prefix codes and back references. The input is a sequence of bits,
the lowest bit of each byte first; the output grows at its end, so that a back reference counts from
there.
-/

namespace Jarsmith.Inflate

open Token (lengthTable distanceTable fixedLengths fixedDistances lengthOrder)

/-- The bits of a byte, lowest first. -/
def bitsOfByte (b : UInt8) : List Bool := (List.range 8).map fun i => b.toNat.testBit i

/-- The bits that are still to be read. -/
structure Input where
  /-- The rest of the byte that is being read. -/
  current : List Bool
  rest : Bytes

/-- A step that takes bits off the input, or fails. -/
abbrev BitReader := StateT Input Option

/-- The next bit. -/
def bit : BitReader Bool
  | ⟨b :: current, rest⟩ => some (b, ⟨current, rest⟩)
  | ⟨[], byte :: rest⟩ =>
    match bitsOfByte byte with
    | b :: current => some (b, ⟨current, rest⟩)
    | [] => none
  | ⟨[], []⟩ => none

/-- The number that the next `n` bits spell, lowest bit first. -/
def number : Nat → BitReader Nat
  | 0 => pure 0
  | n + 1 => do
    let low ← bit
    let high ← number n
    pure (high * 2 + low.toNat)

/-- Drops the rest of the byte that is being read. -/
def align : BitReader Unit := modify fun input => { input with current := [] }

/-- The next whole byte, when no bit of a byte is pending. -/
def byte : BitReader UInt8 := do
  let n ← number 8
  pure (UInt8.ofNat n)

/-- The next symbol of a prefix code. -/
def nextSymbol : PrefixCode → BitReader Nat
  | .empty => failure
  | .leaf symbol => pure symbol
  | .node zero one => do
    if ← bit then nextSymbol one else nextSymbol zero

/-- A number of a table: its shortest value and the extra bits. -/
def extended (table : List (Nat × Nat)) (symbol : Nat) : BitReader Nat :=
  match table[symbol]? with
  | some (base, extra) => (base + ·) <$> number extra
  | none => failure

/-- Repeats `length` bytes of the output from `distance` bytes back. -/
def repeatBack (distance : Nat) : Nat → Array UInt8 → Option (Array UInt8)
  | 0, output => some output
  | length + 1, output =>
    if distance ≤ output.size then
      match output[output.size - distance]? with
      | some b => repeatBack distance length (output.push b)
      | none => none
    else none

/-- The symbols of a block up to its end. -/
def symbols (literals distances : PrefixCode) : Nat → Array UInt8 → BitReader (Array UInt8)
  | 0, _ => failure
  | fuel + 1, output => do
    let symbol ← nextSymbol literals
    if symbol < 256 then symbols literals distances fuel (output.push (UInt8.ofNat symbol))
    else if symbol = 256 then pure output
    else do
      let length ← extended lengthTable (symbol - 257)
      let distance ← extended distanceTable (← nextSymbol distances)
      match repeatBack distance length output with
      | some output => symbols literals distances fuel output
      | none => failure

/-- The lengths of `wanted` words; runs of one length are written short. -/
def lengths (code : PrefixCode) (wanted : Nat) : Nat → List Nat → BitReader (List Nat)
  | 0, _ => failure
  | fuel + 1, seen => do
    if wanted ≤ seen.length then
      if wanted = seen.length then pure seen.reverse else failure
    else do
      let symbol ← nextSymbol code
      if symbol < 16 then lengths code wanted fuel (symbol :: seen)
      else do
        let (value, bits, least) ← match symbol, seen with
          | 16, last :: _ => pure (last, 2, 3)
          | 17, _ => pure (0, 3, 3)
          | 18, _ => pure (0, 7, 11)
          | _, _ => failure
        let n ← number bits
        lengths code wanted fuel (List.replicate (least + n) value ++ seen)

/-- The two codes that a block describes. -/
def describedCodes : BitReader (PrefixCode × PrefixCode) := do
  let literals ← (257 + ·) <$> number 5
  let distances ← (1 + ·) <$> number 5
  let count ← (4 + ·) <$> number 4
  let written ← (List.range count).mapM fun _ => number 3
  let short := (lengthOrder.zip written).foldl (fun acc (i, n) => acc.set i n) (List.replicate 19 0)
  let all ← lengths (.ofLengths short) (literals + distances) (literals + distances + 1) []
  pure (.ofLengths (all.take literals), .ofLengths (all.drop literals))

/-- A block that is written as it is. -/
def plain (output : Array UInt8) : BitReader (Array UInt8) := do
  align
  let length ← number 16
  let _ ← number 16
  (List.range length).foldlM (fun output _ => do pure (output.push (← byte))) output

/-- The blocks up to the last one. -/
def blocks (size : Nat) : Nat → Array UInt8 → BitReader (Array UInt8)
  | 0, _ => failure
  | fuel + 1, output => do
    let last ← bit
    let output ← match ← number 2 with
      | 0 => plain output
      | 1 => symbols (.ofLengths fixedLengths) (.ofLengths fixedDistances) size output
      | 2 => do
        let (literals, distances) ← describedCodes
        symbols literals distances size output
      | _ => failure
    if last then pure output else blocks size fuel output

/-- The data that `packed` holds. Every symbol and every block takes at least one bit. -/
def unpack (packed : Bytes) : Option Bytes :=
  let bits := 8 * packed.length + 1
  ((blocks bits bits #[]).run ⟨[], packed⟩).map fun (output, _) => output.toList

end Jarsmith.Inflate
