import Jarsmith.Archive.Matches
import Jarsmith.Archive.PrefixCode

/-!
# Deflating data

The packed form of data: blocks of tokens that are spelled with prefix codes. A short block uses the
fixed codes, any other block describes codes made for it, and a block that would not get smaller is
written as it is.

* `Deflate.pack` gives the packed form; `Inflate.unpack` reads it.
-/

namespace Jarsmith.Deflate

open Token (Block)

/-- The `n` lowest bits of a number, lowest first. -/
def number (n value : Nat) : List Bool := (List.range n).map value.testBit

/-- The byte whose bits are given, lowest first; bits that are missing are zero. -/
def byteOfBits (bits : List Bool) : UInt8 :=
  UInt8.ofNat (bits.foldr (fun bit n => n * 2 + bit.toNat) 0)

/-- Bits as bytes, the lowest bit of each byte first. The last byte is filled with zeros. -/
def bytesOfBits : List Bool → Bytes
  | a :: b :: c :: d :: e :: f :: g :: h :: rest =>
    byteOfBits [a, b, c, d, e, f, g, h] :: bytesOfBits rest
  | [] => []
  | bits => [byteOfBits bits]

-- ---------------------------------------------------------------------------
-- Tokens
-- ---------------------------------------------------------------------------

/-- The words of a block. -/
structure Words where
  literals : Array (List Bool)
  distances : Array (List Bool)

/-- The words of the given lengths. -/
def Words.ofLengths (literals distances : List Nat) : Words :=
  ⟨(PrefixCode.words literals).toArray, (PrefixCode.words distances).toArray⟩

/-- The bits of a token. -/
def tokenBits (w : Words) : Token → List Bool
  | .literal byte => w.literals.getD byte.toNat []
  | .copy length distance =>
    let (l, shortest, lengthExtra) := Token.symbolOf Token.lengthTable length
    let (d, nearest, distanceExtra) := Token.symbolOf Token.distanceTable distance
    w.literals.getD (257 + l) [] ++ number lengthExtra (length - shortest)
      ++ w.distances.getD d [] ++ number distanceExtra (distance - nearest)

/-- The bits of all tokens of a block, and of its end. -/
def bodyBits (w : Words) (tokens : List Token) : List Bool :=
  tokens.flatMap (tokenBits w) ++ w.literals.getD Token.endOfBlock []

/-- How often each symbol is used. -/
structure Uses where
  literals : Array Nat
  distances : Array Nat

/-- Counts the symbols of a token. -/
def Uses.add (u : Uses) : Token → Uses
  | .literal byte => { u with literals := u.literals.modify byte.toNat (· + 1) }
  | .copy length distance =>
    { literals := u.literals.modify (257 + (Token.symbolOf Token.lengthTable length).1) (· + 1)
      distances := u.distances.modify (Token.symbolOf Token.distanceTable distance).1 (· + 1) }

/-- How often the symbols of a block are used; its end is used once. -/
def Uses.ofTokens (tokens : List Token) : Uses :=
  tokens.foldl .add
    ⟨(Array.replicate 286 0).setIfInBounds Token.endOfBlock 1, Array.replicate 30 0⟩

-- ---------------------------------------------------------------------------
-- Codes made for a block
-- ---------------------------------------------------------------------------

/-- A symbol of the code for lengths, with the width and the value of its extra bits. -/
structure RunSymbol where
  symbol : Nat
  width : Nat
  extra : Nat

/-- A run of one length, written short. -/
def runSymbols (run : List Nat) : List RunSymbol :=
  match run with
  | [] => []
  | 0 :: _ =>
    let rest := run.length % 138
    List.replicate (run.length / 138) ⟨18, 7, 127⟩
      ++ if rest < 3 then List.replicate rest ⟨0, 0, 0⟩
        else if rest ≤ 10 then [⟨17, 3, rest - 3⟩]
        else [⟨18, 7, rest - 11⟩]
  | length :: more =>
    let rest := more.length % 6
    ⟨length, 0, 0⟩ :: List.replicate (more.length / 6) ⟨16, 2, 3⟩
      ++ if rest < 3 then List.replicate rest ⟨length, 0, 0⟩ else [⟨16, 2, rest - 3⟩]

/-- The list without the zeros at its end, but never shorter than `least`. -/
def trimZeros (least : Nat) (lengths : List Nat) : List Nat :=
  lengths.take (max least (lengths.reverse.dropWhile (· == 0)).length)

/-- The description of two codes by the lengths of their words. -/
def describe (literals distances : List Nat) : List Bool :=
  let runs := ((literals ++ distances).splitBy (· == ·)).flatMap runSymbols
  let uses := runs.foldl (fun uses run => uses.modify run.symbol (· + 1)) (Array.replicate 19 0)
  let lengths := PrefixCode.lengthsFor 7 uses
  let words := PrefixCode.words lengths
  let written := trimZeros 4 (Token.lengthOrder.map (lengths.getD · 0))
  number 5 (literals.length - 257) ++ number 5 (distances.length - 1)
    ++ number 4 (written.length - 4) ++ written.flatMap (number 3)
    ++ runs.flatMap fun run => words.getD run.symbol [] ++ number run.width run.extra

-- ---------------------------------------------------------------------------
-- Blocks
-- ---------------------------------------------------------------------------

/-- The tokens of a block with the fixed codes. -/
def fixedBits (tokens : List Token) : List Bool :=
  number 2 1 ++ bodyBits (.ofLengths Token.fixedLengths Token.fixedDistances) tokens

/-- The tokens of a block with codes made for them. -/
def describedBits (tokens : List Token) : List Bool :=
  let uses := Uses.ofTokens tokens
  let literals := trimZeros 257 (PrefixCode.lengthsFor PrefixCode.longest uses.literals)
  let distances := trimZeros 1 (PrefixCode.lengthsFor PrefixCode.longest uses.distances)
  number 2 2 ++ describe literals distances ++ bodyBits (.ofLengths literals distances) tokens

/-- Bytes as they are, from a byte boundary on. -/
def plainBits (written : Nat) (bytes : Bytes) : List Bool :=
  let gap := (16 - (written + 2) % 8) % 8
  number 2 0 ++ number gap 0 ++ number 16 bytes.length ++ number 16 (65535 - bytes.length)
    ++ bytes.flatMap fun b => number 8 b.toNat

/-- The bits of a block after its first one, where `written` bits stand before them. -/
def blockBits (written : Nat) (b : Block) : List Bool :=
  let bits := if b.bytes.length < 48 then fixedBits b.tokens else describedBits b.tokens
  let wholeBytes := (written + bits.length) / 8 - written / 8
  if 32 < b.bytes.length ∧ b.bytes.length ≤ wholeBytes + 1 then plainBits written b.bytes else bits

/-- The bits of blocks that follow `written` bits. The first bit of a block says whether it is the
last. -/
def blocksBits (written : Nat) : List Block → List Bool
  | [] => []
  | b :: more =>
    let bits := more.isEmpty :: blockBits (written + 1) b
    bits ++ blocksBits (written + bits.length) more

/-- The packed form of data. -/
def pack (data : Bytes) : Bytes := bytesOfBits (blocksBits 0 (Token.blocks data))

end Jarsmith.Deflate
