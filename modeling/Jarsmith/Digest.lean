import Jarsmith.Bytes
import Jarsmith.Text.Split

/-!
# Digests

The algorithms that files are checked with, and the digest as lower-case hexadecimal text.

The algorithms work on blocks of sixteen 32-bit words. A message is followed by a one bit, by zeros
up to the last eight bytes of a block, and by its length in bits.
-/

-- ---------------------------------------------------------------------------
-- Padded blocks
-- ---------------------------------------------------------------------------

namespace Jarsmith.Digest

/-- The order of the bytes of a word. -/
inductive Endian where
  | big
  | little
  deriving DecidableEq

/-- The `w` lowest bytes of `n` in the given order. -/
def Endian.bytes (e : Endian) (w n : Nat) : Bytes :=
  match e with
  | .big => Jarsmith.big w n
  | .little => (Jarsmith.big w n).reverse

/-- The word that four bytes hold in the given order. -/
def Endian.word (e : Endian) (bytes : Bytes) : UInt32 :=
  match e with
  | .big => UInt32.ofNat (ofBig bytes)
  | .little => UInt32.ofNat (ofBig bytes.reverse)

/-- The message followed by its padding. -/
def padded (e : Endian) (message : Bytes) : Bytes :=
  let length := message.length
  message ++ 0x80 :: List.replicate ((119 - length % 64) % 64) 0 ++ e.bytes 8 (length * 8)

/-- The first `count` pieces of `size` elements. -/
def pieces {α : Type} (size : Nat) : Nat → List α → List (List α)
  | 0, _ => []
  | count + 1, list => list.take size :: pieces size count (list.drop size)

/-- The consecutive pieces of `size` elements; a shorter rest is left out. -/
def chunks {α : Type} (size : Nat) (list : List α) : List (List α) :=
  pieces size (list.length / size) list

/-- The blocks of a message as words. -/
def blocks (e : Endian) (message : Bytes) : List (Array UInt32) :=
  (chunks 64 (padded e message)).map fun block => ((chunks 4 block).map e.word).toArray

/-- `x` rotated to the left by `n` bits. -/
def rotateLeft (x : UInt32) (n : UInt32) : UInt32 := (x <<< n) ||| (x >>> (32 - n))

/-- `x` rotated to the right by `n` bits. -/
def rotateRight (x : UInt32) (n : UInt32) : UInt32 := (x >>> n) ||| (x <<< (32 - n))

end Jarsmith.Digest

-- ---------------------------------------------------------------------------
-- SHA-1
-- ---------------------------------------------------------------------------

namespace Jarsmith.Digest.Sha1

/-- The five words that the blocks change. -/
structure State where
  a : UInt32
  b : UInt32
  c : UInt32
  d : UInt32
  e : UInt32

/-- The state before the first block. -/
def initial : State := ⟨0x67452301, 0xefcdab89, 0x98badcfe, 0x10325476, 0xc3d2e1f0⟩

/-- The words of a block, extended to one for each round. -/
def schedule (block : Array UInt32) : Array UInt32 :=
  (List.range 64).foldl (fun w i =>
    w.push (rotateLeft
      (w.getD i 0 ^^^ w.getD (i + 2) 0 ^^^ w.getD (i + 8) 0 ^^^ w.getD (i + 13) 0) 1)) block

/-- The mixing function and the constant of round `i`. -/
def mix (i : Nat) (b c d : UInt32) : UInt32 :=
  if i < 20 then ((b &&& c) ||| (~~~b &&& d)) + 0x5a827999
  else if i < 40 then (b ^^^ c ^^^ d) + 0x6ed9eba1
  else if i < 60 then ((b &&& c) ||| (b &&& d) ||| (c &&& d)) + 0x8f1bbcdc
  else (b ^^^ c ^^^ d) + 0xca62c1d6

/-- Round `i` with its word. -/
def round (i : Nat) (s : State) (word : UInt32) : State :=
  ⟨rotateLeft s.a 5 + mix i s.b s.c s.d + s.e + word, s.a, rotateLeft s.b 30, s.c, s.d⟩

/-- The state after a block. -/
def compress (s : State) (block : Array UInt32) : State :=
  let w := schedule block
  let t := (List.range 80).foldl (fun s i => round i s (w.getD i 0)) s
  ⟨s.a + t.a, s.b + t.b, s.c + t.c, s.d + t.d, s.e + t.e⟩

/-- The digest of a message. -/
def digest (message : Bytes) : Bytes :=
  let s := (blocks .big message).foldl compress initial
  [s.a, s.b, s.c, s.d, s.e].flatMap fun word => big 4 word.toNat

end Jarsmith.Digest.Sha1

-- ---------------------------------------------------------------------------
-- SHA-256
-- ---------------------------------------------------------------------------

namespace Jarsmith.Digest.Sha256

/-- The first bits of the fractional parts of the cube roots of the first 64 primes. -/
def constants : Array UInt32 := #[
  0x428a2f98, 0x71374491, 0xb5c0fbcf, 0xe9b5dba5, 0x3956c25b, 0x59f111f1, 0x923f82a4, 0xab1c5ed5,
  0xd807aa98, 0x12835b01, 0x243185be, 0x550c7dc3, 0x72be5d74, 0x80deb1fe, 0x9bdc06a7, 0xc19bf174,
  0xe49b69c1, 0xefbe4786, 0x0fc19dc6, 0x240ca1cc, 0x2de92c6f, 0x4a7484aa, 0x5cb0a9dc, 0x76f988da,
  0x983e5152, 0xa831c66d, 0xb00327c8, 0xbf597fc7, 0xc6e00bf3, 0xd5a79147, 0x06ca6351, 0x14292967,
  0x27b70a85, 0x2e1b2138, 0x4d2c6dfc, 0x53380d13, 0x650a7354, 0x766a0abb, 0x81c2c92e, 0x92722c85,
  0xa2bfe8a1, 0xa81a664b, 0xc24b8b70, 0xc76c51a3, 0xd192e819, 0xd6990624, 0xf40e3585, 0x106aa070,
  0x19a4c116, 0x1e376c08, 0x2748774c, 0x34b0bcb5, 0x391c0cb3, 0x4ed8aa4a, 0x5b9cca4f, 0x682e6ff3,
  0x748f82ee, 0x78a5636f, 0x84c87814, 0x8cc70208, 0x90befffa, 0xa4506ceb, 0xbef9a3f7, 0xc67178f2]

/-- The eight words that the blocks change. -/
structure State where
  a : UInt32
  b : UInt32
  c : UInt32
  d : UInt32
  e : UInt32
  f : UInt32
  g : UInt32
  h : UInt32

/-- The first bits of the fractional parts of the square roots of the first eight primes. -/
def initial : State :=
  ⟨0x6a09e667, 0xbb67ae85, 0x3c6ef372, 0xa54ff53a,
    0x510e527f, 0x9b05688c, 0x1f83d9ab, 0x5be0cd19⟩

/-- The words of a block, extended to one for each round. -/
def schedule (block : Array UInt32) : Array UInt32 :=
  (List.range 48).foldl (fun w i =>
    let x := w.getD (i + 1) 0
    let y := w.getD (i + 14) 0
    let s0 := rotateRight x 7 ^^^ rotateRight x 18 ^^^ (x >>> 3)
    let s1 := rotateRight y 17 ^^^ rotateRight y 19 ^^^ (y >>> 10)
    w.push (w.getD i 0 + s0 + w.getD (i + 9) 0 + s1)) block

/-- One round with the sum of its constant and its word. -/
def round (s : State) (k : UInt32) : State :=
  let s1 := rotateRight s.e 6 ^^^ rotateRight s.e 11 ^^^ rotateRight s.e 25
  let choice := (s.e &&& s.f) ^^^ (~~~s.e &&& s.g)
  let t1 := s.h + s1 + choice + k
  let s0 := rotateRight s.a 2 ^^^ rotateRight s.a 13 ^^^ rotateRight s.a 22
  let majority := (s.a &&& s.b) ^^^ (s.a &&& s.c) ^^^ (s.b &&& s.c)
  ⟨t1 + s0 + majority, s.a, s.b, s.c, s.d + t1, s.e, s.f, s.g⟩

/-- The state after a block. -/
def compress (s : State) (block : Array UInt32) : State :=
  let w := schedule block
  let t := (List.range 64).foldl (fun s i => round s (constants.getD i 0 + w.getD i 0)) s
  ⟨s.a + t.a, s.b + t.b, s.c + t.c, s.d + t.d, s.e + t.e, s.f + t.f, s.g + t.g, s.h + t.h⟩

/-- The digest of a message. -/
def digest (message : Bytes) : Bytes :=
  let s := (blocks .big message).foldl compress initial
  [s.a, s.b, s.c, s.d, s.e, s.f, s.g, s.h].flatMap fun word => big 4 word.toNat

end Jarsmith.Digest.Sha256

-- ---------------------------------------------------------------------------
-- MD5
-- ---------------------------------------------------------------------------

namespace Jarsmith.Digest.Md5

/-- The first bits of the absolute values of the sines of 1 to 64. -/
def constants : Array UInt32 := #[
  0xd76aa478, 0xe8c7b756, 0x242070db, 0xc1bdceee, 0xf57c0faf, 0x4787c62a, 0xa8304613, 0xfd469501,
  0x698098d8, 0x8b44f7af, 0xffff5bb1, 0x895cd7be, 0x6b901122, 0xfd987193, 0xa679438e, 0x49b40821,
  0xf61e2562, 0xc040b340, 0x265e5a51, 0xe9b6c7aa, 0xd62f105d, 0x02441453, 0xd8a1e681, 0xe7d3fbc8,
  0x21e1cde6, 0xc33707d6, 0xf4d50d87, 0x455a14ed, 0xa9e3e905, 0xfcefa3f8, 0x676f02d9, 0x8d2a4c8a,
  0xfffa3942, 0x8771f681, 0x6d9d6122, 0xfde5380c, 0xa4beea44, 0x4bdecfa9, 0xf6bb4b60, 0xbebfbc70,
  0x289b7ec6, 0xeaa127fa, 0xd4ef3085, 0x04881d05, 0xd9d4d039, 0xe6db99e5, 0x1fa27cf8, 0xc4ac5665,
  0xf4292244, 0x432aff97, 0xab9423a7, 0xfc93a039, 0x655b59c3, 0x8f0ccc92, 0xffeff47d, 0x85845dd1,
  0x6fa87e4f, 0xfe2ce6e0, 0xa3014314, 0x4e0811a1, 0xf7537e82, 0xbd3af235, 0x2ad7d2bb, 0xeb86d391]

/-- How far each of the four kinds of round rotates, in turn. -/
def rotations : Array UInt32 := #[7, 12, 17, 22, 5, 9, 14, 20, 4, 11, 16, 23, 6, 10, 15, 21]

/-- The four words that the blocks change. -/
structure State where
  a : UInt32
  b : UInt32
  c : UInt32
  d : UInt32

/-- The state before the first block. -/
def initial : State := ⟨0x67452301, 0xefcdab89, 0x98badcfe, 0x10325476⟩

/-- The mixing function of round `i` and the number of the word that it takes. -/
def mix (i : Nat) (b c d : UInt32) : UInt32 × Nat :=
  if i < 16 then ((b &&& c) ||| (~~~b &&& d), i)
  else if i < 32 then ((d &&& b) ||| (~~~d &&& c), (5 * i + 1) % 16)
  else if i < 48 then (b ^^^ c ^^^ d, (3 * i + 5) % 16)
  else (c ^^^ (b ||| ~~~d), 7 * i % 16)

/-- Round `i` on a block. -/
def round (block : Array UInt32) (s : State) (i : Nat) : State :=
  let (f, j) := mix i s.b s.c s.d
  let sum := s.a + f + constants.getD i 0 + block.getD j 0
  ⟨s.d, s.b + rotateLeft sum (rotations.getD (i / 16 * 4 + i % 4) 0), s.b, s.c⟩

/-- The state after a block. -/
def compress (s : State) (block : Array UInt32) : State :=
  let t := (List.range 64).foldl (round block) s
  ⟨s.a + t.a, s.b + t.b, s.c + t.c, s.d + t.d⟩

/-- The digest of a message. -/
def digest (message : Bytes) : Bytes :=
  let s := (blocks .little message).foldl compress initial
  [s.a, s.b, s.c, s.d].flatMap fun word => Endian.little.bytes 4 word.toNat

end Jarsmith.Digest.Md5

-- ---------------------------------------------------------------------------
-- Digests of files
-- ---------------------------------------------------------------------------

namespace Jarsmith

/-- A digest algorithm. -/
inductive HashAlgorithm where
  | sha1
  | sha256
  | md5
  deriving DecidableEq, Repr

namespace HashAlgorithm

/-- The name of an algorithm in messages. -/
def name : HashAlgorithm → String
  | sha1 => "SHA-1"
  | sha256 => "SHA-256"
  | md5 => "MD5"

/-- The name of an algorithm in documents. -/
def key : HashAlgorithm → String
  | sha1 => "sha1"
  | sha256 => "sha256"
  | md5 => "md5"

/-- The algorithm with the given name in documents. -/
def ofKey? (key : String) : Option HashAlgorithm := [sha1, sha256, md5].find? (·.key == key)

/-- The digest of a message as bytes. -/
def bytes : HashAlgorithm → Bytes → Bytes
  | sha1 => Digest.Sha1.digest
  | sha256 => Digest.Sha256.digest
  | md5 => Digest.Md5.digest

/-- The digest of a message as text. -/
def digest (algorithm : HashAlgorithm) (message : Bytes) : String :=
  toHex (algorithm.bytes message)

/-- Whether a message has the digest `expected`, in either letter case. -/
def isValid (algorithm : HashAlgorithm) (message : Bytes) (expected : String) : Bool :=
  Text.equalsIgnoringCase (algorithm.digest message) expected

end HashAlgorithm

/-- A digest of content that comes in pieces; the latest piece stands in front. -/
structure StreamingHash where
  algorithm : HashAlgorithm
  pieces : List Bytes

namespace StreamingHash

/-- Nothing has come yet. -/
def new (algorithm : HashAlgorithm) : StreamingHash := ⟨algorithm, []⟩

/-- Takes the next piece. -/
def update (h : StreamingHash) (piece : Bytes) : StreamingHash :=
  { h with pieces := piece :: h.pieces }

/-- Everything that has come. -/
def content (h : StreamingHash) : Bytes := h.pieces.reverse.flatten

/-- The digest of everything that has come. -/
def finish (h : StreamingHash) : String := h.algorithm.digest h.content

end StreamingHash

end Jarsmith
