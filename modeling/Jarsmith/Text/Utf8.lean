import Jarsmith.Bytes

/-!
# UTF-8

Decoding as a machine that reads one byte a step. What is not well formed is cut into maximal broken
pieces, so that one machine serves both readings: the lenient one shows every broken piece as the
replacement character, the strict one refuses the text.

* `Utf8.encode` is the encoding of a text.
* `Utf8.scalars` are the characters of a byte sequence, `none` for a broken piece.
-/

namespace Jarsmith.Utf8

/-- The encoding of a text. -/
def encode (text : String) : Bytes := text.toList.flatMap String.utf8EncodeChar

/-- Inside a sequence: the bytes that are still to come, the bits so far, and the bounds of the next
byte, which are narrower than those of later bytes where they exclude surrogates, overlong forms and
numbers past the last code point. -/
structure Pending where
  /-- How many bytes are still to come after the next one. -/
  more : Nat
  /-- The bits read so far. -/
  bits : Nat
  low : UInt8
  high : UInt8

/-- What the first byte of a sequence says. -/
inductive Lead where
  | single (c : Char)
  | opens (pending : Pending)
  | broken

/-- The reading of a byte at the start of a sequence. -/
def lead (b : UInt8) : Lead :=
  let n := b.toNat
  if n < 0x80 then .single (Char.ofNat n)
  else if n < 0xC2 then .broken
  else if n < 0xE0 then .opens ⟨0, n % 0x20, 0x80, 0xBF⟩
  else if n = 0xE0 then .opens ⟨1, 0, 0xA0, 0xBF⟩
  else if n = 0xED then .opens ⟨1, 0xD, 0x80, 0x9F⟩
  else if n < 0xF0 then .opens ⟨1, n % 0x10, 0x80, 0xBF⟩
  else if n = 0xF0 then .opens ⟨2, 0, 0x90, 0xBF⟩
  else if n < 0xF4 then .opens ⟨2, n % 8, 0x80, 0xBF⟩
  else if n = 0xF4 then .opens ⟨2, 4, 0x80, 0x8F⟩
  else .broken

/-- The characters of `bytes` from inside a sequence, or from its start when nothing is pending;
`none` stands for a broken piece. -/
def scan : Option Pending → Bytes → List (Option Char)
  | none, [] => []
  | some _, [] => [none]
  | none, b :: rest =>
    match lead b with
    | .single c => some c :: scan none rest
    | .opens pending => scan (some pending) rest
    | .broken => none :: scan none rest
  | some pending, b :: rest =>
    if pending.low ≤ b ∧ b ≤ pending.high then
      let bits := pending.bits * 0x40 + b.toNat % 0x40
      match pending.more with
      | 0 => some (Char.ofNat bits) :: scan none rest
      | more + 1 => scan (some ⟨more, bits, 0x80, 0xBF⟩) rest
    else
      match lead b with
      | .single c => none :: some c :: scan none rest
      | .opens next => none :: scan (some next) rest
      | .broken => none :: none :: scan none rest

/-- The characters of `bytes`, `none` for each maximal broken piece. -/
def scalars (bytes : Bytes) : List (Option Char) := scan none bytes

/-- The character shown for a broken piece. -/
def replacement : Char := Char.ofNat 0xFFFD

/-- The text of `bytes`, with the replacement character for each broken piece. -/
def lenient (bytes : Bytes) : String :=
  String.ofList ((scalars bytes).map fun c => c.getD replacement)

/-- The text of `bytes` when they are well formed. -/
def decode? (bytes : Bytes) : Option String :=
  ((scalars bytes).mapM id).map String.ofList

end Jarsmith.Utf8
