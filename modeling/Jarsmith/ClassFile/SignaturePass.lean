import Jarsmith.ClassFile.Signature
import Jarsmith.Text.Utf8

/-!
# Renaming a signature in one pass

The renaming of the classes of a generic signature without its tree: a pass goes through the bytes
of the text and writes as it goes. It copies what is no name byte by byte, and cuts the names out of
the text at the offsets where they start and end.

The loops and calls of a pass count down a bound, and cutting inside a character is a result of its
own, so that both can be told from a fault of the text.
-/

namespace Jarsmith.SignaturePass

/-- Why a pass ends early. -/
inductive Halt where
  /-- The text is no signature, which shows at an offset. -/
  | malformed (offset : Nat)
  /-- A piece of the text was asked for that starts or ends inside a character. -/
  | torn
  /-- A loop took more rounds, or a call went deeper, than a bound allows. -/
  | endless
  deriving DecidableEq, Repr

/-- How many bytes a pass has read, and what it has written. -/
structure Place where
  offset : Nat
  written : List Char

/-- A step of a pass. -/
abbrev Pass := StateT Place (Except Halt)

/-- Reports the offset. -/
def fail {α : Type} : Pass α := fun place => .error (.malformed place.offset)

/-- Gives up at the bound. -/
def stuck {α : Type} : Pass α := fun _ => .error .endless

/-- Writes a text. -/
def write (text : String) : Pass Unit :=
  modify fun place => { place with written := place.written ++ text.toList }

/-- The byte of an ASCII character. -/
def byte (c : Char) : UInt8 := UInt8.ofNat c.toNat

-- ---------------------------------------------------------------------------
-- Steps of a pass
-- ---------------------------------------------------------------------------

section Program

variable (input : Bytes)

/-- The next byte. -/
def peek : Pass (Option UInt8) := fun place => .ok (input[place.offset]?, place)

/-- Copies a byte as the character of its number. -/
def copy : Pass UInt8 := do
  match ← peek input with
  | some b =>
    modify fun place => ⟨place.offset + 1, place.written ++ [Char.ofNat b.toNat]⟩
    pure b
  | none => fail

/-- Whether a character starts or the text ends at an offset. -/
def isBoundary (offset : Nat) : Bool :=
  match input[offset]? with
  | some b => b.toNat < 0x80 || 0xC0 ≤ b.toNat
  | none => offset == input.length

/-- A piece of the text. -/
def slice (start stop : Nat) : Pass String :=
  if start ≤ stop ∧ isBoundary input start ∧ isBoundary input stop then
    pure (Utf8.lenient ((input.drop start).take (stop - start)))
  else fun _ => .error .torn

/-- Goes on to one of the bytes of `stops`. -/
def skipTo (stops : List Char) : Nat → Pass Unit
  | 0 => stuck
  | bound + 1 => do
    match ← peek input with
    | some b =>
      if b ∈ stops.map byte then pure ()
      else do
        modify fun place => { place with offset := place.offset + 1 }
        skipTo stops bound
    | none => fail

/-- The name up to one of the bytes of `stops`. -/
def nameTo (stops : List Char) (bound : Nat) : Pass String := do
  let start := (← get).offset
  skipTo input stops bound
  slice input start (← get).offset

/-- Repeats `body` as long as the next byte allows it. -/
def repeatWhile (goesOn : Option UInt8 → Bool) (body : Pass Unit) : Nat → Pass Unit
  | 0 => stuck
  | bound + 1 => do
    if goesOn (← peek input) then
      body
      repeatWhile goesOn body bound
    else pure ()

-- ---------------------------------------------------------------------------
-- Parts of a signature
-- ---------------------------------------------------------------------------

variable (f : String → String)

mutual

/-- Rewrites a type. -/
def rewriteType : Nat → Pass Unit
  | 0 => stuck
  | bound + 1 => do
    let b ← copy input
    if b ∈ Signature.primitiveLetters.map byte then pure ()
    else if b = byte '[' then rewriteType bound
    else if b = byte 'T' then
      write (← nameTo input [';'] bound)
      let _ ← copy input
    else if b = byte 'L' then
      let name ← nameTo input ['<', '.', ';'] bound
      write (f name)
      rewriteParts bound name (f name)
    else fail

/-- Rewrites what follows a class of the binary name `binary`, whose new name is `renamed`. -/
def rewriteParts : Nat → String → String → Pass Unit
  | 0, _, _ => stuck
  | bound + 1, binary, renamed => do
    let b ← peek input
    if b = some (byte '<') then
      let _ ← copy input
      rewriteArguments bound
      rewriteParts bound binary renamed
    else if b = some (byte '.') then
      let _ ← copy input
      let name ← nameTo input ['<', '.', ';'] bound
      let inner := binary ++ "$" ++ name
      write (nestedName renamed (f inner))
      rewriteParts bound inner (f inner)
    else if b = some (byte ';') then
      let _ ← copy input
    else fail

/-- Rewrites type arguments, up to and with the closing bracket. -/
def rewriteArguments : Nat → Pass Unit
  | 0 => stuck
  | bound + 1 => do
    let b ← peek input
    if b = some (byte '>') then
      let _ ← copy input
    else if b = some (byte '*') then
      let _ ← copy input
      rewriteArguments bound
    else if b = some (byte '+') ∨ b = some (byte '-') then
      let _ ← copy input
      rewriteType bound
      rewriteArguments bound
    else if b.isSome then
      rewriteType bound
      rewriteArguments bound
    else fail

end

/-- Rewrites types, each behind a mark. -/
def rewriteMarked (mark : Char) (bound : Nat) : Pass Unit :=
  repeatWhile input (· == some (byte mark)) (do
    let _ ← copy input
    rewriteType input f bound) bound

/-- Rewrites the class bound of a type parameter, if it has one. -/
def rewriteClassBound (bound : Nat) : Pass Unit := do
  let b ← peek input
  if b = some (byte ':') ∨ b = some (byte '>') then pure () else rewriteType input f bound

/-- Rewrites a type parameter. -/
def rewriteParameter (bound : Nat) : Pass Unit := do
  write (← nameTo input [':'] bound)
  let _ ← copy input
  rewriteClassBound input f bound
  rewriteMarked input f ':' bound

/-- Rewrites the rest of a row, up to and with the byte that ends it. -/
def rewriteTo (close : Char) (body : Pass Unit) (bound : Nat) : Pass Unit := do
  repeatWhile input (· != some (byte close)) body bound
  let _ ← copy input

/-- Rewrites type parameters, if the signature has them. -/
def rewriteParameters (bound : Nat) : Pass Unit := do
  if (← peek input) = some (byte '<') then
    let _ ← copy input
    rewriteTo input '>' (rewriteParameter input f bound) bound
  else pure ()

/-- Rewrites what follows the type parameters. -/
def rewriteBody (bound : Nat) : Pass Unit := do
  if (← peek input) = some (byte '(') then
    let _ ← copy input
    rewriteTo input ')' (rewriteType input f bound) bound
    rewriteType input f bound
    rewriteMarked input f '^' bound
  else repeatWhile input Option.isSome (rewriteType input f bound) bound

/-- Rewrites a signature. -/
def rewriteSignature (bound : Nat) : Pass Unit := do
  rewriteParameters input f bound
  rewriteBody input f bound

/-- Rewrites a signature that is all of the text. -/
def rewriteAll (bound : Nat) : Pass Unit := do
  rewriteSignature input f bound
  if (← get).offset = input.length then pure () else fail

end Program

/-- What a pass over a text writes. No loop takes more than `bound` rounds, and no call goes deeper. -/
def run (bound : Nat) (f : String → String) (text : String) : Except Halt String :=
  (rewriteAll (Utf8.encode text) f bound ⟨0, []⟩).map fun result =>
    String.ofList result.2.written

end Jarsmith.SignaturePass
