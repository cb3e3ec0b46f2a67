import Jarsmith.Bytes
import Jarsmith.Text.Quoted

/-!
# Modified UTF-8

The encoding of text in class files: a text is a sequence of 16-bit units, each unit is written in
one to three bytes, and the zero unit takes two bytes so that no zero byte appears. A character
above the basic plane is two units, a high and a low surrogate.

* `units?` gives the units of well-formed bytes. A unit may have two written forms.
* `textOf` pairs surrogates into characters and names the first one without a partner.
* `spells` compares bytes with a text by what they stand for, not by their form.
-/

namespace Jarsmith.ModifiedUtf8

/-- The bytes of one unit. -/
def encodeUnit (unit : Nat) : Bytes :=
  if unit = 0 then [0xC0, 0x80]
  else if unit < 0x80 then [UInt8.ofNat unit]
  else if unit < 0x800 then
    [UInt8.ofNat (0xC0 + unit / 0x40), UInt8.ofNat (0x80 + unit % 0x40)]
  else
    [UInt8.ofNat (0xE0 + unit / 0x1000), UInt8.ofNat (0x80 + unit / 0x40 % 0x40),
      UInt8.ofNat (0x80 + unit % 0x40)]

/-- The units of a character. -/
def unitsOfChar (c : Char) : List Nat :=
  let n := c.toNat
  if n < 0x10000 then [n]
  else [0xD800 + (n - 0x10000) / 0x400, 0xDC00 + (n - 0x10000) % 0x400]

/-- The bytes of a text. -/
def encode (text : String) : Bytes :=
  (text.toList.flatMap unitsOfChar).flatMap encodeUnit

/-- Whether a byte continues a unit. -/
def isContinuation (b : UInt8) : Bool := 0x80 ≤ b && b ≤ 0xBF

/-- Whether a unit may be written in two bytes: besides the units that need two bytes, these are
the units up to 0x40. -/
def allowsTwoBytes (unit : Nat) : Bool := unit ≤ 0x40 || 0x80 ≤ unit

/-- The unit of two bytes. -/
def unitOfTwo (b c : UInt8) : Nat := b.toNat % 0x20 * 0x40 + c.toNat % 0x40

/-- The units of `bytes`, if they are well formed. A form of three bytes is never longer than its
unit needs, and one of two bytes is only where `allowsTwoBytes` says so. -/
def units? : Bytes → Option (List Nat)
  | [] => some []
  | b :: rest =>
    let n := b.toNat
    if n = 0 then none
    else if n < 0x80 then (units? rest).map (n :: ·)
    else if 0xC0 ≤ n ∧ n < 0xE0 then
      match rest with
      | c :: rest =>
        if isContinuation c && allowsTwoBytes (unitOfTwo b c) then
          (units? rest).map (unitOfTwo b c :: ·)
        else none
      | [] => none
    else if 0xE0 ≤ n ∧ n < 0xF0 then
      match rest with
      | c :: d :: rest =>
        if isContinuation c && isContinuation d && (0xE1 ≤ n || 0xA0 ≤ c) then
          (units? rest).map ((n % 0x10 * 0x1000 + c.toNat % 0x40 * 0x40 + d.toNat % 0x40) :: ·)
        else none
      | _ => none
    else none

/-- Whether a unit is the first of a pair. -/
def isHigh (unit : Nat) : Bool := 0xD800 ≤ unit && unit < 0xDC00

/-- Whether a unit is the second of a pair. -/
def isLow (unit : Nat) : Bool := 0xDC00 ≤ unit && unit < 0xE000

/-- The character of a unit that is no half of a pair; the error is a half. -/
def charOf (unit : Nat) : Except Nat Char :=
  if isHigh unit || isLow unit then .error unit else .ok (Char.ofNat unit)

/-- The character of a pair. -/
def charOfPair (high low : Nat) : Char :=
  Char.ofNat (0x10000 + (high - 0xD800) * 0x400 + (low - 0xDC00))

/-- The characters of a sequence of units, with an error for each surrogate without a partner. -/
def charsOf : List Nat → List (Except Nat Char)
  | [] => []
  | high :: low :: rest =>
    if isHigh high && isLow low then .ok (charOfPair high low) :: charsOf rest
    else charOf high :: charsOf (low :: rest)
  | [unit] => [charOf unit]

/-- The characters of `bytes`, with an error for each surrogate without a partner. Bytes that are
not well formed hold no unit. -/
def chars (bytes : Bytes) : List (Except Nat Char) := charsOf ((units? bytes).getD [])

/-- The text of `bytes`; the error is the first surrogate without a partner. -/
def textOf (bytes : Bytes) : Except Nat String := String.ofList <$> (chars bytes).mapM id

/-- Whether `bytes` are a written form of `text`, which need not be the shortest one. -/
def spells (bytes : Bytes) (text : String) : Bool :=
  match textOf bytes with
  | .ok found => found = text
  | .error _ => false

/-- A surrogate by its number. -/
def surrogateEscape (unit : Nat) : List Char :=
  ['\\', 's', '\x7b'] ++ Nat.toDigits 16 unit ++ ['\x7d']

/-- The text of `bytes` for display, in double quotes. -/
def quoted (bytes : Bytes) : String :=
  Text.between <| (chars bytes).flatMap fun
    | .ok c => Text.quotedChar c
    | .error unit => surrogateEscape unit

end Jarsmith.ModifiedUtf8
