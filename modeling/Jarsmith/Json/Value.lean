import Jarsmith.Bytes
import Jarsmith.OrderedMap
import Jarsmith.Text.Split

/-!
# JSON values

A document as it is written: the members of an object in their order, with repetitions.

A text may spell half of a surrogate pair with an escape. Such a text is well formed as long as
nobody needs to know it, so a value keeps only that it has no text.

A record is an object with known keys: other keys are passed over, and a known key that stands twice
is refused. A record may also be written as the array of its values in the order in which the keys are
declared; an array may stop early where the missing values have a default.

* `JsonValue.parse` reads a document; `JsonValue.render` writes one.
* `JsonValue.record?` — the values of a record by their keys.
-/

namespace Jarsmith

/-- A JSON value. -/
inductive JsonValue where
  | null
  | boolean (b : Bool)
  | integer (n : Int)
  /-- A number that is written with a fraction or an exponent, and a zero with a sign. -/
  | fraction
  /-- A text, or `none` for one with half of a surrogate pair. -/
  | string (text : Option String)
  | array (items : List JsonValue)
  | object (members : List (Option String × JsonValue))

namespace JsonValue

-- ---------------------------------------------------------------------------
-- Tokens
-- ---------------------------------------------------------------------------

/-- Whether `c` may stand between tokens. -/
def isSpace (c : Char) : Bool := c == ' ' || c == '\t' || c == '\n' || c == '\r'

/-- A text without spaces at its start. -/
def skipSpaces (text : List Char) : List Char := text.dropWhile isSpace

/-- The unit that four hexadecimal digits spell. -/
def unit? : List Char → Option (Nat × List Char)
  | a :: b :: c :: d :: rest =>
    match hexValue? a, hexValue? b, hexValue? c, hexValue? d with
    | some a, some b, some c, some d => some (((a * 16 + b) * 16 + c) * 16 + d, rest)
    | _, _, _, _ => none
  | _ => none

/-- A piece of a text: a character, or half of a surrogate pair. -/
inductive Piece where
  | char (c : Char)
  | half (unit : Nat)

/-- The character that a letter behind a backslash stands for. -/
def escaped? : Char → Option Char
  | '"' => some '"'
  | '\\' => some '\\'
  | '/' => some '/'
  | 'b' => some (Char.ofNat 8)
  | 'f' => some (Char.ofNat 12)
  | 'n' => some '\n'
  | 'r' => some '\r'
  | 't' => some '\t'
  | _ => none

/-- The pieces of a text up to its closing quote, and what follows the quote. -/
def pieces? : (fuel : Nat) → List Char → Option (List Piece × List Char)
  | 0, _ => none
  | _ + 1, [] => none
  | _ + 1, '"' :: rest => some ([], rest)
  | fuel + 1, '\\' :: 'u' :: rest => do
    let (unit, rest) ← unit? rest
    let piece := if 0xD800 ≤ unit ∧ unit < 0xE000 then Piece.half unit else .char (Char.ofNat unit)
    let (more, rest) ← pieces? fuel rest
    some (piece :: more, rest)
  | fuel + 1, '\\' :: c :: rest => do
    let c ← escaped? c
    let (more, rest) ← pieces? fuel rest
    some (.char c :: more, rest)
  | fuel + 1, c :: rest => do
    if c.toNat < 0x20 || c == '\\' then none
    let (more, rest) ← pieces? fuel rest
    some (.char c :: more, rest)

/-- The characters of a sequence of pieces, unless half of a pair stands alone. -/
def joinPieces : List Piece → Option (List Char)
  | [] => some []
  | .char c :: more => (joinPieces more).map (c :: ·)
  | .half high :: .half low :: more =>
    if high < 0xDC00 ∧ 0xDC00 ≤ low then
      (joinPieces more).map
        (Char.ofNat (0x10000 + (high - 0xD800) * 0x400 + (low - 0xDC00)) :: ·)
    else none
  | .half _ :: _ => none

/-- The text behind an opening quote, and what follows it. -/
def text? (input : List Char) : Option (Option String × List Char) :=
  (pieces? (input.length + 1) input).map fun (pieces, rest) =>
    ((joinPieces pieces).map String.ofList, rest)

/-- The digits at the start of a text, at least one, and what follows them. -/
def digits? (input : List Char) : Option (List Char × List Char) :=
  match input.takeWhile Char.isDigit with
  | [] => none
  | digits => some (digits, input.dropWhile Char.isDigit)

/-- The number that digits spell. -/
def ofDigits (digits : List Char) : Nat :=
  digits.foldl (fun n c => n * 10 + (c.toNat - '0'.toNat)) 0

/-- What follows the fraction at the start of a text, and whether there is one. -/
def skipFraction? : List Char → Option (Bool × List Char)
  | '.' :: rest => (digits? rest).map fun (_, rest) => (true, rest)
  | input => some (false, input)

/-- What follows the exponent at the start of a text, and whether there is one. -/
def skipExponent? (input : List Char) : Option (Bool × List Char) :=
  let exponent (rest : List Char) : Option (Bool × List Char) :=
    match rest with
    | '+' :: rest | '-' :: rest => (digits? rest).map fun (_, rest) => (true, rest)
    | rest => (digits? rest).map fun (_, rest) => (true, rest)
  match input with
  | 'e' :: rest | 'E' :: rest => exponent rest
  | input => some (false, input)

/-- The number at the start of a text, and what follows it. -/
def number? (input : List Char) : Option (JsonValue × List Char) := do
  let (negative, rest) := match input with
    | '-' :: rest => (true, rest)
    | rest => (false, rest)
  let (digits, rest) ← digits? rest
  if digits.head? = some '0' ∧ 1 < digits.length then none
  let (hasFraction, rest) ← skipFraction? rest
  let (hasExponent, rest) ← skipExponent? rest
  let n := ofDigits digits
  let value := if hasFraction || hasExponent || (negative && n == 0) then fraction
    else integer (if negative then -n else n)
  some (value, rest)

-- ---------------------------------------------------------------------------
-- Documents
-- ---------------------------------------------------------------------------

mutual

/-- The value at the start of a text, and what follows it. Each step takes at least one character,
so fuel above the length of the text is never used up. -/
def value? : (fuel : Nat) → List Char → Option (JsonValue × List Char)
  | 0, _ => none
  | fuel + 1, input =>
    match skipSpaces input with
    | 'n' :: 'u' :: 'l' :: 'l' :: rest => some (null, rest)
    | 't' :: 'r' :: 'u' :: 'e' :: rest => some (boolean true, rest)
    | 'f' :: 'a' :: 'l' :: 's' :: 'e' :: rest => some (boolean false, rest)
    | '"' :: rest => (text? rest).map fun (t, rest) => (string t, rest)
    | '[' :: rest =>
      match skipSpaces rest with
      | ']' :: rest => some (array [], rest)
      | rest => (items? fuel rest).map fun (items, rest) => (array items, rest)
    | '\x7b' :: rest =>
      match skipSpaces rest with
      | '\x7d' :: rest => some (object [], rest)
      | rest => (members? fuel rest).map fun (members, rest) => (object members, rest)
    | rest => number? rest

/-- The items of an array up to its closing bracket. -/
def items? : (fuel : Nat) → List Char → Option (List JsonValue × List Char)
  | 0, _ => none
  | fuel + 1, input => do
    let (first, rest) ← value? fuel input
    match skipSpaces rest with
    | ',' :: rest =>
      let (more, rest) ← items? fuel rest
      some (first :: more, rest)
    | ']' :: rest => some ([first], rest)
    | _ => none

/-- The members of an object up to its closing brace. -/
def members? : (fuel : Nat) → List Char → Option (List (Option String × JsonValue) × List Char)
  | 0, _ => none
  | fuel + 1, input =>
    match skipSpaces input with
    | '"' :: rest => do
      let (key, rest) ← text? rest
      let ':' :: rest := skipSpaces rest | none
      let (first, rest) ← value? fuel rest
      match skipSpaces rest with
      | ',' :: rest =>
        let (more, rest) ← members? fuel rest
        some ((key, first) :: more, rest)
      | '\x7d' :: rest => some ([(key, first)], rest)
      | _ => none
    | _ => none

end

/-- The document that a text writes. -/
def parse (document : String) : Option JsonValue :=
  match value? (2 * document.length + 2) document.toList with
  | some (value, rest) => if (skipSpaces rest).isEmpty then some value else none
  | none => none

-- ---------------------------------------------------------------------------
-- Writing
-- ---------------------------------------------------------------------------

/-- A character as it stands between quotes. -/
def escape (c : Char) : List Char :=
  match c with
  | '"' => ['\\', '"']
  | '\\' => ['\\', '\\']
  | '\n' => ['\\', 'n']
  | '\r' => ['\\', 'r']
  | '\t' => ['\\', 't']
  | c =>
    if c.toNat = 8 then ['\\', 'b']
    else if c.toNat = 12 then ['\\', 'f']
    else if c.toNat < 0x20 then ('\\' :: 'u' :: (hexNat 4 c.toNat).toList)
    else [c]

/-- A text between quotes. -/
def quote (t : String) : String := "\"" ++ String.ofList (t.toList.flatMap escape) ++ "\""

/-- How the parts of a document are set apart: `line depth` starts a part that stands inside `depth`
arrays and objects, and `colon` stands behind a key. -/
structure Style where
  line : Nat → String
  colon : String

/-- Everything on one line, without spaces. -/
def Style.compact : Style := ⟨fun _ => "", ":"⟩

/-- Every part on a line of its own, indented by two spaces for each level. -/
def Style.indented : Style :=
  ⟨fun depth => "\n" ++ String.ofList (List.replicate (2 * depth) ' '), ": "⟩

/-- The parts of an array or an object between its brackets. -/
def enclose (style : Style) (depth : Nat) (parts : List String) : String :=
  match parts with
  | [] => ""
  | parts => ",".intercalate (parts.map (style.line (depth + 1) ++ ·)) ++ style.line depth

mutual

/-- A value as text. A value that was read with half of a pair is written as an empty text, and a
number that is no integer as zero; no document that the library builds has either. -/
def render (style : Style) (depth : Nat) : JsonValue → String
  | null => "null"
  | boolean true => "true"
  | boolean false => "false"
  | integer n => toString n
  | fraction => "0"
  | string t => quote (t.getD "")
  | array items => "[" ++ enclose style depth (renderItems style (depth + 1) items) ++ "]"
  | object members =>
    "\x7b" ++ enclose style depth (renderMembers style (depth + 1) members) ++ "\x7d"

/-- The items of an array, each as text. -/
def renderItems (style : Style) (depth : Nat) : List JsonValue → List String
  | [] => []
  | first :: more => first.render style depth :: renderItems style depth more

/-- The members of an object, each as text. -/
def renderMembers (style : Style) (depth : Nat) : List (Option String × JsonValue) → List String
  | [] => []
  | (key, value) :: more =>
    (quote (key.getD "") ++ style.colon ++ value.render style depth)
      :: renderMembers style depth more

end

end JsonValue

-- ---------------------------------------------------------------------------
-- Values of a known form
-- ---------------------------------------------------------------------------

/-- The values of a record by their keys. -/
structure JsonRecord where
  /-- Whether the record was written as an array. -/
  positional : Bool
  values : List (String × JsonValue)

namespace JsonValue

/-- The text. -/
def string? : JsonValue → Option String
  | string (some t) => some t
  | _ => none

/-- The truth value. -/
def boolean? : JsonValue → Option Bool
  | boolean b => some b
  | _ => none

/-- The integer from 0 up to `limit`, itself excluded. -/
def natBelow? (limit : Nat) : JsonValue → Option Nat
  | integer (.ofNat n) => if n < limit then some n else none
  | _ => none

/-- The items, each read by `decode`. -/
def list? {α : Type} (decode : JsonValue → Option α) : JsonValue → Option (List α)
  | array items => items.mapM decode
  | _ => none

/-- Nothing for `null`, else what `decode` reads. -/
def option? {α : Type} (decode : JsonValue → Option α) : JsonValue → Option (Option α)
  | null => some none
  | value => (decode value).map some

/-- The members by their keys; of two members with one key the later one counts. -/
def map? {α : Type} (decode : JsonValue → Option α) : JsonValue → Option (OrderedMap String α)
  | object members => do
    let entries ← members.mapM fun (key, value) => do
      let key ← key
      let value ← decode value
      some (key, value)
    some (.ofList entries)
  | _ => none

/-- The one of several choices that a text names. A choice may also be written as the only key of an
object with the value `null`. -/
def choice? {α : Type} (choices : List (String × α)) : JsonValue → Option α
  | string (some name) | object [(some name, null)] => choices.lookup name
  | _ => none

/-- The values of the given keys. -/
def record? (keys : List String) : JsonValue → Option JsonRecord
  | array items => if items.length ≤ keys.length then some ⟨true, keys.zip items⟩ else none
  | object members => do
    let members ← members.mapM fun (key, value) => key.map (·, value)
    let known := members.filter fun (key, _) => keys.contains key
    if (known.map (·.1)).Nodup then some ⟨false, known⟩ else none
  | _ => none

-- ---------------------------------------------------------------------------
-- Writing
-- ---------------------------------------------------------------------------

/-- A text as a value. -/
def ofString (t : String) : JsonValue := string (some t)

/-- A number as a value. -/
def ofNat (n : Nat) : JsonValue := integer n

/-- What may be missing as a value: `null` if it is. -/
def ofOption {α : Type} (encode : α → JsonValue) : Option α → JsonValue
  | none => null
  | some a => encode a

/-- The object with the given members. -/
def ofFields (fields : List (String × JsonValue)) : JsonValue :=
  object (fields.map fun (key, value) => (some key, value))

/-- The object with a member for each entry of a map. -/
def ofMap {α : Type} (encode : α → JsonValue) (m : OrderedMap String α) : JsonValue :=
  ofFields (m.entries.map fun (key, a) => (key, encode a))

end JsonValue

namespace JsonRecord

variable {α : Type}

/-- The value of `key`, which must be there. -/
def required (r : JsonRecord) (key : String) (decode : JsonValue → Option α) : Option α :=
  (r.values.lookup key).bind decode

/-- The value of `key`, or `default` if it is not there. -/
def defaulted (r : JsonRecord) (key : String) (default : α) (decode : JsonValue → Option α) :
    Option α :=
  match r.values.lookup key with
  | some value => decode value
  | none => some default

/-- The value of `key`; nothing if it is `null` or not there. -/
def optional (r : JsonRecord) (key : String) (decode : JsonValue → Option α) :
    Option (Option α) :=
  r.defaulted key none (JsonValue.option? decode)

/-- The value of `key`; nothing if it is `null`, or not there in a record that is written with its
keys. -/
def nullable (r : JsonRecord) (key : String) (decode : JsonValue → Option α) :
    Option (Option α) :=
  if r.positional then r.required key (JsonValue.option? decode) else r.optional key decode

end JsonRecord

end Jarsmith
