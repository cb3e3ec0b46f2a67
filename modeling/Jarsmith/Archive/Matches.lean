import Jarsmith.Archive.PrefixCode

/-!
# Finding back references

The tokens of a piece of data. At each place the search follows the earlier places that start alike,
the nearest first, for a limited number of steps. A back reference waits for the next place: if that
one has a longer back reference, a single byte is written instead.

* `Token.blocks` cuts data into blocks of tokens.
-/

namespace Jarsmith.Token

/-- A stretch of data that repeats an earlier one. -/
structure Match where
  length : Nat
  distance : Nat

/-- The shortest back reference. -/
def shortest : Nat := 3

/-- The longest back reference. -/
def farthest : Nat := 258

/-- How far back a reference may reach. -/
def windowSize : Nat := 32768

/-- A back reference of this length is taken at once. -/
def longEnough : Nat := 128

/-- Data with, for each place, the last earlier place whose three bytes have the same key. Places
are known by their 16 lowest bits, and 0 stands for none. -/
structure Window where
  data : Array UInt8
  earlier : Array Nat

namespace Window

/-- The byte at a place. -/
def byte (w : Window) (place : Nat) : Nat := (w.data.getD place 0).toNat

/-- Whether the two bytes at two places are the same. -/
def samePair (w : Window) (a b : Nat) : Bool :=
  w.byte a == w.byte b && w.byte (a + 1) == w.byte (b + 1)

/-- The key of three bytes: they overlap in 15 bits. -/
def key (a b c : UInt8) : Nat :=
  ((a.toNat <<< 10) ^^^ (b.toNat <<< 5) ^^^ c.toNat) % windowSize

/-- The earlier places of bytes that start at `place`; `last` has the last place of each key. -/
def chain (last : Array Nat) (place : Nat) (earlier : Array Nat) : List UInt8 → Array Nat
  | a :: b :: c :: rest =>
    let k := key a b c
    chain (last.setIfInBounds k (place % 65536)) (place + 1) (earlier.push (last.getD k 0))
      (b :: c :: rest)
  | _ => earlier

/-- The window of a piece of data. -/
def ofBytes (data : Bytes) : Window :=
  ⟨data.toArray, chain (Array.replicate windowSize 0) 0 #[] data⟩

/-- How many of the next `n` bytes at two places are the same. -/
def common (w : Window) : Nat → Nat → Nat → Nat
  | 0, _, _ => 0
  | n + 1, a, b => if w.byte a = w.byte b then w.common n (a + 1) (b + 1) + 1 else 0

/-- Looks for a match at `place` that is longer than `best`, going back from `probe`. Steps come in
rounds of three: a round ends early at an earlier place that could give a longer match, and the
number of rounds is limited. A match of length `most` ends the search. -/
def search (w : Window) (place most reach : Nat) :
    (probe : Nat) → (best : Match) → (rounds steps : Nat) → Match
  | _, best, 0, 0 => best
  | _, best, 1, 0 => best
  | probe, best, rounds + 2, 0 => w.search place most reach probe best (rounds + 1) 3
  | probe, best, rounds, steps + 1 =>
    let next := w.earlier.getD probe 0
    let distance := (place + 65536 - next) % 65536
    if next = 0 ∨ reach < distance ∨ distance = 0 then best
    else
      let probe := place - distance
      if !w.samePair (probe + best.length - 1) (place + best.length - 1) then
        w.search place most reach probe best rounds steps
      else if !w.samePair probe place then w.search place most reach probe best rounds 0
      else
        let length := w.common most probe place
        if length ≤ best.length then w.search place most reach probe best rounds 0
        else if length = most then ⟨length, distance⟩
        else w.search place most reach probe ⟨length, distance⟩ rounds 0
  termination_by _ _ rounds steps => (rounds, steps)

/-- The match at a place that is longer than `atLeast`, if the search finds one. -/
def match? (w : Window) (place atLeast : Nat) : Option Match :=
  let ahead := min farthest (w.data.size - place)
  let reach := min place (windowSize - ahead)
  let rounds := if atLeast < 32 then 44 else 12
  if ahead ≤ atLeast then none
  else
    let found := w.search place ahead reach place ⟨atLeast, 0⟩ rounds 0
    let farAndShort := found.length = shortest ∧ 8192 ≤ found.distance
    if found.distance = 0 ∨ farAndShort ∨ place % windowSize = found.distance then none
    else some found

end Window

/-- A run of tokens that are packed together, with the bytes that they spell. -/
structure Block where
  tokens : List Token
  bytes : Bytes

/-- Where the packing of data stands. -/
structure Progress where
  place : Nat
  /-- A match at the place before, which waits for a longer one. -/
  waiting : Option Match
  /-- The tokens of the block, the last one first. -/
  tokens : List Token
  /-- The number of the tokens. -/
  count : Nat
  /-- The room that the tokens take while they are collected: a byte has one unit, a match three. -/
  room : Nat
  /-- The place at which the block starts, and the number of bytes that its tokens spell. -/
  start : Nat
  spelled : Nat
  /-- The blocks that are done, the last one first. -/
  blocks : List Block

namespace Progress

/-- Adds a byte of the data. -/
def literal (byte : UInt8) (p : Progress) : Progress :=
  { p with
    tokens := .literal byte :: p.tokens, count := p.count + 1, room := p.room + 1,
    spelled := p.spelled + 1 }

/-- Adds a back reference. -/
def copy (m : Match) (p : Progress) : Progress :=
  { p with
    tokens := .copy m.length m.distance :: p.tokens, count := p.count + 1, room := p.room + 3,
    spelled := p.spelled + m.length }

/-- Goes on by `n` bytes. -/
def move (n : Nat) (p : Progress) : Progress := { p with place := p.place + n }

/-- Puts a match off to the next place. -/
def wait (m : Match) (p : Progress) : Progress := { p with waiting := some m }

/-- Takes a match that was found: at once if it is long, at the next place otherwise. -/
def take (m : Match) (p : Progress) : Progress :=
  if longEnough ≤ m.length then ({ p with waiting := none }.copy m).move m.length
  else (p.wait m).move 1

/-- Ends the block. -/
def close (data : Array UInt8) (p : Progress) : Progress :=
  let bytes := (data.extract p.start (p.start + p.spelled)).toList
  { p with
    tokens := [], count := 0, room := 0, start := p.start + p.spelled, spelled := 0,
    blocks := ⟨p.tokens.reverse, bytes⟩ :: p.blocks }

/-- Whether the block is full: its tokens take all the room there is, or they are many and take
about as much room as the bytes that they spell. -/
def full (p : Progress) : Bool :=
  let room := 1 + p.room + p.count / 8
  65528 < room || (31 * 1024 < p.spelled && p.spelled ≤ room * 115 / 128)

/-- Adds the tokens that a place gives. -/
def step (w : Window) (p : Progress) : Progress :=
  match p.waiting with
  | some m =>
    match w.match? p.place m.length with
    | some longer => (p.literal (w.data.getD (p.place - 1) 0)).take longer
    | none => ({ p with waiting := none }.copy m).move (m.length - 1)
  | none =>
    match w.match? p.place (shortest - 1) with
    | some m => p.take m
    | none => (p.literal (w.data.getD p.place 0)).move 1

/-- The blocks of all data. Each place takes at least one byte. -/
def run (w : Window) : Nat → Progress → Progress
  | 0, p => p
  | fuel + 1, p =>
    if w.data.size ≤ p.place then p
    else
      let p := p.step w
      run w fuel (if p.full then p.close w.data else p)

end Progress

/-- The blocks of a piece of data. The last one may be empty. -/
def blocks (data : Bytes) : List Block :=
  let w := Window.ofBytes data
  let p := Progress.run w data.length ⟨0, none, [], 0, 0, 0, 0, []⟩
  (p.close w.data).blocks.reverse

end Jarsmith.Token
