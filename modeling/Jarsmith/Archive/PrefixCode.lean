import Jarsmith.Bytes

/-!
# Prefix codes and tokens

A prefix code gives each symbol a word of bits, and no word starts another one. The words are
settled by their lengths alone: those of one length are consecutive numbers in the order of their
symbols.

A code that spells a text in few bits gives short words to the symbols that are used often. Two
groups of symbols that are used least are joined until one group is left; each join makes the words
of the group longer by a bit. Only how many words have each length is taken from there: the lengths
are then brought under a limit, and handed out so that a symbol that is used more often never has a
longer word.

Packed data spells its bytes as tokens: a byte itself, or a back reference that repeats earlier
bytes. The tables say which symbol stands for which token: symbols below 256 are bytes, symbol 256
ends a block, and from 257 on they are lengths of back references, whose distances have symbols of
their own.

* `PrefixCode.words` gives the words for given lengths, and `PrefixCode.ofLengths` the tree that
  reads them.
* `PrefixCode.lengthsFor` gives the lengths of the words for given numbers of uses.
* `Token` — what packed data is made of.
-/

namespace Jarsmith

/-- A prefix code, as the tree of its words. -/
inductive PrefixCode where
  | empty
  | leaf (symbol : Nat)
  | node (zero one : PrefixCode)

namespace PrefixCode

/-- The longest word of any code. -/
def longest : Nat := 15

/-- The bits of `value`, `width` of them, highest first. -/
def word (width value : Nat) : List Bool :=
  ((List.range width).map fun i => value.testBit i).reverse

/-- The first word of each length from 1 on, as a number: it follows the words that are shorter. -/
def firstWords (lengths : List Nat) : List Nat :=
  (List.range longest).foldl (fun firsts i =>
    let previous := if i = 0 then 0 else lengths.count i
    firsts ++ [(firsts.getLastD 0 + previous) * 2]) []

/-- The words of the given lengths, symbol by symbol; a symbol of length 0 has the empty one. The
next word of each length, as a number, stands in `next`. -/
def wordsFrom (next : List Nat) : List Nat → List (List Bool)
  | [] => []
  | 0 :: lengths => [] :: wordsFrom next lengths
  | (width + 1) :: lengths =>
    let value := next.getD width 0
    word (width + 1) value :: wordsFrom (next.set width (value + 1)) lengths

/-- The words of the given lengths, symbol by symbol. -/
def words (lengths : List Nat) : List (List Bool) := wordsFrom (firstWords lengths) lengths

/-- The code with one more word, whose bits are given from the first to the last. -/
def insert (symbol : Nat) : List Bool → PrefixCode → PrefixCode
  | [], _ => leaf symbol
  | b :: bits, code =>
    let (zero, one) := match code with
      | node zero one => (zero, one)
      | _ => (empty, empty)
    if b then node zero (insert symbol bits one) else node (insert symbol bits zero) one

/-- The code whose words have the given lengths, symbol by symbol; a symbol of length 0 has no
word. -/
def ofLengths (lengths : List Nat) : PrefixCode :=
  (words lengths).zipIdx.foldl
    (fun code (bits, symbol) => if bits.isEmpty then code else code.insert symbol bits) empty

end PrefixCode

end Jarsmith

-- ---------------------------------------------------------------------------
-- Lengths of words by use
-- ---------------------------------------------------------------------------

namespace Jarsmith.PrefixCode

/-- Symbols whose words share their first bits. -/
structure Group where
  /-- How often the symbols are used. -/
  uses : Nat
  /-- How many bits follow the shared ones in each word. -/
  depths : List Nat

/-- Two groups as one. -/
def Group.join (a b : Group) : Group := ⟨a.uses + b.uses, (a.depths ++ b.depths).map (· + 1)⟩

/-- The group that is used least, and those that are left. Both lists are in the order of their
uses; of equals the first list goes first. -/
def leastUsed : List Group → List Group → Option (Group × List Group × List Group)
  | [], [] => none
  | single :: singles, [] => some (single, singles, [])
  | [], joined :: more => some (joined, [], more)
  | single :: singles, joined :: more =>
    if joined.uses < single.uses then some (joined, single :: singles, more)
    else some (single, singles, joined :: more)

/-- The depths after all joins of single symbols and joined groups. Each join leaves one group
less. -/
def depthsOf : Nat → List Group → List Group → List Nat
  | 0, _, _ => []
  | fuel + 1, singles, joined =>
    match leastUsed singles joined with
    | none => []
    | some (a, singles, joined) =>
      match leastUsed singles joined with
      | none => a.depths
      | some (b, singles, joined) => depthsOf fuel singles (joined ++ [a.join b])

/-- The place, below `n`, of the last number that is not zero. -/
def lastUsed (counts : List Nat) : Nat → Option Nat
  | 0 => none
  | n + 1 => if counts.getD n 0 ≠ 0 then some n else lastUsed counts n

/-- Makes room for `excess` words of the greatest length `limit`, of which there are too many:
each time the last shorter word becomes longer by a bit, and one of the greatest length stands
beside it. -/
def relieve (limit : Nat) : Nat → List Nat → List Nat
  | 0, counts => counts
  | excess + 1, counts =>
    let counts := counts.modify limit (· - 1)
    relieve limit excess <|
      match lastUsed counts limit with
      | some i => (counts.modify i (· - 1)).modify (i + 1) (· + 2)
      | none => counts

/-- How many words have each length from 0 up to `limit`. -/
def countLengths (limit : Nat) (depths : List Nat) : List Nat :=
  let capped := depths.map fun depth => min (max depth 1) limit
  let counts := (List.range (limit + 1)).map capped.count
  if depths.length ≤ 1 then counts
  else
    let total := capped.foldl (fun total depth => total + (1 <<< (limit - depth))) 0
    relieve limit (total - (1 <<< limit)) counts

/-- The lengths, at most `limit`, of the words for symbols that are used as often as `uses` says,
symbol by symbol. A symbol that is not used gets no word. -/
def lengthsFor (limit : Nat) (uses : Array Nat) : List Nat :=
  let used := (uses.toList.zipIdx.filter fun (n, _) => n ≠ 0).mergeSort fun a b => a.1 ≤ b.1
  let depths := depthsOf (used.length + 1) (used.map fun (n, _) => ⟨n, [0]⟩) []
  let widths := (countLengths limit depths).zipIdx.flatMap fun (n, width) => List.replicate n width
  let handed := used.reverse.zip widths
  (handed.foldl (fun lengths ((_, symbol), width) => lengths.setIfInBounds symbol width)
    (Array.replicate uses.size 0)).toList

end Jarsmith.PrefixCode

-- ---------------------------------------------------------------------------
-- Tokens
-- ---------------------------------------------------------------------------

namespace Jarsmith

/-- What packed data is made of. -/
inductive Token where
  | literal (byte : UInt8)
  | copy (length distance : Nat)
  deriving DecidableEq, Repr

namespace Token

/-- The shortest length of a back reference and its number of extra bits, by symbol from 257 on. -/
def lengthTable : List (Nat × Nat) :=
  [(3, 0), (4, 0), (5, 0), (6, 0), (7, 0), (8, 0), (9, 0), (10, 0), (11, 1), (13, 1), (15, 1),
    (17, 1), (19, 2), (23, 2), (27, 2), (31, 2), (35, 3), (43, 3), (51, 3), (59, 3), (67, 4),
    (83, 4), (99, 4), (115, 4), (131, 5), (163, 5), (195, 5), (227, 5), (258, 0)]

/-- The shortest distance of a back reference and its number of extra bits, by symbol. -/
def distanceTable : List (Nat × Nat) :=
  [(1, 0), (2, 0), (3, 0), (4, 0), (5, 1), (7, 1), (9, 2), (13, 2), (17, 3), (25, 3), (33, 4),
    (49, 4), (65, 5), (97, 5), (129, 6), (193, 6), (257, 7), (385, 7), (513, 8), (769, 8),
    (1025, 9), (1537, 9), (2049, 10), (3073, 10), (4097, 11), (6145, 11), (8193, 12), (12289, 12),
    (16385, 13), (24577, 13)]

/-- The symbol that ends a block. -/
def endOfBlock : Nat := 256

/-- The symbol of a table for a number: the last one that does not exceed it, with its shortest
value and its number of extra bits. -/
def symbolOf (table : List (Nat × Nat)) (n : Nat) : Nat × Nat × Nat :=
  let symbol := (table.takeWhile fun (base, _) => base ≤ n).length - 1
  (symbol, table.getD symbol (0, 0))

/-- The lengths of the words of the fixed code for bytes and lengths. -/
def fixedLengths : List Nat :=
  List.replicate 144 8 ++ List.replicate 112 9 ++ List.replicate 24 7 ++ List.replicate 8 8

/-- The lengths of the words of the fixed code for distances. -/
def fixedDistances : List Nat := List.replicate 30 5

/-- The order in which the lengths of the words for lengths are written. -/
def lengthOrder : List Nat := [16, 17, 18, 0, 8, 7, 9, 6, 10, 5, 11, 4, 12, 3, 13, 2, 14, 1, 15]

end Token

end Jarsmith
