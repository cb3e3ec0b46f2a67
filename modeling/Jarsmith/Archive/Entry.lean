import Jarsmith.Bytes
import Jarsmith.Moment

/-!
# Entries of archives

What an archive holds: named pieces of data with a time of the resolution that archives have.
-/

namespace Jarsmith

/-- A date and a time of day, packed into two words: years from 1980 on, and seconds in steps of
two. -/
structure DosTime where
  date : UInt16
  time : UInt16
  deriving DecidableEq, Repr

namespace DosTime

/-- Packs a date and a time of day. -/
def pack (year month day hour minute second : Nat) : DosTime :=
  ⟨UInt16.ofNat ((year - 1980) * 512 + month * 32 + day),
    UInt16.ofNat (hour * 2048 + minute * 32 + min second 58 / 2)⟩

/-- The first moment that can be packed. -/
def first : DosTime := pack 1980 1 1 0 0 0

def year (t : DosTime) : Nat := 1980 + t.date.toNat / 512
def month (t : DosTime) : Nat := t.date.toNat / 32 % 16
def day (t : DosTime) : Nat := t.date.toNat % 32
def hour (t : DosTime) : Nat := t.time.toNat / 2048
def minute (t : DosTime) : Nat := t.time.toNat / 32 % 64
def second (t : DosTime) : Nat := t.time.toNat % 32 * 2

/-- The moment that two words pack, if there is one. A leap second counts as the one before it. -/
def ofWords? (date time : UInt16) : Option DosTime :=
  let t : DosTime := ⟨date, time⟩
  if 1 ≤ t.month ∧ t.month ≤ 12 ∧ 1 ≤ t.day ∧ t.day ≤ Date.daysIn t.year t.month
      ∧ t.hour ≤ 23 ∧ t.minute ≤ 59 ∧ t.second ≤ 60 then
    some (pack t.year t.month t.day t.hour t.minute t.second)
  else none

end DosTime

/-- An entry of an archive. A name that ends in `/` is the name of a directory. An entry without a
time has that at which it is written. -/
structure ArchiveEntry where
  name : String
  time : Option DosTime
  data : Bytes
  deriving DecidableEq

/-- The entry with its own time, or with the time at which it is written. -/
def ArchiveEntry.stamped (clock : String → DosTime) (e : ArchiveEntry) : ArchiveEntry :=
  { e with time := some (e.time.getD (clock e.name)) }

/-- What a file holds. An archive that the library wrote is kept as its entries: its bytes are made
from them when they are asked for. -/
inductive Content where
  | raw (bytes : Bytes)
  | archive (entries : List ArchiveEntry)
  deriving DecidableEq

instance : Inhabited Content := ⟨.raw []⟩

end Jarsmith
