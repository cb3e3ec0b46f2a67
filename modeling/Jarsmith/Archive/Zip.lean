import Jarsmith.Archive.Deflate
import Jarsmith.Archive.Entry
import Jarsmith.Archive.Inflate
import Jarsmith.OrderedMap
import Jarsmith.Text.Utf8

/-!
# Zip archives

The bytes of an archive: the entries one after another, a directory that lists them with their
places, and a last record that says where the directory stands. The library deflates the data that
it writes, and reads data that is written as it is or deflated.

* `Crc32.sum` is the check sum of the data of an entry.
* `Zip.write` gives the bytes of an archive; `Zip.read` gives the entries that bytes hold.
-/

namespace Jarsmith

-- ---------------------------------------------------------------------------
-- Check sums
-- ---------------------------------------------------------------------------

namespace Crc32

/-- The remainder after one more bit. The data is read as a polynomial over two elements and divided
by a fixed one, both with their bits reversed. -/
def bit (r : UInt32) : UInt32 :=
  if r &&& 1 = 1 then (r >>> 1) ^^^ 0xEDB88320 else r >>> 1

/-- The remainder after one more byte. -/
def step (r : UInt32) (b : UInt8) : UInt32 :=
  bit (bit (bit (bit (bit (bit (bit (bit (r ^^^ b.toUInt32))))))))

/-- The check sum of `bytes`. -/
def sum (bytes : Bytes) : UInt32 := bytes.foldl step 0xFFFFFFFF ^^^ 0xFFFFFFFF

end Crc32

-- ---------------------------------------------------------------------------
-- Records
-- ---------------------------------------------------------------------------

/-- The `w` lowest bytes of `n`, lowest first. -/
def little (w n : Nat) : Bytes := (big w n).reverse

/-- The next `w` bytes as a number, lowest byte first. -/
def Reader.little (w : Nat) : Reader Nat := (fun bytes => ofBig bytes.reverse) <$> Reader.take w

namespace Zip

def localSignature : Bytes := [0x50, 0x4B, 0x03, 0x04]
def directorySignature : Bytes := [0x50, 0x4B, 0x01, 0x02]
def endSignature : Bytes := [0x50, 0x4B, 0x05, 0x06]

-- ---------------------------------------------------------------------------
-- Writing
-- ---------------------------------------------------------------------------

/-- An entry in its written form. -/
structure Packed where
  entry : ArchiveEntry
  name : Bytes
  data : Bytes

/-- Whether an entry is a directory. -/
def isDirectory (e : ArchiveEntry) : Bool := e.name.endsWith "/"

/-- Packs an entry. A directory has no data. -/
def pack (e : ArchiveEntry) : Packed :=
  ⟨e, Utf8.encode e.name, if isDirectory e then [] else Deflate.pack e.data⟩

/-- What both records of an entry say about it: names outside ASCII are marked as UTF-8, and data is
deflated. -/
def description (p : Packed) : Bytes :=
  let time := p.entry.time.getD .first
  let data := if isDirectory p.entry then [] else p.entry.data
  let marks := if p.name.all (· < 128) then 0 else 0x0800
  let method := if isDirectory p.entry then 0 else 8
  little 2 20 ++ little 2 marks ++ little 2 method ++ little 2 time.time.toNat
    ++ little 2 time.date.toNat ++ little 4 (Crc32.sum data).toNat ++ little 4 p.data.length
    ++ little 4 data.length ++ little 2 p.name.length ++ little 2 0

/-- An entry with its data. -/
def localRecord (p : Packed) : Bytes := localSignature ++ description p ++ p.name ++ p.data

/-- The kind of a file and who may use it: everyone may read it, and the owner may write it. -/
def permissions (e : ArchiveEntry) : Nat := if isDirectory e then 0o40755 else 0o100644

/-- The line of the directory for an entry that stands at `place`. -/
def directoryRecord (place : Nat) (p : Packed) : Bytes :=
  directorySignature ++ [20, 3] ++ description p ++ little 2 0 ++ little 2 0 ++ little 2 0
    ++ little 4 (permissions p.entry * 65536) ++ little 4 place ++ p.name

/-- The directory of entries of which the first stands at `place`. -/
def directory (place : Nat) : List Packed → Bytes
  | [] => []
  | p :: more => directoryRecord place p ++ directory (place + (localRecord p).length) more

/-- The bytes of an archive. -/
def write (entries : List ArchiveEntry) : Bytes :=
  let packed := entries.map pack
  let records := packed.flatMap localRecord
  let directory := directory 0 packed
  let count := little 2 entries.length
  records ++ directory ++ endSignature ++ little 2 0 ++ little 2 0 ++ count ++ count
    ++ little 4 directory.length ++ little 4 records.length ++ little 2 0

-- ---------------------------------------------------------------------------
-- Reading
-- ---------------------------------------------------------------------------

/-- Takes exactly the bytes of `signature`. -/
def signature (expected : Bytes) : Reader Unit := do
  let found ← Reader.take expected.length
  if found = expected then pure () else failure

/-- What a line of the directory says. -/
structure Line where
  method : Nat
  time : Option DosTime
  packedSize : Nat
  place : Nat
  name : String

/-- The next line of the directory. -/
def line : Reader Line := do
  signature directorySignature
  let _ ← Reader.take 6
  let method ← Reader.little 2
  let time ← Reader.little 2
  let date ← Reader.little 2
  let _ ← Reader.little 4
  let packedSize ← Reader.little 4
  let _ ← Reader.little 4
  let nameLength ← Reader.little 2
  let extraLength ← Reader.little 2
  let commentLength ← Reader.little 2
  let _ ← Reader.take 8
  let place ← Reader.little 4
  let name ← Reader.take nameLength
  let _ ← Reader.take (extraLength + commentLength)
  let time := DosTime.ofWords? (UInt16.ofNat date) (UInt16.ofNat time)
  pure ⟨method, time, packedSize, place, Utf8.lenient name⟩

/-- The packed data of an entry, whose record stands at the front of the bytes. -/
def packedData (size : Nat) : Reader Bytes := do
  signature localSignature
  let _ ← Reader.take 22
  let nameLength ← Reader.little 2
  let extraLength ← Reader.little 2
  let _ ← Reader.take (nameLength + extraLength)
  Reader.take size

/-- The entry that a line of the directory of `archive` describes. -/
def entry (archive : Bytes) (l : Line) : Option ArchiveEntry := do
  let packed ← Reader.front (packedData l.packedSize) (archive.drop l.place)
  let data ← match l.method with
    | 0 => some packed
    | 8 => Inflate.unpack packed
    | _ => none
  some ⟨l.name, l.time, data⟩

/-- The number of entries and the place of the directory, as the last record says. -/
def lastRecord : Reader (Nat × Nat) := do
  signature endSignature
  let _ ← Reader.take 6
  let count ← Reader.little 2
  let _ ← Reader.little 4
  let place ← Reader.little 4
  pure (count, place)

/-- What the last record says: the one that starts last, or `found` if there is none. -/
def findLast (found : Option (Nat × Nat)) : Bytes → Option (Nat × Nat)
  | [] => found
  | b :: rest => findLast ((Reader.front lastRecord (b :: rest)).or found) rest

/-- The entries of the archive that bytes hold. Of two entries with one name the later one counts,
at the place of the first. -/
def read (archive : Bytes) : Option (List ArchiveEntry) := do
  let (count, place) ← findLast none archive
  let lines ← Reader.front (Reader.times count line) (archive.drop place)
  (OrderedMap.ofList (lines.map fun l => (l.name, l))).values.mapM (entry archive)

end Zip

namespace Content

/-- The bytes of a file. -/
def bytes : Content → Bytes
  | raw bytes => bytes
  | archive entries => Zip.write entries

/-- The entries of a file that is an archive. -/
def entries? : Content → Option (List ArchiveEntry)
  | raw bytes => Zip.read bytes
  | archive entries => some entries

/-- Whether the file starts like an archive. -/
def looksPacked : Content → Bool
  | raw bytes => [0x50, 0x4B].isPrefixOf bytes
  | archive _ => true

/-- A file that holds a text. -/
def ofText (text : String) : Content := .raw (Utf8.encode text)

/-- The text of a file, with the replacement character for what is not well formed. -/
def text (c : Content) : String := Utf8.lenient c.bytes

end Content

end Jarsmith
