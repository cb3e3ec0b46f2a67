import Jarsmith.Proofs.ClassFile.Constants

/-!
# Reading and writing class files

A class file that was read is written back as it was. The only thing that the written form does not
show by itself is the number of slots of the pool: a constant of two slots in the last slot that the
file announces makes the pool longer than announced.

* `Pool.toBytes_ofConstants`, `Pool.read_written` — a pool is written constant by constant, and read
  back.
* `Pool.size_of_read`, `Pool.toBytes_of_read` — a pool that was read.
* `ClassFile.toBytes_of_read`, `ClassFile.toBytes_parse` — a class file.
-/

namespace Jarsmith

open Outcome Reader

variable {bytes rest : Bytes}

-- ---------------------------------------------------------------------------
-- Pools
-- ---------------------------------------------------------------------------

/-- The slot behind a wide constant writes nothing. -/
theorem Constant.toBytes_slots {list : List Constant}
    (hList : ∀ k ∈ list, k ≠ .unusable ∧ k.TextFits) :
    ∃ slots, (list.flatMap Pool.slotsOf).mapM toBytes = .ok slots ∧
      slots.flatten = list.flatMap written := by
  induction list with
  | nil => exact ⟨[], rfl, rfl⟩
  | cons k more ih =>
    obtain ⟨⟨hUsable, hText⟩, hMore⟩ := List.forall_mem_cons.1 hList
    have hWritten := toBytes_of_textFits hUsable hText
    obtain ⟨slots, hSlots, hFlat⟩ := ih hMore
    rw [List.flatMap_cons, List.mapM_append, hSlots, Pool.slotsOf]
    split
    · refine ⟨[k.written, []] ++ slots, ?_, by simp [hFlat]⟩
      rw [List.mapM_cons, hWritten]
      rfl
    · refine ⟨[k.written] ++ slots, ?_, by simp [hFlat]⟩
      rw [List.mapM_cons, hWritten]
      rfl

namespace Pool

variable {pool : Pool} {list : List Constant}

theorem entries_ofConstants (list : List Constant) :
    (ofConstants list).entries.toList = .unusable :: list.flatMap slotsOf := by
  have hFold : ∀ pool : Pool,
      (list.foldl append pool).entries.toList = pool.entries.toList ++ list.flatMap slotsOf := by
    induction list with
    | nil => exact fun pool => (List.append_nil _).symm
    | cons c more ih =>
      intro pool
      rw [List.foldl_cons, ih, entries_append, Array.toList_append, List.flatMap_cons,
        List.append_assoc]
  exact hFold empty

theorem size_ofConstants : (ofConstants list).size = (list.flatMap slotsOf).length + 1 := by
  rw [size, ← Array.length_toList, entries_ofConstants, List.length_cons]

/-- The written form of a pool that holds `list`. -/
def written (list : List Constant) : Bytes :=
  putU16 (UInt16.ofNat (ofConstants list).size) ++ list.flatMap Constant.written

/-- What is written of a pool depends on its slots only. -/
theorem toBytes_of_slots (hSlots : pool.entries.toList = .unusable :: list.flatMap slotsOf)
    (hList : ∀ k ∈ list, k ≠ .unusable ∧ k.TextFits) (hSize : pool.size < 65536) :
    pool.toBytes = .ok (written list) := by
  obtain ⟨slots, hBytes, hFlat⟩ := Constant.toBytes_slots hList
  have hCount : count16 pool.size "constants" = .ok (UInt16.ofNat pool.size) :=
    count16_eq_ok.2 ⟨hSize, rfl⟩
  have hSame : (ofConstants list).size = pool.size := by
    rw [size_ofConstants, size, ← Array.length_toList, hSlots, List.length_cons]
  rw [toBytes, hCount, hSlots, List.drop_one, List.tail_cons, hBytes, written, hSame, ← hFlat]
  rfl

theorem toBytes_ofConstants (hFits : ∀ k ∈ list, k.Fits)
    (hSize : (ofConstants list).size < 65536) :
    (ofConstants list).toBytes = .ok (written list) :=
  toBytes_of_slots (entries_ofConstants list)
    (fun k hk => ⟨(hFits k hk).usable, (hFits k hk).textFits⟩) hSize

theorem read_written (hFits : ∀ k ∈ list, k.Fits) (hSize : (ofConstants list).size < 65536) :
    read (written list ++ rest) = some (ofConstants list, rest) := by
  have hCount : (UInt16.ofNat (ofConstants list).size).toNat = (ofConstants list).size :=
    UInt16.toNat_ofNat_of_lt' hSize
  refine bind_eq_some.2 ⟨UInt16.ofNat (ofConstants list).size, list.flatMap Constant.written ++ rest,
    reads_u16.eq_some.2 ⟨trivial, List.append_assoc _ _ _⟩, ?_⟩
  rw [if_neg, hCount, size_ofConstants, Nat.add_sub_cancel]
  · exact map_eq_some.2 ⟨list, Constant.readMany_written hFits, rfl⟩
  · intro hZero
    rw [hZero, size_ofConstants] at hCount
    cases hCount

/-- Inverts the reader of pools. -/
theorem read_eq_some (hRead : read bytes = some (pool, rest)) :
    ∃ (count : UInt16) (list : List Constant), 0 < count.toNat ∧ ofConstants list = pool ∧
      (∀ k ∈ list, k.Fits) ∧ bytes = putU16 count ++ (list.flatMap Constant.written ++ rest) ∧
      (pool.size = count.toNat ∨ pool.size = count.toNat + 1 ∧
        ∃ c, pool.entries[count.toNat - 1]? = some c ∧ c.isWide = true) := by
  simp only [read, bind_eq_some, reads_u16.eq_some] at hRead
  obtain ⟨count, mid, ⟨-, rfl⟩, hRead⟩ := hRead
  split at hRead
  · exact absurd hRead failure_ne_some
  rename_i hCount
  obtain ⟨list, hList, rfl⟩ := map_eq_some.1 hRead
  have hPositive : 0 < count.toNat := Nat.pos_of_ne_zero fun h => hCount (UInt16.toNat_inj.1 h)
  obtain ⟨hFits, rfl⟩ := Constant.fits_of_readMany hList
  refine ⟨count, list, hPositive, rfl, hFits, rfl, ?_⟩
  obtain hLength | ⟨before, c, hSlots, hLength, hWide⟩ := Constant.slots_readMany hList
  · left
    rw [size_ofConstants, hLength]
    omega
  · right
    refine ⟨?_, c, ?_, hWide⟩
    · rw [size_ofConstants, hSlots, List.length_append]
      simp only [List.length_cons, List.length_nil]
      omega
    · rw [← Array.getElem?_toList, entries_ofConstants, hSlots, ← hLength]
      simp

/-- The number of slots that the bytes of a pool announce, slot 0 included. -/
def announced (bytes : Bytes) : Nat := ofBig (bytes.take 2)

theorem announced_putU16 (count : UInt16) (more : Bytes) :
    announced (putU16 count ++ more) = count.toNat := by
  rw [announced, putU16, List.take_left' (length_big 2 _), ofBig_big count.toNat_lt]

/-- A pool that was read has as many slots as were announced, unless a wide constant starts in the
last one. -/
theorem size_of_read (hRead : read bytes = some (pool, rest))
    (hInside : ∀ c ∈ pool.entries[announced bytes - 1]?, c.isWide = false) :
    pool.size = announced bytes := by
  obtain ⟨count, list, -, -, -, rfl, hSize | ⟨-, c, hLast, hWide⟩⟩ := read_eq_some hRead
  · rw [announced_putU16, hSize]
  · rw [announced_putU16] at hInside
    rw [hInside c hLast] at hWide
    cases hWide

/-- **A pool that was read** is written back as it was, unless a wide constant starts in the last
slot that was announced. -/
theorem toBytes_of_read (hRead : read bytes = some (pool, rest))
    (hInside : ∀ c ∈ pool.entries[announced bytes - 1]?, c.isWide = false) :
    ∃ written, pool.toBytes = .ok written ∧ bytes = written ++ rest := by
  have hSize := size_of_read hRead hInside
  obtain ⟨count, list, -, rfl, hFits, rfl, -⟩ := read_eq_some hRead
  rw [announced_putU16] at hSize
  refine ⟨written list, toBytes_ofConstants hFits (hSize ▸ count.toNat_lt), ?_⟩
  rw [written, hSize, UInt16.ofNat_toNat, List.append_assoc]

end Pool

-- ---------------------------------------------------------------------------
-- Class files
-- ---------------------------------------------------------------------------

namespace ClassFile

variable {c : ClassFile}

/-- The number of slots that the pool of a class file announces, slot 0 included. -/
def announcedSlots (bytes : Bytes) : Nat := ofBig ((bytes.drop 8).take 2)

/-- No constant of two slots starts in the last slot that the class file announces. -/
def EndsInside (bytes : Bytes) (pool : Pool) : Prop :=
  ∀ k ∈ pool.entries[announcedSlots bytes - 1]?, k.isWide = false

instance (bytes : Bytes) (pool : Pool) : Decidable (EndsInside bytes pool) :=
  inferInstanceAs (Decidable (∀ k ∈ pool.entries[announcedSlots bytes - 1]?, k.isWide = false))

/-- What stands behind the pool. -/
def behindPool (c : ClassFile) : Bytes :=
  putU16 c.access ++ putU16 c.thisClass ++ putIndex? c.superClass ++
    tableBytes putU16 c.interfaces ++ tableBytes Member.written c.fields ++
    tableBytes Member.written c.methods ++ tableBytes Attribute.written c.attributes

/-- The tables behind the pool fit. -/
structure TablesFit (c : ClassFile) : Prop where
  interfaces : c.interfaces.length < 65536
  fields : c.fields.length < 65536 ∧ ∀ m ∈ c.fields, m.Fits
  methods : c.methods.length < 65536 ∧ ∀ m ∈ c.methods, m.Fits
  attributes : Attribute.AllFit c.attributes

theorem TablesFit.toBytes {pool : Bytes} (h : c.TablesFit) (hPool : c.pool.toBytes = .ok pool) :
    c.toBytes =
      .ok (magic ++ putU16 c.minor ++ putU16 c.major ++ pool ++ c.behindPool) := by
  rw [ClassFile.toBytes, hPool, count16_eq_ok.2 ⟨h.interfaces, rfl⟩,
    Member.listToBytes_eq_ok "fields" h.fields, Member.listToBytes_eq_ok "methods" h.methods,
    Attribute.listToBytes_eq_ok.2 ⟨h.attributes.canWrite, rfl⟩]
  refine congrArg Except.ok ?_
  simp [behindPool, tableBytes]

/-- The tables fit, and the indices in front of them lead somewhere. -/
structure Fits (c : ClassFile) : Prop extends TablesFit c where
  thisClass : c.thisClass ≠ 0
  superClass : c.superClass ≠ some 0
  interfaceIndices : ∀ i ∈ c.interfaces, i ≠ 0

/-- Inverts the reader of class files. -/
theorem read_eq_some : read bytes = some (c, rest) ↔
    c.Fits ∧ ∃ mid, bytes = magic ++ (putU16 c.minor ++ (putU16 c.major ++ mid)) ∧
      Pool.read mid = some (c.pool, c.behindPool ++ rest) := by
  have hStart : ∀ more : Bytes, Reader.take 4 (magic ++ more) = some (magic, more) := fun more =>
    (reads_take 4).eq_some.2 ⟨rfl, rfl⟩
  constructor
  · intro hRead
    obtain ⟨start, _, hTaken, hRead⟩ := bind_eq_some.1 hRead
    split at hRead
    · obtain ⟨_, _, hFail, -⟩ := bind_eq_some.1 hRead
      exact absurd hFail failure_ne_some
    rename_i hMagic
    obtain rfl := not_not.1 hMagic
    simp only [bind_eq_some, pure_eq_some, reads_u16.eq_some, reads_index.eq_some,
      reads_index?.eq_some, (reads_table reads_index).eq_some,
      (reads_table Member.reads_read).eq_some, Attribute.reads_table.eq_some] at hRead
    obtain ⟨minor, _, ⟨-, rfl⟩, major, mid, ⟨-, rfl⟩, pool, behind, hPool, access, _, ⟨-, hBehind⟩,
      thisClass, _, ⟨hThis, rfl⟩, superClass, _, ⟨hSuper, rfl⟩, interfaces, _, ⟨hInterfaces, rfl⟩,
      fields, _, ⟨hFields, rfl⟩, methods, _, ⟨hMethods, rfl⟩, attributes, _, ⟨hAttributes, rfl⟩,
      rfl, rfl⟩ := hRead
    refine ⟨⟨⟨hInterfaces.1, hFields, hMethods, hAttributes⟩, hThis, hSuper, hInterfaces.2⟩, mid,
      ((reads_take 4).eq_some.1 hTaken).2, ?_⟩
    rw [hPool, hBehind]
    simp [behindPool]
  · rintro ⟨hFits, mid, rfl, hPool⟩
    refine bind_eq_some.2 ⟨magic, _, hStart _, ?_⟩
    rw [if_neg (not_not.2 rfl)]
    simp only [bind_eq_some, pure_eq_some, reads_u16.eq_some, reads_index.eq_some,
      reads_index?.eq_some, (reads_table reads_index).eq_some,
      (reads_table Member.reads_read).eq_some, Attribute.reads_table.eq_some]
    exact ⟨c.minor, _, ⟨trivial, rfl⟩, c.major, mid, ⟨trivial, rfl⟩, c.pool, _, hPool,
      c.access, _, ⟨trivial, by simp only [behindPool, List.append_assoc]⟩,
      c.thisClass, _, ⟨hFits.thisClass, rfl⟩, c.superClass, _, ⟨hFits.superClass, rfl⟩,
      c.interfaces, _, ⟨⟨hFits.interfaces, hFits.interfaceIndices⟩, rfl⟩,
      c.fields, _, ⟨hFits.fields, rfl⟩, c.methods, _, ⟨hFits.methods, rfl⟩,
      c.attributes, _, ⟨hFits.attributes, rfl⟩, rfl, rfl⟩

/-- What a class file announces is what its pool announces. -/
theorem announcedSlots_eq {minor major : UInt16} {mid : Bytes} :
    announcedSlots (magic ++ (putU16 minor ++ (putU16 major ++ mid))) = Pool.announced mid := by
  have hFront : (magic ++ (putU16 minor ++ putU16 major)).length = 8 := by simp [magic, putU16]
  rw [announcedSlots, ← List.append_assoc (putU16 minor), ← List.append_assoc magic,
    List.drop_left' hFront, Pool.announced]

/-- **A class file that was read** is written back as it was, unless a wide constant starts in the
last slot that was announced. -/
theorem toBytes_of_read (hRead : read bytes = some (c, rest)) (hInside : EndsInside bytes c.pool) :
    ∃ written, c.toBytes = .ok written ∧ bytes = written ++ rest := by
  obtain ⟨hFits, mid, rfl, hPool⟩ := read_eq_some.1 hRead
  rw [EndsInside, announcedSlots_eq] at hInside
  obtain ⟨pool, hWritten, rfl⟩ := Pool.toBytes_of_read hPool hInside
  exact ⟨_, hFits.toBytes hWritten, by simp⟩

/-- **Reading and writing are inverse.** A class file that is accepted can be written, comes out as
it went in, and is read as the same class file again. A file must announce both slots of a wide
constant: one that announces only the first slot of the last constant grows by a slot. -/
theorem toBytes_parse (hParse : parse bytes = .ok c) (hInside : EndsInside bytes c.pool) :
    c.toBytes = .ok bytes ∧ (c.toBytes >>= parse) = .ok c := by
  obtain ⟨written, hWritten, hBytes⟩ :=
    toBytes_of_read (decode_eq_ok.1 (decode_of_parse hParse)) hInside
  obtain rfl : bytes = written := hBytes.trans (List.append_nil _)
  exact ⟨hWritten, by rw [hWritten]; exact hParse⟩

/-- A class file with a wide constant, a superclass, a field and an attribute. -/
def wideConstantBytes : Bytes :=
  [0xCA, 0xFE, 0xBA, 0xBE, 0, 0, 0, 52, 0, 8, 1, 0, 1, 97, 7, 0, 1, 5, 0, 0, 0, 1, 0, 0, 0, 2,
    1, 0, 1, 98, 7, 0, 5, 1, 0, 1, 73, 0, 0x20, 0, 2, 0, 6, 0, 0, 0, 1, 0, 2, 0, 1, 0, 7, 0, 0,
    0, 0, 0, 1, 0, 1, 0, 0, 0, 2, 0, 5]

def wideConstant : ClassFile :=
  ⟨0, 52, Pool.ofConstants [.utf8 [97], .classRef 1, .long 0x100000002, .utf8 [98], .classRef 5,
      .utf8 [73]], 0x20, 2, some 6, [], [⟨2, 1, 7, []⟩], [], [⟨1, [0, 5]⟩]⟩

theorem toBytes_parse_wideConstant :
    parse wideConstantBytes = .ok wideConstant ∧
      wideConstant.toBytes = .ok wideConstantBytes := by
  have hParse : parse wideConstantBytes = .ok wideConstant := rfl
  exact ⟨hParse, (toBytes_parse hParse (by decide)).1⟩

end ClassFile

end Jarsmith
