import Jarsmith.ClassFile.Code
import Jarsmith.ClassFile.Structure
import Jarsmith.Proofs.Bytes.Codec
import Jarsmith.Proofs.Outcome

/-!
# The tables of class files

Every reader of an attribute, a member or a row of a table is the inverse of the written form. A
written form exists only for values that fit: an index that must lead somewhere is not zero, and a
count fits into its bytes.

* `Reader.reads_index`, `Reader.reads_index?` — indices.
* `Attribute.reads_read`, `Member.reads_read` — attributes and members; `Attribute.listToBytes_eq_ok`
  says when a list of attributes can be written.
* `LocalVariable.reads_read`, `InnerClass.reads_read`, `EnclosingMethod.reads_read`,
  `RecordComponent.reads_read`, `MethodParameter.reads_read` — the rows of typed attributes.
* `Code.split_eq_ok` — the pieces of a method body.
-/

namespace Jarsmith

open Outcome Reader

theorem count16_eq_ok {n : Nat} {what : String} {k : UInt16} :
    count16 n what = .ok k ↔ n < 65536 ∧ UInt16.ofNat n = k := by
  unfold count16
  split
  · rename_i hBound
    simp [hBound]
  · rename_i hBound
    simp [hBound]

/-- Rows behind their number can be written if the number fits. -/
theorem countedRows_eq_ok {α : Type} {w : α → Bytes} {rows : List α} {what : String}
    {bytes : Bytes} :
    (do pure (putU16 (← count16 rows.length what) ++ rows.flatMap w) : ClassResult Bytes) =
      .ok bytes ↔ rows.length < 65536 ∧ tableBytes w rows = bytes := by
  simp only [bind_ok_iff, pure_ok_iff, count16_eq_ok]
  constructor
  · rintro ⟨_, ⟨hLength, rfl⟩, rfl⟩
    exact ⟨hLength, rfl⟩
  · rintro ⟨hLength, rfl⟩
    exact ⟨_, ⟨hLength, rfl⟩, rfl⟩

theorem decoded_eq_ok {α : Type} {o : Option α} {v : α} : decoded o = .ok v ↔ o = some v := by
  cases o <;> simp [decoded]

namespace Reader

variable {α : Type} {r : Reader α} {w : α → Bytes} {P : α → Prop} {info : Bytes} {v : α}

theorem reads_index : Reads index putU16 (· ≠ 0) where
  eq_some {bytes i rest} := by
    simp only [index, bind_eq_some, reads_u16.eq_some, true_and]
    constructor
    · rintro ⟨i, _, rfl, h⟩
      split at h
      · exact absurd h failure_ne_some
      · obtain ⟨rfl, rfl⟩ := pure_eq_some.1 h
        exact ⟨‹_›, rfl⟩
    · rintro ⟨hIndex, rfl⟩
      refine ⟨i, rest, rfl, ?_⟩
      rw [if_neg hIndex]
      rfl

/-- A missing index is written as zero, so zero is never an index that is there. -/
theorem reads_index? : Reads index? putIndex? (· ≠ some 0) where
  eq_some {bytes i rest} := by
    simp only [index?, bind_eq_some, reads_u16.eq_some, pure_eq_some, true_and]
    constructor
    · rintro ⟨i, _, rfl, rfl, rfl⟩
      split
      · rename_i hZero
        exact ⟨nofun, by rw [hZero]; rfl⟩
      · rename_i hIndex
        exact ⟨fun h => hIndex (Option.some.inj h), rfl⟩
    · rintro ⟨hIndex, rfl⟩
      refine ⟨i.getD 0, rest, rfl, ?_, rfl⟩
      cases i with
      | none => rfl
      | some i => exact if_neg fun hZero => hIndex (congrArg some hZero)

/-- A view that reads the front of a body, if there is nothing behind it. -/
theorem Reads.eq_of_front (h : Reads r w P) (hEnds : ∀ v rest, r info = some (v, rest) → rest = [])
    (hFront : decoded (front r info) = .ok v) : P v ∧ info = w v := by
  obtain ⟨⟨v, rest⟩, hRead, rfl⟩ := Option.map_eq_some_iff.1 (decoded_eq_ok.1 hFront)
  obtain rfl := hEnds v rest hRead
  obtain ⟨hv, hInfo⟩ := h.eq_some.1 hRead
  exact ⟨hv, hInfo.trans (List.append_nil _)⟩

/-- What a view reads fits, whatever follows it. -/
theorem Reads.fits_of_front (h : Reads r w P) (hFront : decoded (front r info) = .ok v) : P v := by
  obtain ⟨⟨v, rest⟩, hRead, rfl⟩ := Option.map_eq_some_iff.1 (decoded_eq_ok.1 hFront)
  exact (h.eq_some.1 hRead).1

/-- A written form is read back. -/
theorem Reads.front_eq (h : Reads r w P) (hv : P v) : decoded (front r (w v)) = .ok v := by
  have hRead : r (w v) = some (v, []) := h.eq_some.2 ⟨hv, (List.append_nil _).symm⟩
  rw [front, hRead]
  rfl

end Reader

-- ---------------------------------------------------------------------------
-- Attributes and members
-- ---------------------------------------------------------------------------

namespace Attribute

variable {a : Attribute} {l : List Attribute} {bytes : Bytes}

/-- The written form of an attribute that fits. -/
def written (a : Attribute) : Bytes := putU16 a.name ++ big 4 a.info.length ++ a.info

/-- The name leads somewhere, and the length of the body fits into four bytes. -/
structure Fits (a : Attribute) : Prop where
  name : a.name ≠ 0
  info : a.info.length < UInt32.size

/-- The attributes fit, and so does their number. -/
def AllFit (l : List Attribute) : Prop := l.length < 65536 ∧ ∀ a ∈ l, a.Fits

theorem reads_read : Reads read written Fits where
  eq_some {bytes a rest} := by
    simp only [read, bind_eq_some, pure_eq_some, reads_index.eq_some, reads_u32.eq_some,
      (reads_take _).eq_some, id]
    constructor
    · rintro ⟨name, _, ⟨hName, rfl⟩, _, _, ⟨hBound, rfl⟩, info, _, ⟨rfl, rfl⟩, rfl, rfl⟩
      exact ⟨⟨hName, hBound⟩, by simp [written]⟩
    · rintro ⟨hFits, rfl⟩
      exact ⟨a.name, _, ⟨hFits.name, by rw [written, List.append_assoc, List.append_assoc]⟩,
        _, _, ⟨hFits.info, rfl⟩, a.info, _, ⟨rfl, rfl⟩, rfl, rfl⟩

theorem reads_table : Reads (table read) (tableBytes written) AllFit := Reader.reads_table reads_read

theorem toBytes_eq_ok : a.toBytes = .ok bytes ↔ a.info.length < UInt32.size ∧ a.written = bytes := by
  unfold toBytes
  split
  · rename_i hBound
    simp [hBound, written]
  · rename_i hBound
    simp [hBound]

/-- The number of the attributes fits, and so does the length of each body. -/
def CanWrite (l : List Attribute) : Prop :=
  l.length < 65536 ∧ ∀ a ∈ l, a.info.length < UInt32.size

theorem AllFit.canWrite (h : AllFit l) : CanWrite l := ⟨h.1, fun a hMem => (h.2 a hMem).info⟩

theorem listToBytes_eq_ok :
    listToBytes l = .ok bytes ↔ CanWrite l ∧ tableBytes written l = bytes := by
  simp only [listToBytes, bind_ok_iff, pure_ok_iff, count16_eq_ok,
    mapM_ok_iff fun _ _ => toBytes_eq_ok]
  constructor
  · rintro ⟨_, ⟨hLength, rfl⟩, _, ⟨hAll, rfl⟩, rfl⟩
    exact ⟨⟨hLength, hAll⟩, by rw [tableBytes, List.flatMap_def]⟩
  · rintro ⟨⟨hLength, hAll⟩, rfl⟩
    exact ⟨_, ⟨hLength, rfl⟩, _, ⟨hAll, rfl⟩, by rw [tableBytes, List.flatMap_def]⟩

/-- Attributes behind something that is written as it is. -/
theorem behind_eq_ok {start : Bytes} :
    (do pure (start ++ (← listToBytes l)) : ClassResult Bytes) = .ok bytes ↔
      CanWrite l ∧ start ++ tableBytes written l = bytes := by
  simp only [bind_ok_iff, pure_ok_iff, listToBytes_eq_ok]
  constructor
  · rintro ⟨_, ⟨hFit, rfl⟩, rfl⟩
    exact ⟨hFit, rfl⟩
  · rintro ⟨hFit, rfl⟩
    exact ⟨_, ⟨hFit, rfl⟩, rfl⟩

end Attribute

namespace Member

variable {m : Member} {bytes : Bytes}

/-- The written form of a member that fits. -/
def written (m : Member) : Bytes :=
  putU16 m.access ++ putU16 m.name ++ putU16 m.descriptor ++ tableBytes Attribute.written m.attributes

/-- The name and the descriptor lead somewhere, and the attributes fit. -/
structure Fits (m : Member) : Prop where
  name : m.name ≠ 0
  descriptor : m.descriptor ≠ 0
  attributes : Attribute.AllFit m.attributes

theorem reads_read : Reads read written Fits where
  eq_some {bytes m rest} := by
    simp only [read, bind_eq_some, pure_eq_some, reads_u16.eq_some, reads_index.eq_some,
      Attribute.reads_table.eq_some, true_and]
    constructor
    · rintro ⟨_, _, rfl, _, _, ⟨hName, rfl⟩, _, _, ⟨hDescriptor, rfl⟩, _, _, ⟨hFit, rfl⟩, rfl, rfl⟩
      exact ⟨⟨hName, hDescriptor, hFit⟩, by simp [written]⟩
    · rintro ⟨hFits, rfl⟩
      exact ⟨m.access, _, by simp only [written, List.append_assoc], m.name, _, ⟨hFits.name, rfl⟩,
        m.descriptor, _, ⟨hFits.descriptor, rfl⟩, m.attributes, _, ⟨hFits.attributes, rfl⟩, rfl, rfl⟩

theorem toBytes_eq_ok :
    m.toBytes = .ok bytes ↔ Attribute.CanWrite m.attributes ∧ m.written = bytes :=
  Attribute.behind_eq_ok

/-- Members that fit can be written. -/
theorem listToBytes_eq_ok {l : List Member} (what : String)
    (hFit : l.length < 65536 ∧ ∀ m ∈ l, m.Fits) :
    listToBytes what l = .ok (tableBytes written l) := by
  have hEach : l.mapM toBytes = .ok (l.map written) :=
    (mapM_ok_iff fun _ _ => toBytes_eq_ok).2
      ⟨fun m hMem => (hFit.2 m hMem).attributes.canWrite, rfl⟩
  rw [listToBytes, count16_eq_ok.2 ⟨hFit.1, rfl⟩, hEach, tableBytes, List.flatMap_def]
  rfl

end Member

-- ---------------------------------------------------------------------------
-- Rows of typed attributes
-- ---------------------------------------------------------------------------

namespace LocalVariable

variable {rows : List LocalVariable} {info : Bytes}

/-- The name and the descriptor lead somewhere. -/
def Fits (v : LocalVariable) : Prop := v.name ≠ 0 ∧ v.descriptor ≠ 0

theorem reads_read : Reads read toBytes Fits where
  eq_some {bytes v rest} := by
    obtain ⟨start, length, name, descriptor, slot⟩ := v
    simp [read, toBytes, Fits, seq_eq_some, map_eq_some, reads_u16.eq_some, reads_index.eq_some]
    tauto

theorem tableToBytes_eq_ok :
    tableToBytes rows = .ok info ↔ rows.length < 65536 ∧ tableBytes toBytes rows = info :=
  countedRows_eq_ok

end LocalVariable

namespace InnerClass

variable {rows : List InnerClass} {info : Bytes}

/-- Every index that is there leads somewhere. -/
def Fits (c : InnerClass) : Prop := c.inner ≠ 0 ∧ c.outer ≠ some 0 ∧ c.name ≠ some 0

theorem reads_read : Reads read toBytes Fits where
  eq_some {bytes c rest} := by
    obtain ⟨inner, outer, name, access⟩ := c
    simp [read, toBytes, Fits, seq_eq_some, map_eq_some, reads_u16.eq_some, reads_index.eq_some,
      reads_index?.eq_some]
    tauto

theorem tableToBytes_eq_ok :
    tableToBytes rows = .ok info ↔ rows.length < 65536 ∧ tableBytes toBytes rows = info :=
  countedRows_eq_ok

end InnerClass

namespace EnclosingMethod

/-- Every index that is there leads somewhere. -/
def Fits (e : EnclosingMethod) : Prop := e.owner ≠ 0 ∧ e.method ≠ some 0

theorem reads_read : Reads read toBytes Fits where
  eq_some {bytes e rest} := by
    obtain ⟨owner, method⟩ := e
    simp [read, toBytes, Fits, seq_eq_some, map_eq_some, reads_index.eq_some, reads_index?.eq_some]
    tauto

end EnclosingMethod

namespace RecordComponent

variable {rows : List RecordComponent} {info : Bytes}

/-- The written form of a component that fits. -/
def written (c : RecordComponent) : Bytes :=
  putU16 c.name ++ putU16 c.descriptor ++ tableBytes Attribute.written c.attributes

/-- The name and the descriptor lead somewhere, and the attributes fit. -/
def Fits (c : RecordComponent) : Prop :=
  c.name ≠ 0 ∧ c.descriptor ≠ 0 ∧ Attribute.AllFit c.attributes

theorem reads_read : Reads read written Fits where
  eq_some {bytes c rest} := by
    obtain ⟨name, descriptor, attributes⟩ := c
    simp [read, written, Fits, seq_eq_some, map_eq_some, reads_index.eq_some,
      Attribute.reads_table.eq_some]
    tauto

theorem toBytes_eq_ok {c : RecordComponent} {bytes : Bytes} :
    c.toBytes = .ok bytes ↔ Attribute.CanWrite c.attributes ∧ c.written = bytes :=
  Attribute.behind_eq_ok

theorem tableToBytes_eq_ok : tableToBytes rows = .ok info ↔
    (rows.length < 65536 ∧ ∀ c ∈ rows, Attribute.CanWrite c.attributes) ∧
      tableBytes written rows = info := by
  simp only [tableToBytes, bind_ok_iff, pure_ok_iff, count16_eq_ok,
    mapM_ok_iff fun _ _ => toBytes_eq_ok]
  constructor
  · rintro ⟨_, ⟨hLength, rfl⟩, _, ⟨hAll, rfl⟩, rfl⟩
    exact ⟨⟨hLength, hAll⟩, by rw [tableBytes, List.flatMap_def]⟩
  · rintro ⟨⟨hLength, hAll⟩, rfl⟩
    exact ⟨_, ⟨hLength, rfl⟩, _, ⟨hAll, rfl⟩, by rw [tableBytes, List.flatMap_def]⟩

end RecordComponent

namespace MethodParameter

variable {parameters : List MethodParameter} {info : Bytes}

/-- A name that is there leads somewhere. -/
def Fits (p : MethodParameter) : Prop := p.name ≠ some 0

theorem reads_read : Reads read toBytes Fits where
  eq_some {bytes p rest} := by
    obtain ⟨name, access⟩ := p
    simp [read, toBytes, Fits, seq_eq_some, map_eq_some, reads_u16.eq_some, reads_index?.eq_some,
      and_comm]

theorem tableToBytes_eq_ok : tableToBytes parameters = .ok info ↔
    parameters.length < 256 ∧
      UInt8.ofNat parameters.length :: parameters.flatMap toBytes = info := by
  unfold tableToBytes
  split
  · rename_i hLength
    simp [hLength]
  · rename_i hLength
    simp [hLength]

end MethodParameter

-- ---------------------------------------------------------------------------
-- Method bodies
-- ---------------------------------------------------------------------------

namespace ExceptionRow

/-- The written form. -/
def toBytes (e : ExceptionRow) : Bytes :=
  putU16 e.start ++ putU16 e.stop ++ putU16 e.handler ++ putU16 e.caught

theorem reads_read : Reads CodeBody.readException toBytes fun _ => True where
  eq_some {bytes e rest} := by
    obtain ⟨start, stop, handler, caught⟩ := e
    simp [CodeBody.readException, toBytes, seq_eq_some, map_eq_some, reads_u16.eq_some]

end ExceptionRow

namespace CodeBody

variable {b : CodeBody} {info : Bytes}

/-- What stands in front of the nested attributes. -/
def head (b : CodeBody) : Bytes :=
  putU16 b.maxStack ++ putU16 b.maxLocals ++ big 4 b.bytecode.length ++ b.bytecode ++
    tableBytes ExceptionRow.toBytes b.exceptions

/-- The written form of a body that fits. -/
def written (b : CodeBody) : Bytes := b.head ++ tableBytes Attribute.written b.attributes

/-- The bytecode, the exception table and the nested attributes fit. -/
structure Fits (b : CodeBody) : Prop where
  bytecode : b.bytecode.length < UInt32.size
  exceptions : b.exceptions.length < 65536
  attributes : Attribute.AllFit b.attributes

theorem reads_read : Reads read written Fits where
  eq_some {bytes b rest} := by
    simp only [read, bind_eq_some, pure_eq_some, reads_u16.eq_some, reads_u32.eq_some,
      (reads_take _).eq_some, (reads_table ExceptionRow.reads_read).eq_some,
      Attribute.reads_table.eq_some, true_and, id]
    constructor
    · rintro ⟨_, _, rfl, _, _, rfl, _, _, ⟨hBytecode, rfl⟩, _, _, ⟨rfl, rfl⟩, _, _,
        ⟨hExceptions, rfl⟩, _, _, ⟨hAttributes, rfl⟩, rfl, rfl⟩
      exact ⟨⟨hBytecode, hExceptions.1, hAttributes⟩, by simp [written, head]⟩
    · rintro ⟨hFits, rfl⟩
      exact ⟨_, _, by simp only [written, head, List.append_assoc], _, _, rfl, _, _,
        ⟨hFits.bytecode, rfl⟩, _, _, ⟨rfl, rfl⟩, _, _,
        ⟨⟨hFits.exceptions, fun _ _ => trivial⟩, rfl⟩, _, _, ⟨hFits.attributes, rfl⟩, rfl, rfl⟩

end CodeBody

namespace Code

variable {l : List Attribute} {info : Bytes} {code : Code}

theorem tableSize_eq (l : List Attribute) :
    tableSize l = (tableBytes Attribute.written l).length := by
  have hRows : tableSize l = 2 + (l.flatMap Attribute.written).length := by
    induction l with
    | nil => rfl
    | cons a more ih =>
      simp only [tableSize, ih, List.flatMap_cons, List.length_append, Attribute.written, putU16,
        length_big]
      omega
  rw [hRows, tableBytes, List.length_append, putU16, length_big]

/-- **The pieces of a method body** are what stands in front of the nested attributes and these, if
there is nothing behind them. -/
theorem split_eq_ok (hEnds : ∀ b rest, CodeBody.read info = some (b, rest) → rest = [])
    (hSplit : split info = .ok code) :
    ∃ b : CodeBody, b.Fits ∧ info = b.written ∧ code = ⟨b.head, b.attributes⟩ := by
  simp only [split, bind_ok_iff] at hSplit
  obtain ⟨b, hBody, hSplit⟩ := hSplit
  obtain ⟨hFits, rfl⟩ := CodeBody.reads_read.eq_of_front hEnds hBody
  have hLength : b.written.length = b.head.length + tableSize b.attributes := by
    rw [CodeBody.written, List.length_append, tableSize_eq]
  have hRoom : ¬ b.written.length < tableSize b.attributes := by omega
  rw [if_neg hRoom, hLength, Nat.add_sub_cancel, CodeBody.written, List.take_left] at hSplit
  exact ⟨b, hFits, rfl, (Except.ok.inj hSplit).symm⟩

theorem toBytes_eq_ok {bytes : Bytes} : code.toBytes = .ok bytes ↔
    Attribute.CanWrite code.attributes ∧
      code.head ++ tableBytes Attribute.written code.attributes = bytes :=
  Attribute.behind_eq_ok

end Code

end Jarsmith
