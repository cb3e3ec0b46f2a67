import Jarsmith.Proofs.ClassFile.Tables
import Jarsmith.Proofs.Pool.Sound

/-!
# Reading and writing constants

The reader of constants is the inverse of their written form, and so is the reader of the constants
of a pool. A constant has a written form if the indices in it lead somewhere and its text fits.

* `Constant.reads_read` — a constant.
* `Constant.readMany_written`, `Constant.fits_of_readMany` — the constants of a pool.
-/

namespace Jarsmith

open Outcome Reader

variable {bytes rest : Bytes}

theorem HandleKind.ofTag?_eq_some {tag : UInt8} {kind : HandleKind} :
    ofTag? tag = some kind ↔ kind.tag = tag := by
  constructor
  · intro hKind
    unfold ofTag? at hKind
    revert hKind
    split <;> rintro ⟨⟩ <;> rfl
  · rintro rfl
    exact ofTag?_tag kind

theorem reads_handleKind :
    Reads (accept HandleKind.ofTag? byte) (fun kind => [kind.tag]) fun _ => True where
  eq_some {bytes kind rest} := by
    simp only [accept, bind_eq_some, reads_byte.eq_some, true_and]
    constructor
    · rintro ⟨tag, _, rfl, h⟩
      cases hKind : HandleKind.ofTag? tag with
      | none =>
        rw [hKind] at h
        exact absurd h failure_ne_some
      | some found =>
        rw [hKind] at h
        obtain ⟨rfl, rfl⟩ := pure_eq_some.1 h
        rw [HandleKind.ofTag?_eq_some.1 hKind]
    · rintro rfl
      refine ⟨kind.tag, rest, rfl, ?_⟩
      rw [HandleKind.ofTag?_tag]
      rfl

namespace Constant

variable {k : Constant} {slots : Nat} {list : List Constant}

/-- The text of a constant fits into a class file. -/
def TextFits : Constant → Prop
  | utf8 raw => raw.length < 65536
  | _ => True

instance : DecidablePred TextFits := fun c => by
  cases c <;> unfold TextFits <;> infer_instance

/-- Every index in a constant leads somewhere, a text fits and is well formed. A slot that cannot be
used is no constant of a class file. -/
def Fits : Constant → Prop
  | utf8 raw => raw.length < 65536 ∧ (ModifiedUtf8.units? raw).isSome = true
  | integer _ | float _ | long _ | double _ => True
  | classRef index | string index | methodType index | module index | package index => index ≠ 0
  | fieldRef i j | methodRef i j | interfaceMethodRef i j | nameAndType i j => i ≠ 0 ∧ j ≠ 0
  | methodHandle _ index | dynamic _ index | invokeDynamic _ index => index ≠ 0
  | unusable => False

theorem Fits.usable (h : k.Fits) : k ≠ .unusable := by
  rintro rfl
  exact h

theorem Fits.textFits (h : k.Fits) : k.TextFits := by
  cases k with
  | utf8 raw => exact h.1
  | _ => trivial

/-- The tag of a constant. -/
def tag : Constant → UInt8
  | utf8 _ => 1
  | integer _ => 3
  | float _ => 4
  | long _ => 5
  | double _ => 6
  | classRef _ => 7
  | string _ => 8
  | fieldRef .. => 9
  | methodRef .. => 10
  | interfaceMethodRef .. => 11
  | nameAndType .. => 12
  | methodHandle .. => 15
  | methodType _ => 16
  | dynamic .. => 17
  | invokeDynamic .. => 18
  | module _ => 19
  | package _ => 20
  | unusable => 0

/-- What stands behind the tag. -/
def body : Constant → Bytes
  | utf8 raw => putU16 (UInt16.ofNat raw.length) ++ raw
  | integer value => Jarsmith.big 4 value.toUInt32.toNat
  | float bits => Jarsmith.big 4 bits.toNat
  | long value => Jarsmith.big 8 value.toUInt64.toNat
  | double bits => Jarsmith.big 8 bits.toNat
  | classRef index | string index | methodType index | module index | package index => putU16 index
  | fieldRef i j | methodRef i j | interfaceMethodRef i j | nameAndType i j | dynamic i j
  | invokeDynamic i j => putU16 i ++ putU16 j
  | methodHandle kind reference => kind.tag :: putU16 reference
  | unusable => []

/-- The written form of a constant that fits. -/
def written (k : Constant) : Bytes := k.tag :: k.body

theorem toBytes_of_textFits (hUsable : k ≠ .unusable) (hFits : k.TextFits) :
    k.toBytes = .ok k.written := by
  cases k with
  | utf8 raw =>
    have hCount : count16 raw.length "bytes in a Utf8 constant" =
        .ok (UInt16.ofNat raw.length) := count16_eq_ok.2 ⟨hFits, rfl⟩
    rw [toBytes, hCount]
    rfl
  | unusable => exact absurd rfl hUsable
  | _ => rfl

-- ---------------------------------------------------------------------------
-- The parts of constants
-- ---------------------------------------------------------------------------

theorem readUtf8_eq_some : readUtf8 bytes = some (k, rest) ↔
    ∃ raw, (utf8 raw).Fits ∧ k = utf8 raw ∧ bytes = (utf8 raw).body ++ rest := by
  simp only [readUtf8, bind_eq_some, reads_u16.eq_some, (reads_take _).eq_some, id]
  constructor
  · rintro ⟨length, _, ⟨-, rfl⟩, raw, _, ⟨hLength, rfl⟩, hText⟩
    split at hText
    · rename_i hUnits
      obtain ⟨rfl, rfl⟩ := pure_eq_some.1 hText
      have hShort : raw.length < 65536 := hLength ▸ length.toNat_lt
      refine ⟨raw, ⟨hShort, hUnits⟩, rfl, ?_⟩
      rw [body, hLength, UInt16.ofNat_toNat, List.append_assoc]
    · exact absurd hText failure_ne_some
  · rintro ⟨raw, ⟨hShort, hUnits⟩, rfl, rfl⟩
    refine ⟨UInt16.ofNat raw.length, raw ++ rest, ⟨trivial, List.append_assoc _ _ _⟩, raw, rest,
      ⟨?_, rfl⟩, ?_⟩
    · rw [UInt16.toNat_ofNat_of_lt' hShort]
    · rw [if_pos hUnits]
      exact pure_eq_some.2 ⟨rfl, rfl⟩

theorem index_eq_some {mk : UInt16 → Constant} : (mk <$> index) bytes = some (k, rest) ↔
    ∃ i, i ≠ 0 ∧ k = mk i ∧ bytes = putU16 i ++ rest := by
  simp only [map_eq_some, reads_index.eq_some]
  constructor
  · rintro ⟨i, ⟨hi, rfl⟩, rfl⟩
    exact ⟨i, hi, rfl, rfl⟩
  · rintro ⟨i, hi, rfl, rfl⟩
    exact ⟨i, ⟨hi, rfl⟩, rfl⟩

theorem indexPair_eq_some {mk : UInt16 → UInt16 → Constant} {r : Reader UInt16}
    {P : UInt16 → Prop} (hr : Reads r putU16 P) : (mk <$> r <*> index) bytes = some (k, rest) ↔
      ∃ i j, P i ∧ j ≠ 0 ∧ k = mk i j ∧ bytes = putU16 i ++ putU16 j ++ rest := by
  simp only [seq_eq_some, map_eq_some, hr.eq_some, reads_index.eq_some]
  constructor
  · rintro ⟨_, _, ⟨i, ⟨hi, rfl⟩, rfl⟩, j, ⟨hj, rfl⟩, rfl⟩
    exact ⟨i, j, hi, hj, rfl, (List.append_assoc _ _ _).symm⟩
  · rintro ⟨i, j, hi, hj, rfl, rfl⟩
    exact ⟨mk i, putU16 j ++ rest, ⟨i, ⟨hi, List.append_assoc _ _ _⟩, rfl⟩, j, ⟨hj, rfl⟩, rfl⟩

theorem number_eq_some {w : Nat} {mk : Nat → Constant} :
    (mk <$> Reader.big w) bytes = some (k, rest) ↔
      ∃ n < 256 ^ w, k = mk n ∧ bytes = Jarsmith.big w n ++ rest := by
  simp only [map_eq_some, (reads_big w).eq_some]
  constructor
  · rintro ⟨n, ⟨hBound, rfl⟩, rfl⟩
    exact ⟨n, hBound, rfl, rfl⟩
  · rintro ⟨n, hBound, rfl, rfl⟩
    exact ⟨n, ⟨hBound, rfl⟩, rfl⟩

theorem handle_eq_some :
    (methodHandle <$> accept HandleKind.ofTag? byte <*> index) bytes = some (k, rest) ↔
      ∃ kind i, i ≠ 0 ∧ k = methodHandle kind i ∧ bytes = kind.tag :: putU16 i ++ rest := by
  simp only [seq_eq_some, map_eq_some, reads_handleKind.eq_some, reads_index.eq_some]
  constructor
  · rintro ⟨_, _, ⟨kind, ⟨-, rfl⟩, rfl⟩, i, ⟨hi, rfl⟩, rfl⟩
    exact ⟨kind, i, hi, rfl, rfl⟩
  · rintro ⟨kind, i, hi, rfl, rfl⟩
    exact ⟨_, _, ⟨kind, ⟨trivial, rfl⟩, rfl⟩, i, ⟨hi, rfl⟩, rfl⟩

-- ---------------------------------------------------------------------------
-- Constants
-- ---------------------------------------------------------------------------

theorem fits_of_read (hRead : read bytes = some (k, rest)) : k.Fits ∧ bytes = k.written ++ rest := by
  obtain ⟨tag, more, hTag, hBody⟩ := bind_eq_some.1 hRead
  obtain ⟨-, rfl⟩ := reads_byte.eq_some.1 hTag
  generalize hNumber : tag.toNat = number at hBody
  obtain rfl : UInt8.ofNat number = tag := by rw [← hNumber, UInt8.ofNat_toNat]
  -- one case for each tag, in the order of the tags
  split at hBody
  · obtain ⟨raw, hFits, rfl, rfl⟩ := readUtf8_eq_some.1 hBody
    exact ⟨hFits, rfl⟩
  · obtain ⟨n, hBound, rfl, rfl⟩ := number_eq_some.1 hBody
    exact ⟨trivial, by simp [written, body, UInt32.toNat_ofNat_of_lt' hBound]; rfl⟩
  · obtain ⟨n, hBound, rfl, rfl⟩ := number_eq_some.1 hBody
    exact ⟨trivial, by simp [written, body, UInt32.toNat_ofNat_of_lt' hBound]; rfl⟩
  · obtain ⟨n, hBound, rfl, rfl⟩ := number_eq_some.1 hBody
    exact ⟨trivial, by simp [written, body, UInt64.toNat_ofNat_of_lt' hBound]; rfl⟩
  · obtain ⟨n, hBound, rfl, rfl⟩ := number_eq_some.1 hBody
    exact ⟨trivial, by simp [written, body, UInt64.toNat_ofNat_of_lt' hBound]; rfl⟩
  · obtain ⟨name, hName, rfl, rfl⟩ := index_eq_some.1 hBody
    exact ⟨hName, rfl⟩
  · obtain ⟨value, hValue, rfl, rfl⟩ := index_eq_some.1 hBody
    exact ⟨hValue, rfl⟩
  · obtain ⟨owner, nat, hOwner, hNat, rfl, rfl⟩ := (indexPair_eq_some reads_index).1 hBody
    exact ⟨⟨hOwner, hNat⟩, rfl⟩
  · obtain ⟨owner, nat, hOwner, hNat, rfl, rfl⟩ := (indexPair_eq_some reads_index).1 hBody
    exact ⟨⟨hOwner, hNat⟩, rfl⟩
  · obtain ⟨owner, nat, hOwner, hNat, rfl, rfl⟩ := (indexPair_eq_some reads_index).1 hBody
    exact ⟨⟨hOwner, hNat⟩, rfl⟩
  · obtain ⟨name, descriptor, hName, hDescriptor, rfl, rfl⟩ :=
      (indexPair_eq_some reads_index).1 hBody
    exact ⟨⟨hName, hDescriptor⟩, rfl⟩
  · obtain ⟨kind, reference, hReference, rfl, rfl⟩ := handle_eq_some.1 hBody
    exact ⟨hReference, rfl⟩
  · obtain ⟨descriptor, hDescriptor, rfl, rfl⟩ := index_eq_some.1 hBody
    exact ⟨hDescriptor, rfl⟩
  · obtain ⟨bootstrap, nat, -, hNat, rfl, rfl⟩ := (indexPair_eq_some reads_u16).1 hBody
    exact ⟨hNat, rfl⟩
  · obtain ⟨bootstrap, nat, -, hNat, rfl, rfl⟩ := (indexPair_eq_some reads_u16).1 hBody
    exact ⟨hNat, rfl⟩
  · obtain ⟨name, hName, rfl, rfl⟩ := index_eq_some.1 hBody
    exact ⟨hName, rfl⟩
  · obtain ⟨name, hName, rfl, rfl⟩ := index_eq_some.1 hBody
    exact ⟨hName, rfl⟩
  · exact absurd hBody failure_ne_some

theorem read_written (hFits : k.Fits) : read (k.written ++ rest) = some (k, rest) := by
  refine bind_eq_some.2 ⟨k.tag, k.body ++ rest, rfl, ?_⟩
  cases k with
  | utf8 raw => exact readUtf8_eq_some.2 ⟨raw, hFits, rfl, rfl⟩
  | integer value =>
    exact number_eq_some.2 ⟨value.toUInt32.toNat, value.toUInt32.toNat_lt, by simp, rfl⟩
  | float bits => exact number_eq_some.2 ⟨bits.toNat, bits.toNat_lt, by simp, rfl⟩
  | long value =>
    exact number_eq_some.2 ⟨value.toUInt64.toNat, value.toUInt64.toNat_lt, by simp, rfl⟩
  | double bits => exact number_eq_some.2 ⟨bits.toNat, bits.toNat_lt, by simp, rfl⟩
  | classRef name => exact index_eq_some.2 ⟨name, hFits, rfl, rfl⟩
  | string value => exact index_eq_some.2 ⟨value, hFits, rfl, rfl⟩
  | fieldRef owner nat =>
    exact (indexPair_eq_some reads_index).2 ⟨owner, nat, hFits.1, hFits.2, rfl, rfl⟩
  | methodRef owner nat =>
    exact (indexPair_eq_some reads_index).2 ⟨owner, nat, hFits.1, hFits.2, rfl, rfl⟩
  | interfaceMethodRef owner nat =>
    exact (indexPair_eq_some reads_index).2 ⟨owner, nat, hFits.1, hFits.2, rfl, rfl⟩
  | nameAndType name descriptor =>
    exact (indexPair_eq_some reads_index).2 ⟨name, descriptor, hFits.1, hFits.2, rfl, rfl⟩
  | methodHandle kind reference => exact handle_eq_some.2 ⟨kind, reference, hFits, rfl, rfl⟩
  | methodType descriptor => exact index_eq_some.2 ⟨descriptor, hFits, rfl, rfl⟩
  | dynamic bootstrap nat =>
    exact (indexPair_eq_some reads_u16).2 ⟨bootstrap, nat, trivial, hFits, rfl, rfl⟩
  | invokeDynamic bootstrap nat =>
    exact (indexPair_eq_some reads_u16).2 ⟨bootstrap, nat, trivial, hFits, rfl, rfl⟩
  | module name => exact index_eq_some.2 ⟨name, hFits, rfl, rfl⟩
  | package name => exact index_eq_some.2 ⟨name, hFits, rfl, rfl⟩
  | unusable => exact hFits.elim

/-- **The reader of constants** takes the written form of each constant that fits, and nothing
else. -/
theorem reads_read : Reads read written Fits where
  eq_some {bytes k rest} := by
    constructor
    · exact fits_of_read
    · rintro ⟨hFits, rfl⟩
      exact read_written hFits

-- ---------------------------------------------------------------------------
-- The constants of a pool
-- ---------------------------------------------------------------------------

/-- Every constant that is read from a pool fits, and the bytes that were taken are their written
forms. -/
theorem fits_of_readMany (hRead : readMany slots bytes = some (list, rest)) :
    (∀ k ∈ list, k.Fits) ∧ bytes = list.flatMap written ++ rest := by
  induction slots using Nat.strongRecOn generalizing bytes list with
  | ind slots ih =>
    cases slots with
    | zero =>
      obtain ⟨rfl, rfl⟩ := pure_eq_some.1 hRead
      exact ⟨fun _ => nofun, rfl⟩
    | succ slots =>
      obtain ⟨k, mid, hFirst, hMore⟩ := readMany_succ_eq_some hRead
      obtain ⟨hFits, rfl⟩ := fits_of_read hFirst
      obtain ⟨-, -, rfl, rfl⟩ | ⟨fewer, more, hWidth, hMore, rfl⟩ := hMore
      · exact ⟨List.forall_mem_singleton.2 hFits, by simp⟩
      · have hPositive := k.one_le_width
        obtain ⟨hAll, rfl⟩ := ih fewer (by omega) hMore
        exact ⟨List.forall_mem_cons.2 ⟨hFits, hAll⟩, by simp⟩

/-- Constants are read back, and then what follows them. -/
theorem readMany_append {more : List Constant} (hFits : ∀ k ∈ list, k.Fits)
    (hMore : readMany slots bytes = some (more, rest)) :
    readMany ((list.flatMap Pool.slotsOf).length + slots) (list.flatMap written ++ bytes) =
      some (list ++ more, rest) := by
  induction list with
  | nil =>
    rw [List.flatMap_nil, List.length_nil, Nat.zero_add]
    exact hMore
  | cons k list ih =>
    obtain ⟨hFirst, hList⟩ := List.forall_mem_cons.1 hFits
    have hRead : read (k.written ++ (list.flatMap written ++ bytes)) =
        some (k, list.flatMap written ++ bytes) := read_written hFirst
    rw [List.flatMap_cons, List.length_append, List.flatMap_cons, List.append_assoc, Nat.add_assoc]
    by_cases hWide : k.isWide = true
    · have hSlots : (Pool.slotsOf k).length = 2 := by simp [Pool.slotsOf, hWide]
      rw [hSlots, Nat.add_comm, readMany]
      refine bind_eq_some.2 ⟨k, _, hRead, ?_⟩
      rw [if_pos hWide]
      exact map_eq_some.2 ⟨list ++ more, ih hList, rfl⟩
    · have hSlots : (Pool.slotsOf k).length = 1 := by simp [Pool.slotsOf, hWide]
      rw [hSlots, Nat.add_comm, readMany]
      refine bind_eq_some.2 ⟨k, _, hRead, ?_⟩
      rw [if_neg hWide]
      exact map_eq_some.2 ⟨list ++ more, ih hList, rfl⟩

/-- The constants that fill a number of slots are read back. -/
theorem readMany_written (hFits : ∀ k ∈ list, k.Fits) :
    readMany (list.flatMap Pool.slotsOf).length (list.flatMap written ++ rest) =
      some (list, rest) := by
  have hNone : readMany 0 rest = some ([], rest) := pure_eq_some.2 ⟨rfl, rfl⟩
  have hAll := readMany_append hFits hNone
  rwa [Nat.add_zero, List.append_nil] at hAll

end Constant

end Jarsmith
