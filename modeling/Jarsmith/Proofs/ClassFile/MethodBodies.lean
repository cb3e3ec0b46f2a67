import Jarsmith.ClassFile.Code
import Jarsmith.Proofs.ClassFile.Annotations

/-!
# Bytes behind a method body

A reader takes a method body off the front and passes over what follows it. The piece in front of
the nested attributes is cut off from the end, though. So bytes behind the body move the cut: as many
bytes as there are behind the body come from the table of nested attributes into the piece that
nobody changes, and the table is written behind them once more.

* `Code.split_of_read` — the pieces of any body that can be read.
* `Code.toBytes_split` — what they write, when that is the body again, and when the body is read
  back from it.
-/

namespace Jarsmith

open Outcome Reader

namespace CodeBody

/-- The written form of the nested attributes. -/
def table (b : CodeBody) : Bytes := tableBytes Attribute.written b.attributes

/-- The bytes of the nested attributes that `behind`, the bytes behind the body, push over the
cut. -/
def moved (b : CodeBody) (behind : Bytes) : Bytes := (b.table ++ behind).take behind.length

theorem length_moved (b : CodeBody) (behind : Bytes) : (b.moved behind).length = behind.length := by
  rw [moved, List.length_take, List.length_append]
  omega

theorem written_eq (b : CodeBody) : b.written = b.head ++ b.table := rfl

variable {b : CodeBody} {bytes : Bytes}

/-- A body is read from its head and anything that starts with its table. -/
theorem front_read_head (hFits : b.Fits) :
    front read (b.head ++ bytes) = some b ↔ b.table <+: bytes := by
  constructor
  · intro hFront
    obtain ⟨⟨_, rest⟩, hRead, rfl⟩ := Option.map_eq_some_iff.1 hFront
    obtain ⟨-, hBytes⟩ := reads_read.eq_some.1 hRead
    rw [written_eq, List.append_assoc] at hBytes
    exact ⟨rest, (List.append_cancel_left hBytes).symm⟩
  · rintro ⟨rest, rfl⟩
    have hRead : read (b.head ++ (b.table ++ rest)) = some (b, rest) :=
      reads_read.eq_some.2 ⟨hFits, (List.append_assoc ..).symm⟩
    rw [front, hRead]
    rfl

end CodeBody

namespace Code

variable {info behind : Bytes} {b : CodeBody}

/-- **The pieces of a body**, whatever stands behind it. -/
theorem split_of_read (hRead : CodeBody.read info = some (b, behind)) :
    split info = .ok ⟨b.head ++ b.moved behind, b.attributes⟩ := by
  obtain ⟨-, rfl⟩ := CodeBody.reads_read.eq_some.1 hRead
  have hBody : decoded (front CodeBody.read (b.written ++ behind)) = .ok b := by
    rw [front, hRead]
    rfl
  have hLength : (b.written ++ behind).length =
      b.head.length + behind.length + tableSize b.attributes := by
    rw [CodeBody.written, List.length_append, List.length_append, tableSize_eq]
    omega
  have hRoom : ¬ (b.written ++ behind).length < tableSize b.attributes := by omega
  have hCut : (b.written ++ behind).take ((b.written ++ behind).length - tableSize b.attributes) =
      b.head ++ b.moved behind := by
    rw [hLength, Nat.add_sub_cancel, CodeBody.written_eq, List.append_assoc, List.take_append,
      List.take_of_length_le (Nat.le_add_right ..), Nat.add_sub_cancel_left, CodeBody.moved]
  rw [split, hBody]
  show (if _ then _ else _) = _
  rw [if_neg hRoom, hCut]
  rfl

/-- **What the pieces of a body write**, for every body that can be read. It is the body without
the bytes behind it exactly if there are none; the body is read back from it exactly if its table is
what the moved bytes and the table start with. -/
theorem toBytes_split (hRead : CodeBody.read info = some (b, behind)) :
    ∃ code out, split info = .ok code ∧ code.toBytes = .ok out ∧
      code.head = b.head ++ b.moved behind ∧ code.attributes = b.attributes ∧
      out = b.head ++ b.moved behind ++ b.table ∧
      info = b.written ++ behind ∧ (out = b.written ↔ behind = []) ∧
      (front CodeBody.read out = some b ↔ b.table <+: b.moved behind ++ b.table) := by
  obtain ⟨hFits, hInfo⟩ := CodeBody.reads_read.eq_some.1 hRead
  refine ⟨_, _, split_of_read hRead, toBytes_eq_ok.2 ⟨hFits.attributes.canWrite, rfl⟩, rfl, rfl,
    rfl, hInfo, ?_, ?_⟩
  · show b.head ++ b.moved behind ++ b.table = b.head ++ b.table ↔ behind = []
    rw [List.append_assoc, List.append_right_inj, List.append_left_eq_self,
      ← List.length_eq_zero_iff, b.length_moved, List.length_eq_zero_iff]
  · show front CodeBody.read (b.head ++ b.moved behind ++ b.table) = some b ↔ _
    rw [List.append_assoc]
    exact CodeBody.front_read_head hFits

/-- A method that only returns, with one empty nested attribute and one byte behind it. -/
def trailedBody : CodeBody := ⟨0, 1, [0xb1], [], [⟨5, []⟩]⟩

/-- A byte behind the body makes the nested attribute unreadable: the body that the pieces write has
none. -/
theorem toBytes_split_trailed :
    CodeBody.read (trailedBody.written ++ [9]) = some (trailedBody, [9]) ∧
      ∃ code out, split (trailedBody.written ++ [9]) = .ok code ∧ code.toBytes = .ok out ∧
        out ≠ trailedBody.written ∧ front CodeBody.read out ≠ some trailedBody ∧
        front CodeBody.read out = some { trailedBody with attributes := [] } := by
  have hFits : trailedBody.Fits := ⟨by decide, by decide, by decide, by
    rintro a hMem
    rw [List.mem_singleton.1 hMem]
    exact ⟨by decide, by decide⟩⟩
  have hRead : CodeBody.read (trailedBody.written ++ [9]) = some (trailedBody, [9]) :=
    CodeBody.reads_read.eq_some.2 ⟨hFits, rfl⟩
  obtain ⟨code, out, hSplit, hBytes, -, -, hOut, -, hSame, hBack⟩ := toBytes_split hRead
  refine ⟨hRead, code, out, hSplit, hBytes, fun h => List.cons_ne_nil 9 [] (hSame.1 h), ?_, ?_⟩
  · rw [Ne, hBack]
    decide
  · rw [hOut, List.append_assoc]
    refine CodeBody.front_read_head (b := { trailedBody with attributes := [] }) ?_ |>.2 ?_
    · exact ⟨by decide, by decide, by decide, nofun⟩
    · decide

end Code

end Jarsmith
