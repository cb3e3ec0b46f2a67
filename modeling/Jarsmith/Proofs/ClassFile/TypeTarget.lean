import Jarsmith.ClassFile.TypeTarget
import Jarsmith.Proofs.Bytes.Codec

/-!
# Reading the targets of type annotations

Tags are told apart by two tables, one for each direction. They are inverses of each other, so what
an annotation says about its place is read back from what is written, in each of its forms.

* `Reader.tagged_eq_some` — values that stand behind the tag of their kind.
* `TargetKind.ofTag?_eq_some`, `TypePathKind.ofTag?_eq_some` — the two directions of the tables.
* `TargetInfo.reads_read`, `TypePathStep.reads_read` — what is said about a place, and the way into
  its type.
-/

namespace Jarsmith

open Reader

variable {bytes rest : Bytes}

/-- A value behind the tag of its kind. -/
theorem Reader.tagged_eq_some {κ α : Type} {ofTag? : UInt8 → Option κ} {tag : κ → UInt8}
    (hTag : ∀ {t k}, ofTag? t = some k ↔ t = tag k) {value : κ → Reader α} {v : α} :
    tagged ofTag? value bytes = some (v, rest) ↔
      ∃ k mid, bytes = tag k :: mid ∧ value k mid = some (v, rest) := by
  simp only [tagged, bind_eq_some, reads_byte.eq_some, true_and]
  constructor
  · rintro ⟨t, mid, rfl, h⟩
    cases hKind : ofTag? t with
    | none =>
      rw [hKind] at h
      exact absurd h failure_ne_some
    | some k =>
      rw [hKind] at h
      exact ⟨k, mid, by rw [hTag.1 hKind]; rfl, h⟩
  · rintro ⟨k, mid, rfl, h⟩
    refine ⟨tag k, mid, rfl, ?_⟩
    rw [hTag.2 rfl]
    exact h

-- ---------------------------------------------------------------------------
-- Tags
-- ---------------------------------------------------------------------------

/-- Every kind of place is written under the tag by which it is known, and under no other. -/
theorem TargetKind.ofTag?_eq_some {t : UInt8} {k : TargetKind} : ofTag? t = some k ↔ t = k.tag := by
  constructor
  · intro h
    refine UInt8.toNat_inj.1 ?_
    unfold ofTag? at h
    split at h
    case h_23 => cases h
    all_goals
      cases h
      assumption
  · rintro rfl
    cases k <;> rfl

/-- Every kind of step is written under the tag by which it is known, and under no other. -/
theorem TypePathKind.ofTag?_eq_some {t : UInt8} {k : TypePathKind} :
    ofTag? t = some k ↔ t = k.tag := by
  constructor
  · intro h
    refine UInt8.toNat_inj.1 ?_
    unfold ofTag? at h
    split at h
    case h_5 => cases h
    all_goals
      cases h
      assumption
  · rintro rfl
    cases k <;> rfl

-- ---------------------------------------------------------------------------
-- What is said about a place
-- ---------------------------------------------------------------------------

/-- The number of a supertype is written as it was read. -/
theorem SuperTypeTarget.index_ofIndex (index : UInt16) : (ofIndex index).index = index := by
  unfold ofIndex
  split
  · rename_i hSuper
    exact hSuper.symm
  · rfl

namespace LocalVariableTarget

/-- The part starts and ends where two numbers of 16 bits can say. -/
def Fits (p : LocalVariableTarget) : Prop :=
  ∃ start length : UInt16, p.start = start.toUInt32 ∧ p.stop = start.toUInt32 + length.toUInt32

theorem toBytes_mk (start length slot : UInt16) :
    toBytes ⟨start.toUInt32, start.toUInt32 + length.toUInt32, slot⟩ =
      putU16 start ++ (putU16 length ++ putU16 slot) := by
  have hLength : start.toUInt32 + length.toUInt32 - start.toUInt32 = length.toUInt32 := by
    rw [UInt32.add_comm, UInt32.add_sub_cancel]
  rw [toBytes, hLength, UInt16.toUInt16_toUInt32, UInt16.toUInt16_toUInt32]

theorem reads_read : Reads read toBytes Fits where
  eq_some {bytes p rest} := by
    simp only [read, bind_eq_some, pure_eq_some, reads_u16.eq_some, true_and]
    constructor
    · rintro ⟨start, _, rfl, length, _, rfl, slot, _, rfl, rfl, rfl⟩
      exact ⟨⟨start, length, rfl, rfl⟩, by simp only [toBytes_mk, List.append_assoc]⟩
    · obtain ⟨first, last, slot⟩ := p
      rintro ⟨⟨start, length, rfl, rfl⟩, rfl⟩
      refine ⟨start, _, ?_, length, _, rfl, slot, rest, rfl, rfl, rfl⟩
      simp only [toBytes_mk, List.append_assoc]

end LocalVariableTarget

namespace TargetInfo

/-- What is said is of the given form, and its numbers fit. -/
inductive Fits : TargetForm → TargetInfo → Prop
  | typeParameter (index : UInt8) : Fits .typeParameter (.typeParameter index)
  | superType (index : UInt16) : Fits .superType (.superType (.ofIndex index))
  | typeParameterBound (parameter bound : UInt8) :
    Fits .typeParameterBound (.typeParameterBound parameter bound)
  | empty : Fits .empty .empty
  | formalParameter (index : UInt8) : Fits .formalParameter (.formalParameter index)
  | throws (index : UInt16) : Fits .throws (.throws index)
  | localVariable {parts : List LocalVariableTarget} (few : parts.length < 65536)
    (each : ∀ p ∈ parts, p.Fits) : Fits .localVariable (.localVariable parts)
  | handler (index : UInt16) : Fits .handler (.handler index)
  | offset (instruction : UInt16) : Fits .offset (.offset instruction.toUInt32)
  | typeArgument (instruction : UInt16) (argument : UInt8) :
    Fits .typeArgument (.typeArgument instruction.toUInt32 argument)

/-- **What is said about a place** is read back from what is written, in every form. -/
theorem reads_read (form : TargetForm) : Reads (read form) toBytes (Fits form) := by
  cases form with
  | typeParameter =>
    exact reads_byte.map (fun _ => rfl) fun _ =>
      ⟨fun | .typeParameter index => ⟨index, trivial, rfl⟩,
        fun ⟨index, _, h⟩ => h ▸ .typeParameter index⟩
  | superType =>
    refine reads_u16.map (fun index => ?_) fun _ =>
      ⟨fun | .superType index => ⟨index, trivial, rfl⟩, fun ⟨index, _, h⟩ => h ▸ .superType index⟩
    rw [toBytes, SuperTypeTarget.index_ofIndex]
  | typeParameterBound =>
    refine ⟨fun {bytes info rest} => ?_⟩
    simp only [read, seq_eq_some, map_eq_some, reads_byte.eq_some, true_and]
    constructor
    · rintro ⟨_, mid, ⟨parameter, rfl, rfl⟩, bound, rfl, rfl⟩
      exact ⟨.typeParameterBound parameter bound, rfl⟩
    · rintro ⟨hFits, rfl⟩
      cases hFits with
      | typeParameterBound parameter bound =>
        exact ⟨_, bound :: rest, ⟨parameter, rfl, rfl⟩, bound, rfl, rfl⟩
  | empty =>
    refine ⟨fun {bytes info rest} => ?_⟩
    rw [read, pure_eq_some]
    constructor
    · rintro ⟨rfl, rfl⟩
      exact ⟨.empty, rfl⟩
    · rintro ⟨⟨⟩, rfl⟩
      exact ⟨rfl, rfl⟩
  | formalParameter =>
    exact reads_byte.map (fun _ => rfl) fun _ =>
      ⟨fun | .formalParameter index => ⟨index, trivial, rfl⟩,
        fun ⟨index, _, h⟩ => h ▸ .formalParameter index⟩
  | throws =>
    exact reads_u16.map (fun _ => rfl) fun _ =>
      ⟨fun | .throws index => ⟨index, trivial, rfl⟩, fun ⟨index, _, h⟩ => h ▸ .throws index⟩
  | localVariable =>
    exact (reads_table LocalVariableTarget.reads_read).map (fun _ => rfl) fun _ =>
      ⟨fun | .localVariable few each => ⟨_, ⟨few, each⟩, rfl⟩,
        fun ⟨_, ⟨few, each⟩, h⟩ => h ▸ .localVariable few each⟩
  | handler =>
    exact reads_u16.map (fun _ => rfl) fun _ =>
      ⟨fun | .handler index => ⟨index, trivial, rfl⟩, fun ⟨index, _, h⟩ => h ▸ .handler index⟩
  | offset =>
    refine reads_u16.map (fun instruction => ?_) fun _ =>
      ⟨fun | .offset index => ⟨index, trivial, rfl⟩, fun ⟨index, _, h⟩ => h ▸ .offset index⟩
    rw [toBytes, UInt16.toUInt16_toUInt32]
  | typeArgument =>
    refine ⟨fun {bytes info rest} => ?_⟩
    simp only [read, seq_eq_some, map_eq_some, reads_byte.eq_some, reads_u16.eq_some, true_and]
    constructor
    · rintro ⟨_, mid, ⟨instruction, rfl, rfl⟩, argument, rfl, rfl⟩
      refine ⟨.typeArgument instruction argument, ?_⟩
      rw [toBytes, UInt16.toUInt16_toUInt32, List.append_assoc]
    · rintro ⟨hFits, rfl⟩
      cases hFits with
      | typeArgument instruction argument =>
        refine ⟨_, argument :: rest, ⟨instruction, ?_, rfl⟩, argument, rfl, rfl⟩
        rw [toBytes, UInt16.toUInt16_toUInt32, List.append_assoc]
        rfl

end TargetInfo

/-- A step is read back from what is written. -/
theorem TypePathStep.reads_read : Reads read toBytes fun _ => True where
  eq_some {bytes step rest} := by
    rw [read, tagged_eq_some TypePathKind.ofTag?_eq_some]
    simp only [map_eq_some, reads_byte.eq_some, true_and]
    constructor
    · rintro ⟨kind, mid, rfl, argument, rfl, rfl⟩
      rfl
    · rintro rfl
      exact ⟨step.kind, _, rfl, step.argument, rfl, rfl⟩

end Jarsmith
