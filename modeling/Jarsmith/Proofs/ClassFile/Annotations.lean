import Jarsmith.ClassFile.Annotations
import Jarsmith.Proofs.ClassFile.Tables
import Jarsmith.Proofs.ClassFile.TypeTarget

/-!
# Reading annotations

The readers of annotation attributes are the inverses of their written forms. A tree is read with a
bound on its depth, so the trees that a bound admits are described by the same recursion over it.

* `ConstantKind.ofLetter?_eq_some` — the letters of constants.
* `ElementValue.Fits`, `AnnotationTree.Fits`, `AnnotationElement.Fits` — the trees that a bound
  admits and whose written form is read back.
* `reads_depth` — values, annotations and elements together.
* `fits_length` — no tree is deeper than its written form is long.
* `AnnotationBody.reads_read` — the bodies of annotation attributes.
-/

namespace Jarsmith

open Reader

variable {depth : Nat}

theorem valuesToBytes_eq (values : List ElementValue) :
    valuesToBytes values = values.flatMap ElementValue.toBytes := by
  induction values with
  | nil => rw [valuesToBytes, List.flatMap_nil]
  | cons v more ih => rw [valuesToBytes, ih, List.flatMap_cons]

theorem elementsToBytes_eq (elements : List AnnotationElement) :
    elementsToBytes elements = elements.flatMap AnnotationElement.toBytes := by
  induction elements with
  | nil => rw [elementsToBytes, List.flatMap_nil]
  | cons e more ih => rw [elementsToBytes, ih, List.flatMap_cons]

-- ---------------------------------------------------------------------------
-- Trees
-- ---------------------------------------------------------------------------

mutual

/-- Every index leads somewhere, and every number of parts fits; the value is not deeper than the
bound. -/
def ElementValue.Fits : Nat → ElementValue → Prop
  | 0, _ => False
  | _ + 1, .constant _ index => index ≠ 0
  | _ + 1, .enumConstant type name => type ≠ 0 ∧ name ≠ 0
  | _ + 1, .classLiteral descriptor => descriptor ≠ 0
  | depth + 1, .nested tree => tree.Fits depth
  | depth + 1, .array values => values.length < 65536 ∧ ∀ v ∈ values, v.Fits depth

/-- The type leads somewhere, and the elements and their number fit. -/
def AnnotationTree.Fits : Nat → AnnotationTree → Prop
  | 0, _ => False
  | depth + 1, .mk type elements =>
    type ≠ 0 ∧ elements.length < 65536 ∧ ∀ e ∈ elements, e.Fits depth

/-- The name leads somewhere, and the value fits. -/
def AnnotationElement.Fits : Nat → AnnotationElement → Prop
  | 0, _ => False
  | depth + 1, .mk name value => name ≠ 0 ∧ value.Fits depth

end

theorem eq_of_charOfNat {letter : UInt8} {c : Char} (hLetter : Char.ofNat letter.toNat = c) :
    letter = UInt8.ofNat c.toNat := by
  have hValid : letter.toNat.isValidChar := .inl (by have := letter.toNat_lt; omega)
  have hNumber : (Char.ofNat letter.toNat).toNat = letter.toNat := by
    rw [Char.ofNat, dif_pos hValid]
    rfl
  rw [← hLetter, hNumber, UInt8.ofNat_toNat]

/-- Every kind of constant is written under the letter by which it is known, and under no other. -/
theorem ConstantKind.ofLetter?_eq_some {letter : UInt8} {kind : ConstantKind} :
    ofLetter? letter = some kind ↔ letter = kind.letter := by
  constructor
  · intro h
    unfold ofLetter? at h
    split at h
    case h_10 => cases h
    all_goals
      cases h
      apply eq_of_charOfNat
      assumption
  · rintro rfl
    cases kind <;> rfl

section Readers

variable (hValue : Reads (ElementValue.read depth) ElementValue.toBytes (ElementValue.Fits depth))
  (hTree : Reads (AnnotationTree.read depth) AnnotationTree.toBytes (AnnotationTree.Fits depth))
  (hElement : Reads (AnnotationElement.read depth) AnnotationElement.toBytes
    (AnnotationElement.Fits depth))

include hElement in
theorem AnnotationTree.reads_succ :
    Reads (AnnotationTree.read (depth + 1)) toBytes (Fits (depth + 1)) where
  eq_some {bytes tree rest} := by
    obtain ⟨type, elements⟩ := tree
    simp only [read, bind_eq_some, pure_eq_some, reads_index.eq_some,
      (reads_table hElement).eq_some, Fits, toBytes, elementsToBytes_eq]
    constructor
    · rintro ⟨type, _, ⟨hType, rfl⟩, elements, _, ⟨hElements, rfl⟩, hTree, rfl⟩
      cases hTree
      exact ⟨⟨hType, hElements⟩, (List.append_assoc _ _ _).symm⟩
    · rintro ⟨⟨hType, hElements⟩, rfl⟩
      exact ⟨type, _, ⟨hType, List.append_assoc _ _ _⟩, elements, _, ⟨hElements, rfl⟩, rfl, rfl⟩

include hValue in
theorem AnnotationElement.reads_succ :
    Reads (AnnotationElement.read (depth + 1)) toBytes (Fits (depth + 1)) where
  eq_some {bytes element rest} := by
    obtain ⟨name, value⟩ := element
    simp only [read, bind_eq_some, pure_eq_some, reads_index.eq_some, hValue.eq_some, Fits, toBytes]
    constructor
    · rintro ⟨name, _, ⟨hName, rfl⟩, value, _, ⟨hFits, rfl⟩, hElement, rfl⟩
      cases hElement
      exact ⟨⟨hName, hFits⟩, (List.append_assoc _ _ _).symm⟩
    · rintro ⟨⟨hName, hFits⟩, rfl⟩
      exact ⟨name, _, ⟨hName, List.append_assoc _ _ _⟩, value, _, ⟨hFits, rfl⟩, rfl, rfl⟩

include hValue hTree in
theorem ElementValue.reads_succ :
    Reads (ElementValue.read (depth + 1)) toBytes (Fits (depth + 1)) where
  eq_some {bytes value rest} := by
    rw [read, bind_eq_some]
    simp only [reads_byte.eq_some, true_and]
    constructor
    · rintro ⟨letter, mid, rfl, h⟩
      cases hKind : ConstantKind.ofLetter? letter with
      | some kind =>
        rw [hKind] at h
        simp only [map_eq_some, reads_index.eq_some] at h
        obtain ⟨index, ⟨hIndex, rfl⟩, rfl⟩ := h
        exact ⟨hIndex, by simp [toBytes, ConstantKind.ofLetter?_eq_some.1 hKind]⟩
      | none =>
        rw [hKind] at h
        dsimp only at h
        -- the letters of the other values
        generalize hLetter : Char.ofNat letter.toNat = c at h
        obtain rfl := eq_of_charOfNat hLetter
        split at h
        · simp only [seq_eq_some, map_eq_some, reads_index.eq_some] at h
          obtain ⟨_, _, ⟨type, ⟨hType, rfl⟩, rfl⟩, name, ⟨hName, rfl⟩, rfl⟩ := h
          exact ⟨⟨hType, hName⟩, by simp [toBytes]⟩
        · simp only [map_eq_some, reads_index.eq_some] at h
          obtain ⟨descriptor, ⟨hDescriptor, rfl⟩, rfl⟩ := h
          exact ⟨hDescriptor, by simp [toBytes]⟩
        · simp only [map_eq_some, hTree.eq_some] at h
          obtain ⟨tree, ⟨hFits, rfl⟩, rfl⟩ := h
          exact ⟨hFits, by simp [toBytes]⟩
        · simp only [map_eq_some, (reads_table hValue).eq_some] at h
          obtain ⟨values, ⟨hValues, rfl⟩, rfl⟩ := h
          exact ⟨hValues, by simp [toBytes, valuesToBytes_eq, tableBytes]⟩
        · exact absurd h failure_ne_some
    · rintro ⟨hFits, rfl⟩
      cases value with
      | constant kind index =>
        refine ⟨kind.letter, putU16 index ++ rest, rfl, ?_⟩
        rw [ConstantKind.ofLetter?_eq_some.2 rfl]
        exact map_eq_some.2 ⟨index, reads_index.eq_some.2 ⟨hFits, rfl⟩, rfl⟩
      | enumConstant type name =>
        refine ⟨UInt8.ofNat 'e'.toNat, putU16 type ++ (putU16 name ++ rest), by simp [toBytes], ?_⟩
        exact seq_eq_some.2 ⟨_, _, map_eq_some.2
          ⟨type, reads_index.eq_some.2 ⟨hFits.1, rfl⟩, rfl⟩,
          name, reads_index.eq_some.2 ⟨hFits.2, rfl⟩, rfl⟩
      | classLiteral descriptor =>
        refine ⟨UInt8.ofNat 'c'.toNat, putU16 descriptor ++ rest, rfl, ?_⟩
        exact map_eq_some.2 ⟨descriptor, reads_index.eq_some.2 ⟨hFits, rfl⟩, rfl⟩
      | nested tree =>
        refine ⟨UInt8.ofNat '@'.toNat, tree.toBytes ++ rest, by simp [toBytes], ?_⟩
        exact map_eq_some.2 ⟨tree, hTree.eq_some.2 ⟨hFits, rfl⟩, rfl⟩
      | array values =>
        refine ⟨UInt8.ofNat '['.toNat, tableBytes toBytes values ++ rest,
          by simp [toBytes, valuesToBytes_eq, tableBytes], ?_⟩
        exact map_eq_some.2 ⟨values, (reads_table hValue).eq_some.2 ⟨hFits, rfl⟩, rfl⟩

end Readers

/-- **The readers of values, annotations and elements** are the inverses of the written forms. -/
theorem reads_depth (depth : Nat) :
    Reads (ElementValue.read depth) ElementValue.toBytes (ElementValue.Fits depth) ∧
      Reads (AnnotationTree.read depth) AnnotationTree.toBytes (AnnotationTree.Fits depth) ∧
      Reads (AnnotationElement.read depth) AnnotationElement.toBytes
        (AnnotationElement.Fits depth) := by
  induction depth with
  | zero =>
    exact ⟨reads_failure, reads_failure, reads_failure⟩
  | succ depth ih =>
    obtain ⟨hValue, hTree, hElement⟩ := ih
    exact ⟨ElementValue.reads_succ hValue hTree, AnnotationTree.reads_succ hElement,
      AnnotationElement.reads_succ hValue⟩

/-- A greater bound admits what a smaller one admits. -/
theorem fits_succ (depth : Nat) :
    (∀ v : ElementValue, v.Fits depth → v.Fits (depth + 1)) ∧
      (∀ t : AnnotationTree, t.Fits depth → t.Fits (depth + 1)) ∧
      ∀ e : AnnotationElement, e.Fits depth → e.Fits (depth + 1) := by
  induction depth with
  | zero => exact ⟨fun v h => h.elim, fun t h => h.elim, fun e h => h.elim⟩
  | succ depth ih =>
    obtain ⟨hValue, hTree, hElement⟩ := ih
    refine ⟨fun v h => ?_, fun t h => ?_, fun e h => ?_⟩
    · cases v with
      | nested tree => exact hTree tree h
      | array values => exact ⟨h.1, fun v hv => hValue v (h.2 v hv)⟩
      | _ => exact h
    · cases t
      exact ⟨h.1, h.2.1, fun e he => hElement e (h.2.2 e he)⟩
    · cases e
      exact ⟨h.1, hValue _ h.2⟩

theorem ElementValue.Fits.mono {v : ElementValue} {more : Nat} (h : v.Fits depth)
    (hMore : depth ≤ more) : v.Fits more :=
  Nat.le_induction h (fun depth _ => (fits_succ depth).1 v) more hMore

theorem AnnotationTree.Fits.mono {t : AnnotationTree} {more : Nat} (h : t.Fits depth)
    (hMore : depth ≤ more) : t.Fits more :=
  Nat.le_induction h (fun depth _ => (fits_succ depth).2.1 t) more hMore

theorem AnnotationElement.Fits.mono {e : AnnotationElement} {more : Nat} (h : e.Fits depth)
    (hMore : depth ≤ more) : e.Fits more :=
  Nat.le_induction h (fun depth _ => (fits_succ depth).2.2 e) more hMore

theorem length_le_flatMap {α : Type} {w : α → Bytes} {list : List α} {a : α} (ha : a ∈ list) :
    (w a).length ≤ (list.flatMap w).length := by
  obtain ⟨before, after, rfl⟩ := List.append_of_mem ha
  rw [List.flatMap_append, List.flatMap_cons, List.length_append, List.length_append]
  omega

/-- Each level takes at least one byte, so no tree is deeper than it is long. -/
theorem fits_length (depth : Nat) :
    (∀ v : ElementValue, v.Fits depth → v.Fits v.toBytes.length) ∧
      (∀ t : AnnotationTree, t.Fits depth → t.Fits t.toBytes.length) ∧
      ∀ e : AnnotationElement, e.Fits depth → e.Fits e.toBytes.length := by
  induction depth with
  | zero => exact ⟨fun v h => h.elim, fun t h => h.elim, fun e h => h.elim⟩
  | succ depth ih =>
    obtain ⟨hValue, hTree, hElement⟩ := ih
    refine ⟨fun v h => ?_, fun t h => ?_, fun e h => ?_⟩
    · cases v with
      | nested tree => exact hTree tree h
      | array values =>
        refine ⟨h.1, fun v hv => (hValue v (h.2 v hv)).mono ?_⟩
        have hLength := length_le_flatMap (w := ElementValue.toBytes) hv
        simp only [valuesToBytes_eq, List.length_append]
        omega
      | _ => exact h
    · obtain ⟨type, elements⟩ := t
      rw [AnnotationTree.toBytes, elementsToBytes_eq, putU16, List.length_append, length_big,
        Nat.add_comm]
      refine ⟨h.1, h.2.1, fun e he => (hElement e (h.2.2 e he)).mono ?_⟩
      have hLength := length_le_flatMap (w := AnnotationElement.toBytes) he
      simp only [List.length_append]
      omega
    · obtain ⟨name, value⟩ := e
      rw [AnnotationElement.toBytes, putU16, List.length_append, length_big, Nat.add_comm]
      exact ⟨h.1, (hValue value h.2).mono (by omega)⟩

-- ---------------------------------------------------------------------------
-- Bodies
-- ---------------------------------------------------------------------------

/-- An annotation of a type: what is said about the place is of its kind, the path is short, and the
tree fits. -/
def TypeAnnotationTree.Fits (depth : Nat) (a : TypeAnnotationTree) : Prop :=
  a.info.Fits a.kind.form ∧ a.path.length < 256 ∧ a.tree.Fits depth

theorem TypeAnnotationTree.reads_read (depth : Nat) :
    Reads (TypeAnnotationTree.read depth) toBytes (Fits depth) where
  eq_some {bytes a rest} := by
    obtain ⟨kind, info, path, tree⟩ := a
    rw [read, tagged_eq_some TargetKind.ofTag?_eq_some]
    simp only [bind_eq_some, pure_eq_some, (TargetInfo.reads_read _).eq_some,
      (reads_smallTable TypePathStep.reads_read).eq_some, (reads_depth depth).2.1.eq_some, Fits]
    constructor
    · rintro ⟨kind, _, rfl, info, _, ⟨hInfo, rfl⟩, path, _, ⟨⟨hPath, -⟩, rfl⟩, tree, _,
        ⟨hTree, rfl⟩, hAnnotation, rfl⟩
      cases hAnnotation
      exact ⟨⟨hInfo, hPath, hTree⟩, by simp [toBytes]⟩
    · rintro ⟨⟨hInfo, hPath, hTree⟩, rfl⟩
      refine ⟨kind, _, ?_, info, _, ⟨hInfo, rfl⟩, path, _, ⟨⟨hPath, fun _ _ => trivial⟩, rfl⟩,
        tree, rest, ⟨hTree, rfl⟩, rfl, rfl⟩
      simp [toBytes]

namespace AnnotationBody

/-- The body is of the given kind, and its parts and their numbers fit. -/
def Fits (depth : Nat) : AnnotationShape → AnnotationBody → Prop
  | .annotations, .annotations list => list.length < 65536 ∧ ∀ tree ∈ list, tree.Fits depth
  | .parameters, .parameters lists =>
    lists.length < 256 ∧ ∀ list ∈ lists, list.length < 65536 ∧ ∀ tree ∈ list, tree.Fits depth
  | .types, .types list => list.length < 65536 ∧ ∀ a ∈ list, a.Fits depth
  | .defaultValue, .defaultValue value => value.Fits depth
  | _, _ => False

/-- **The readers of annotation attributes** are the inverses of the written forms. -/
theorem reads_read (shape : AnnotationShape) (depth : Nat) :
    Reads (read shape depth) toBytes (Fits depth shape) := by
  obtain ⟨hValue, hTree, -⟩ := reads_depth depth
  cases shape with
  | annotations =>
    exact (reads_table hTree).map (fun _ => rfl) fun body => by cases body <;> simp [Fits]
  | parameters =>
    exact (reads_smallTable (reads_table hTree)).map (fun _ => rfl)
      fun body => by cases body <;> simp [Fits]
  | types =>
    exact (reads_table (TypeAnnotationTree.reads_read depth)).map (fun _ => rfl)
      fun body => by cases body <;> simp [Fits]
  | defaultValue => exact hValue.map (fun _ => rfl) fun body => by cases body <;> simp [Fits]

end AnnotationBody

end Jarsmith
