import Jarsmith.Proofs.ClassFile.Descriptor
import Mathlib.Data.List.Forall2

/-!
# Renaming the classes of descriptors

What a renaming keeps of a type is told by relations: the dimensions, the primitive types and the
number and order of the parameters stay, and a class has the name that the renaming gives it. On
texts a renaming is functorial.

* `ElementType.RenamedTo`, `FieldType.RenamedTo`, `MethodType.RenamedTo` — one type is the other one
  under new names.
* `Descriptor.rename_functorial` — renaming by the identity changes no text, renaming twice is
  renaming once, and a descriptor becomes a descriptor of the renamed type.
-/

namespace Jarsmith

variable (f : String → String)

/-- A primitive type stays; a class has its new name. -/
inductive ElementType.RenamedTo : ElementType → ElementType → Prop
  | primitive (p : Primitive) : RenamedTo (primitive p) (primitive p)
  | object (name : String) : RenamedTo (object name) (object (f name))

/-- An array keeps its dimensions. -/
structure FieldType.RenamedTo (t renamed : FieldType) : Prop where
  dimensions : renamed.dimensions = t.dimensions
  element : t.element.RenamedTo f renamed.element

/-- A method keeps its parameters, each under its new name. -/
structure MethodType.RenamedTo (t renamed : MethodType) : Prop where
  parameters : List.Forall₂ (FieldType.RenamedTo f) t.parameters renamed.parameters
  returns : t.returns.RenamedTo f renamed.returns

variable {f : String → String} {text : String}

-- ---------------------------------------------------------------------------
-- Renamed types
-- ---------------------------------------------------------------------------

theorem ElementType.renamedTo_rename (t : ElementType) : t.RenamedTo f (t.rename f) := by
  cases t with
  | primitive p => exact .primitive p
  | object name => exact .object name

theorem FieldType.renamedTo_rename (t : FieldType) : t.RenamedTo f (t.rename f) :=
  ⟨rfl, t.element.renamedTo_rename⟩

theorem MethodType.renamedTo_rename (t : MethodType) : t.RenamedTo f (t.rename f) := by
  refine ⟨?_, t.returns.renamedTo_rename⟩
  show List.Forall₂ _ t.parameters (t.parameters.map (·.rename f))
  rw [List.forall₂_map_right_iff, List.forall₂_same]
  exact fun p _ => p.renamedTo_rename

namespace Descriptor

-- ---------------------------------------------------------------------------
-- Renamed descriptors
-- ---------------------------------------------------------------------------

/-- The descriptor of a method stays one if every new name is fit for a descriptor. -/
theorem parse_rename_of_method (hf : ∀ name, ';' ∉ (f name).toList) {t : MethodType}
    (hParse : MethodType.parse text = .ok t) :
    MethodType.parse (rename f text) = .ok (t.rename f) := by
  obtain ⟨hWell, -⟩ := MethodType.parse_eq_ok.1 hParse
  rw [rename_of_method hParse]
  exact MethodType.parse_eq_ok.2
    ⟨MethodType.wellFormed_rename hWell fun name _ => hf name, String.toList_ofList.symm⟩

/-- The descriptor of a field stays one if every new name is fit for a descriptor. -/
theorem parse_rename_of_field (hf : ∀ name, ';' ∉ (f name).toList) {t : FieldType}
    (hParse : FieldType.parse text = .ok t) :
    FieldType.parse (rename f text) = .ok (t.rename f) := by
  obtain ⟨hWell, -⟩ := FieldType.parse_eq_ok.1 hParse
  rw [rename_of_field hParse]
  exact FieldType.parse_eq_ok.2
    ⟨FieldType.wellFormed_rename hWell fun name _ => hf name, String.toList_ofList.symm⟩

/-- A text that describes neither a method nor a field has nothing to rename. -/
theorem rename_of_malformed (hMethod : ∀ t, MethodType.parse text ≠ .ok t)
    (hField : ∀ t, FieldType.parse text ≠ .ok t) : rename f text = text := by
  rcases rename_cases text with ⟨t, hParse, -⟩ | ⟨t, hParse, -⟩ | ⟨-, hRename⟩
  · exact absurd hParse (hMethod t)
  · exact absurd hParse (hField t)
  · exact hRename f

/-- **Renaming descriptors is functorial**, on all texts: the identity changes none, and if the
names that `f` gives are fit for descriptors, renaming by `f` and then by `g` is renaming by `g ∘ f`.
Under that condition a descriptor becomes a descriptor of the renamed type. Any other text stays. -/
theorem rename_functorial :
    (∀ text, rename id text = text) ∧
      (∀ f text, (∀ t, MethodType.parse text ≠ .ok t) → (∀ t, FieldType.parse text ≠ .ok t) →
        rename f text = text) ∧
      ∀ f : String → String, (∀ name, ';' ∉ (f name).toList) →
        (∀ g text, rename g (rename f text) = rename (g ∘ f) text) ∧
        (∀ text t, MethodType.parse text = .ok t →
          ∃ renamed, MethodType.parse (rename f text) = .ok renamed ∧ t.RenamedTo f renamed) ∧
        (∀ text t, FieldType.parse text = .ok t →
          ∃ renamed, FieldType.parse (rename f text) = .ok renamed ∧ t.RenamedTo f renamed) := by
  refine ⟨fun text => rename_of_fixed fun _ _ => rfl, fun f text => rename_of_malformed, ?_⟩
  intro f hf
  refine ⟨fun g text => rename_rename fun name _ => hf name, ?_, ?_⟩
  · intro text t hParse
    exact ⟨_, parse_rename_of_method hf hParse, t.renamedTo_rename⟩
  · intro text t hParse
    exact ⟨_, parse_rename_of_field hf hParse, t.renamedTo_rename⟩

/-- A method with arrays among its parameters, renamed twice, a field, and a text that lacks the `;`
behind a class. -/
theorem rename_functorial_arrays :
    let f := fun name => if name = "a" then "b/C" else "d"
    let method : MethodType :=
      ⟨[⟨2, .object "a"⟩, ⟨0, .primitive .long⟩, ⟨0, .object "e"⟩, ⟨1, .primitive .int⟩],
        ⟨0, .object "a"⟩⟩
    rename (· ++ "$1") (rename f "([[La;JLe;[I)La;") = "([[Lb/C$1;JLd$1;[I)Lb/C$1;" ∧
      (∃ renamed, MethodType.parse (rename f "([[La;JLe;[I)La;") = .ok renamed ∧
        method.RenamedTo f renamed) ∧
      (∃ renamed, FieldType.parse (rename f "[La;") = .ok renamed ∧
        FieldType.RenamedTo f ⟨1, .object "a"⟩ renamed) ∧
      rename f "(La)V" = "(La)V" := by
  intro f method
  have hf : ∀ name, ';' ∉ (f name).toList := by
    intro name
    show ';' ∉ (if name = "a" then "b/C" else "d" : String).toList
    split <;> decide
  have hMethod : MethodType.parse "([[La;JLe;[I)La;" = .ok method := by cbv
  have hField : FieldType.parse "[La;" = .ok ⟨1, .object "a"⟩ := by cbv
  have hFaults : MethodType.parse "(La)V" = .error .noSemicolon ∧
      FieldType.parse "(La)V" = .error .unrecognized := ⟨by cbv, by cbv⟩
  obtain ⟨-, hMalformed, hLaws⟩ := rename_functorial
  obtain ⟨hTwice, hMethods, hFields⟩ := hLaws f hf
  refine ⟨?_, hMethods _ _ hMethod, hFields _ _ hField, hMalformed f _ ?_ ?_⟩
  · rw [hTwice, rename_of_method hMethod]
    decide
  · intro t h
    cases hFaults.1.symm.trans h
  · intro t h
    cases hFaults.2.symm.trans h

end Descriptor

end Jarsmith
