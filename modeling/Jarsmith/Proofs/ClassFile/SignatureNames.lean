import Jarsmith.Proofs.ClassFile.Signature
import Mathlib.Data.List.Forall2

/-!
# Renaming the classes of signatures

A renaming keeps the tree of a signature and gives every class its new binary name, and what it
writes is read again, if new names end where names end and nested classes stay nested.

* `Signature.RenamedTo` — one signature is the other one under new names.
* `NamedClass.Follows` — what a new name must be like to stand in the place of the old one.
* `Signature.renamed_spec` — the renamed signature can be read, and is the signature under its new
  names.
* `Signature.rename_id` — the renaming that keeps every name.
-/

namespace Jarsmith

-- ---------------------------------------------------------------------------
-- One signature under the names of another one
-- ---------------------------------------------------------------------------

mutual

/-- One type is the other one with the names that `f` gives to its classes. The binary name of a
nested class is that of the class around it and its simple name, joined by `$`. -/
inductive TypeSignature.RenamedTo (f : String → String) : TypeSignature → TypeSignature → Prop
  | primitive (letter : Char) :
      TypeSignature.RenamedTo f (.primitive letter) (.primitive letter)
  | array {element element' : TypeSignature} (h : TypeSignature.RenamedTo f element element') :
      TypeSignature.RenamedTo f (.array element) (.array element')
  | variable (name : String) : TypeSignature.RenamedTo f (.variable name) (.variable name)
  | classType {name : String} {parts parts' : List ClassPart}
      (h : PartsRenamedTo f name (f name) parts parts') :
      TypeSignature.RenamedTo f (.classType name parts) (.classType (f name) parts')

/-- What follows a class of the binary name `binary`, and what follows it under its new binary
name. -/
inductive PartsRenamedTo (f : String → String) :
    String → String → List ClassPart → List ClassPart → Prop
  | nil (binary binary' : String) : PartsRenamedTo f binary binary' [] []
  | arguments {binary binary' : String} {arguments arguments' : List TypeArgument}
      {more more' : List ClassPart} (h : ArgumentsRenamedTo f arguments arguments')
      (hMore : PartsRenamedTo f binary binary' more more') :
      PartsRenamedTo f binary binary' (.arguments arguments :: more) (.arguments arguments' :: more')
  | nested {binary binary' name name' : String} {more more' : List ClassPart}
      (hName : f (binary ++ "$" ++ name) = binary' ++ "$" ++ name')
      (hMore : PartsRenamedTo f (binary ++ "$" ++ name) (binary' ++ "$" ++ name') more more') :
      PartsRenamedTo f binary binary' (.nested name :: more) (.nested name' :: more')

/-- Type arguments, one by one. -/
inductive ArgumentsRenamedTo (f : String → String) : List TypeArgument → List TypeArgument → Prop
  | nil : ArgumentsRenamedTo f [] []
  | cons {argument argument' : TypeArgument} {more more' : List TypeArgument}
      (h : TypeArgument.RenamedTo f argument argument') (hMore : ArgumentsRenamedTo f more more') :
      ArgumentsRenamedTo f (argument :: more) (argument' :: more')

/-- A type argument keeps its sign. -/
inductive TypeArgument.RenamedTo (f : String → String) : TypeArgument → TypeArgument → Prop
  | wildcard : TypeArgument.RenamedTo f .wildcard .wildcard
  | exactly {type type' : TypeSignature} (h : TypeSignature.RenamedTo f type type') :
      TypeArgument.RenamedTo f (.exactly type) (.exactly type')
  | bounded (sign : Char) {type type' : TypeSignature} (h : TypeSignature.RenamedTo f type type') :
      TypeArgument.RenamedTo f (.bounded sign type) (.bounded sign type')

end

variable (f : String → String)

/-- A type parameter keeps its name, and its bounds are renamed. -/
structure TypeParameter.RenamedTo (p p' : TypeParameter) : Prop where
  name : p'.name = p.name
  classBound : Option.Rel (TypeSignature.RenamedTo f) p.classBound p'.classBound
  interfaceBounds : List.Forall₂ (TypeSignature.RenamedTo f) p.interfaceBounds p'.interfaceBounds

/-- The types behind the type parameters are renamed. -/
inductive SignatureBody.RenamedTo : SignatureBody → SignatureBody → Prop
  | types {list list' : List TypeSignature} (h : List.Forall₂ (TypeSignature.RenamedTo f) list list') :
      RenamedTo (.types list) (.types list')
  | method {parameters parameters' throws throws' : List TypeSignature}
      {returns returns' : TypeSignature}
      (hParameters : List.Forall₂ (TypeSignature.RenamedTo f) parameters parameters')
      (hReturns : returns.RenamedTo f returns')
      (hThrows : List.Forall₂ (TypeSignature.RenamedTo f) throws throws') :
      RenamedTo (.method parameters returns throws) (.method parameters' returns' throws')

/-- One signature is the other one with the names that `f` gives to its classes. -/
structure Signature.RenamedTo (s s' : Signature) : Prop where
  parameters : Option.Rel (List.Forall₂ (TypeParameter.RenamedTo f)) s.parameters s'.parameters
  body : s.body.RenamedTo f s'.body

-- ---------------------------------------------------------------------------
-- Classes of a signature
-- ---------------------------------------------------------------------------

/-- A class of a signature: its binary name, and that of the class that it is nested in. -/
structure NamedClass where
  outer : Option String
  name : String

mutual

/-- The classes of a type, nested ones and those of type arguments with them. -/
def TypeSignature.classes : TypeSignature → List NamedClass
  | .primitive _ => []
  | .array element => element.classes
  | .variable _ => []
  | .classType name parts => ⟨none, name⟩ :: partsClasses name parts

/-- The classes of what follows a class of the binary name `binary`. -/
def partsClasses (binary : String) : List ClassPart → List NamedClass
  | [] => []
  | .arguments arguments :: more => argumentsClasses arguments ++ partsClasses binary more
  | .nested name :: more =>
    ⟨some binary, binary ++ "$" ++ name⟩ :: partsClasses (binary ++ "$" ++ name) more

/-- The classes of type arguments. -/
def argumentsClasses : List TypeArgument → List NamedClass
  | [] => []
  | argument :: more => argument.classes ++ argumentsClasses more

/-- The classes of a type argument. -/
def TypeArgument.classes : TypeArgument → List NamedClass
  | .wildcard => []
  | .exactly type => type.classes
  | .bounded _ type => type.classes

end

/-- The classes of the bounds. -/
def TypeParameter.classes (p : TypeParameter) : List NamedClass :=
  (p.classBound.map TypeSignature.classes).getD [] ++
    p.interfaceBounds.flatMap TypeSignature.classes

/-- The classes behind the type parameters. -/
def SignatureBody.classes : SignatureBody → List NamedClass
  | .types list => list.flatMap TypeSignature.classes
  | .method parameters returns throws => parameters.flatMap TypeSignature.classes ++
    (returns.classes ++ throws.flatMap TypeSignature.classes)

/-- The classes of a signature. -/
def Signature.classes (s : Signature) : List NamedClass :=
  (s.parameters.getD []).flatMap TypeParameter.classes ++ s.body.classes

/-- A renaming that a signature can follow: a new name holds none of the characters that end a name,
and a nested class stays in the class around it. -/
structure NamedClass.Follows (c : NamedClass) : Prop where
  name : IsClassName (f c.name)
  nested : ∀ outer ∈ c.outer, ∃ simple, f c.name = f outer ++ "$" ++ simple

-- ---------------------------------------------------------------------------
-- Renamed types
-- ---------------------------------------------------------------------------

theorem nestedName_of_append (outer name : String) :
    nestedName outer (outer ++ "$" ++ name) = name := by
  have hText : (outer ++ "$" ++ name).toList = (outer ++ "$").toList ++ name.toList :=
    String.toList_append
  have hRest : Text.stripPrefix? (outer ++ "$") (outer ++ "$" ++ name) = some name := by
    rw [Text.stripPrefix?, Text.afterPrefix?_eq_some.2 hText, Option.map_some, String.ofList_toList]
  rw [nestedName, hRest]

variable {f : String → String}

/-- What follows the name of a class of a nested one ends where names end. -/
theorem isClassName_simple {outer simple : String} (h : IsClassName (outer ++ "$" ++ simple)) :
    IsClassName simple := fun c hc => h c (by simp [hc])

mutual

theorem TypeSignature.renamed_spec (t : TypeSignature) (hWell : t.WellFormed)
    (hf : ∀ c ∈ t.classes, c.Follows f) : (t.rename f).WellFormed ∧ t.RenamedTo f (t.rename f) := by
  match t with
  | .primitive letter =>
    rw [TypeSignature.rename]
    exact ⟨hWell, .primitive letter⟩
  | .array element =>
    obtain ⟨hElement, hRenamed⟩ := element.renamed_spec hWell hf
    rw [TypeSignature.rename]
    exact ⟨hElement, .array hRenamed⟩
  | .variable name =>
    rw [TypeSignature.rename]
    exact ⟨hWell, .variable name⟩
  | .classType name parts =>
    obtain ⟨hName, hParts⟩ := List.forall_mem_cons.1 hf
    obtain ⟨hWellParts, hRenamed⟩ := partsRenamed_spec name parts hWell.2 hParts
    rw [TypeSignature.rename]
    exact ⟨⟨hName.name, hWellParts⟩, .classType hRenamed⟩

theorem partsRenamed_spec (binary : String) (parts : List ClassPart)
    (hWell : PartsWellFormed parts) (hf : ∀ c ∈ partsClasses binary parts, c.Follows f) :
    PartsWellFormed (renameParts f binary (f binary) parts) ∧
      PartsRenamedTo f binary (f binary) parts (renameParts f binary (f binary) parts) := by
  match parts with
  | [] =>
    rw [renameParts]
    exact ⟨trivial, .nil _ _⟩
  | .arguments arguments :: more =>
    obtain ⟨hArguments, hMore⟩ := List.forall_mem_append.1 hf
    obtain ⟨hWellFirst, hFirst⟩ := argumentsRenamed_spec arguments hWell.1 hArguments
    obtain ⟨hWellMore, hRest⟩ := partsRenamed_spec binary more hWell.2 hMore
    rw [renameParts]
    exact ⟨⟨hWellFirst, hWellMore⟩, .arguments hFirst hRest⟩
  | .nested name :: more =>
    obtain ⟨hName, hMore⟩ := List.forall_mem_cons.1 hf
    obtain ⟨simple, hSimple⟩ := hName.nested binary rfl
    obtain ⟨hWellMore, hRest⟩ := partsRenamed_spec (binary ++ "$" ++ name) more hWell.2 hMore
    have hNew : IsClassName simple := isClassName_simple (hSimple ▸ hName.name)
    rw [renameParts, hSimple, nestedName_of_append]
    rw [hSimple] at hWellMore hRest
    exact ⟨⟨hNew, hWellMore⟩, .nested hSimple hRest⟩

theorem argumentsRenamed_spec (arguments : List TypeArgument) (hWell : ArgumentsWellFormed arguments)
    (hf : ∀ c ∈ argumentsClasses arguments, c.Follows f) :
    ArgumentsWellFormed (renameArguments f arguments) ∧
      ArgumentsRenamedTo f arguments (renameArguments f arguments) := by
  match arguments with
  | [] =>
    rw [renameArguments]
    exact ⟨trivial, .nil⟩
  | argument :: more =>
    obtain ⟨hArgument, hMore⟩ := List.forall_mem_append.1 hf
    obtain ⟨hWellFirst, hFirst⟩ := argument.renamed_spec hWell.1 hArgument
    obtain ⟨hWellMore, hRest⟩ := argumentsRenamed_spec more hWell.2 hMore
    rw [renameArguments]
    exact ⟨⟨hWellFirst, hWellMore⟩, .cons hFirst hRest⟩

theorem TypeArgument.renamed_spec (argument : TypeArgument) (hWell : argument.WellFormed)
    (hf : ∀ c ∈ argument.classes, c.Follows f) :
    (argument.rename f).WellFormed ∧ argument.RenamedTo f (argument.rename f) := by
  match argument with
  | .wildcard =>
    rw [TypeArgument.rename]
    exact ⟨trivial, .wildcard⟩
  | .exactly type =>
    obtain ⟨hType, hRenamed⟩ := type.renamed_spec hWell hf
    rw [TypeArgument.rename]
    exact ⟨hType, .exactly hRenamed⟩
  | .bounded sign type =>
    obtain ⟨hType, hRenamed⟩ := type.renamed_spec hWell.2 hf
    rw [TypeArgument.rename]
    exact ⟨⟨hWell.1, hType⟩, .bounded sign hRenamed⟩

end

-- ---------------------------------------------------------------------------
-- Renamed signatures
-- ---------------------------------------------------------------------------

theorem typesRenamed_spec {list : List TypeSignature} (hWell : ∀ t ∈ list, t.WellFormed)
    (hf : ∀ c ∈ list.flatMap TypeSignature.classes, c.Follows f) :
    (∀ t ∈ list.map (·.rename f), t.WellFormed) ∧
      List.Forall₂ (TypeSignature.RenamedTo f) list (list.map (·.rename f)) := by
  have hAll : ∀ t ∈ list, (t.rename f).WellFormed ∧ t.RenamedTo f (t.rename f) := fun t ht =>
    t.renamed_spec (hWell t ht) fun c hc => hf c (List.mem_flatMap.2 ⟨t, ht, hc⟩)
  refine ⟨List.forall_mem_map.2 fun t ht => (hAll t ht).1, ?_⟩
  rw [List.forall₂_map_right_iff, List.forall₂_same]
  exact fun t ht => (hAll t ht).2

theorem TypeParameter.renamed_spec {p : TypeParameter} (hWell : p.WellFormed)
    (hf : ∀ c ∈ p.classes, c.Follows f) : (p.rename f).WellFormed ∧ p.RenamedTo f (p.rename f) := by
  obtain ⟨hBound, hBounds⟩ := List.forall_mem_append.1 hf
  obtain ⟨hWellBounds, hRenamed⟩ := typesRenamed_spec hWell.interfaceBounds hBounds
  obtain ⟨hWellBound, hRel⟩ : (∀ t ∈ p.classBound.map (·.rename f), t.WellFormed) ∧
      Option.Rel (TypeSignature.RenamedTo f) p.classBound (p.classBound.map (·.rename f)) := by
    have hWellBound := hWell.classBound
    cases hClass : p.classBound with
    | none => exact ⟨nofun, .none⟩
    | some t =>
      rw [hClass] at hBound hWellBound
      obtain ⟨hNew, hRel⟩ := t.renamed_spec (hWellBound t rfl) hBound
      refine ⟨?_, .some hRel⟩
      rintro _ ⟨⟩
      exact hNew
  exact ⟨⟨hWell.name, hWell.front, hWellBound, hWellBounds⟩, rfl, hRel, hRenamed⟩

/-- A renaming keeps where one type parameter ends and the next one starts. -/
theorem canPrecede_rename {p next : TypeParameter} (h : p.CanPrecede next) :
    (p.rename f).CanPrecede (next.rename f) := by
  refine ⟨fun hNone hNil => h.1 ?_ (List.map_eq_nil_iff.1 hNil), h.2⟩
  exact Option.map_eq_none_iff.1 hNone

theorem parametersRenamed_spec {list : List TypeParameter} (hWell : ParametersWellFormed list)
    (hf : ∀ c ∈ list.flatMap TypeParameter.classes, c.Follows f) :
    ParametersWellFormed (list.map (·.rename f)) ∧
      List.Forall₂ (TypeParameter.RenamedTo f) list (list.map (·.rename f)) := by
  have hAll : ∀ p ∈ list, (p.rename f).WellFormed ∧ p.RenamedTo f (p.rename f) := fun p hp =>
    TypeParameter.renamed_spec (hWell.1 p hp) fun c hc => hf c (List.mem_flatMap.2 ⟨p, hp, hc⟩)
  refine ⟨⟨List.forall_mem_map.2 fun p hp => (hAll p hp).1, ?_⟩, ?_⟩
  · exact (List.isChain_map _).2 (hWell.2.imp fun _ _ h => canPrecede_rename h)
  · rw [List.forall₂_map_right_iff, List.forall₂_same]
    exact fun p hp => (hAll p hp).2

theorem SignatureBody.renamed_spec {b : SignatureBody} (hWell : b.WellFormed)
    (hf : ∀ c ∈ b.classes, c.Follows f) : (b.rename f).WellFormed ∧ b.RenamedTo f (b.rename f) := by
  cases b with
  | types list =>
    obtain ⟨hNew, hRenamed⟩ := typesRenamed_spec hWell hf
    exact ⟨hNew, .types hRenamed⟩
  | method parameters returns throws =>
    obtain ⟨hWellParameters, hWellReturns, hWellThrows⟩ := hWell
    obtain ⟨hParameters, hBehind⟩ := List.forall_mem_append.1 hf
    obtain ⟨hReturns, hThrows⟩ := List.forall_mem_append.1 hBehind
    obtain ⟨hNew, hRenamed⟩ := typesRenamed_spec hWellParameters hParameters
    obtain ⟨hNewReturns, hRenamedReturns⟩ := returns.renamed_spec hWellReturns hReturns
    obtain ⟨hNewThrows, hRenamedThrows⟩ := typesRenamed_spec hWellThrows hThrows
    exact ⟨⟨hNew, hNewReturns, hNewThrows⟩, .method hRenamed hRenamedReturns hRenamedThrows⟩

/-- **A renamed signature** is the signature under its new names, and can be read. -/
theorem Signature.renamed_spec {s : Signature} (hWell : s.WellFormed)
    (hf : ∀ c ∈ s.classes, c.Follows f) : (s.rename f).WellFormed ∧ s.RenamedTo f (s.rename f) := by
  obtain ⟨parameters, body⟩ := s
  obtain ⟨hParameters, hBody⟩ := List.forall_mem_append.1 hf
  obtain ⟨hNewBody, hRenamedBody⟩ := SignatureBody.renamed_spec hWell.2 hBody
  cases parameters with
  | none => exact ⟨⟨nofun, hNewBody⟩, .none, hRenamedBody⟩
  | some list =>
    obtain ⟨hNew, hRenamed⟩ := parametersRenamed_spec (hWell.1 list rfl) hParameters
    refine ⟨⟨?_, hNewBody⟩, .some hRenamed, hRenamedBody⟩
    rintro _ ⟨⟩
    exact hNew

-- ---------------------------------------------------------------------------
-- Keeping every name
-- ---------------------------------------------------------------------------

mutual

theorem TypeSignature.rename_id (t : TypeSignature) : t.rename id = t := by
  match t with
  | .primitive letter => rw [TypeSignature.rename]
  | .array element => rw [TypeSignature.rename, element.rename_id]
  | .variable name => rw [TypeSignature.rename]
  | .classType name parts => rw [TypeSignature.rename, id, renameParts_id name parts]

theorem renameParts_id (binary : String) (parts : List ClassPart) :
    renameParts id binary binary parts = parts := by
  match parts with
  | [] => rw [renameParts]
  | .arguments arguments :: more =>
    rw [renameParts, renameArguments_id arguments, renameParts_id binary more]
  | .nested name :: more =>
    rw [renameParts]
    dsimp only [id]
    rw [nestedName_of_append, renameParts_id (binary ++ "$" ++ name) more]

theorem renameArguments_id (arguments : List TypeArgument) :
    renameArguments id arguments = arguments := by
  match arguments with
  | [] => rw [renameArguments]
  | argument :: more => rw [renameArguments, argument.rename_id, renameArguments_id more]

theorem TypeArgument.rename_id (argument : TypeArgument) : argument.rename id = argument := by
  match argument with
  | .wildcard => rw [TypeArgument.rename]
  | .exactly t => rw [TypeArgument.rename, t.rename_id]
  | .bounded sign t => rw [TypeArgument.rename, t.rename_id]

end

theorem TypeSignature.map_rename_id (list : List TypeSignature) : list.map (·.rename id) = list :=
  (List.map_congr_left fun t _ => t.rename_id).trans (List.map_id _)

theorem TypeParameter.rename_id (p : TypeParameter) : p.rename id = p := by
  obtain ⟨name, bound, bounds⟩ := p
  have hBound : bound.map (·.rename id) = bound := by cases bound <;> simp [TypeSignature.rename_id]
  rw [TypeParameter.rename, hBound, TypeSignature.map_rename_id]

theorem SignatureBody.rename_id (b : SignatureBody) : b.rename id = b := by
  cases b with
  | types list => rw [SignatureBody.rename, TypeSignature.map_rename_id]
  | method parameters returns throws =>
    rw [SignatureBody.rename, TypeSignature.map_rename_id, TypeSignature.map_rename_id,
      TypeSignature.rename_id]

/-- **The renaming that keeps every name** keeps a signature. -/
theorem Signature.rename_id (s : Signature) : s.rename id = s := by
  obtain ⟨parameters, body⟩ := s
  have hParameters : parameters.map (·.map (·.rename id)) = parameters := by
    cases parameters <;> simp [TypeParameter.rename_id]
  rw [Signature.rename, hParameters, SignatureBody.rename_id]

end Jarsmith
