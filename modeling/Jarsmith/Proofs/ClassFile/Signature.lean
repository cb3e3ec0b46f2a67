import Jarsmith.ClassFile.Signature
import Jarsmith.Proofs.Outcome
import Jarsmith.Proofs.Text.Split
import Mathlib.Data.List.Chain

/-!
# What signatures write

The reader of signatures accepts exactly the written forms of well-formed signatures, and gives the
signature back that a text writes.

* `Signature.WellFormed` — what a signature must be like to be read from its written form.
* `Signature.scans_depth`, `Signature.scanType_toChars` — a scan takes the written form of a type off
  the text, and of nothing else; the bound on its depth is never met.
* `Signature.marked_eq_ok`, `Signature.typeParameter_eq_ok` — where a row of bounds ends.
* `Signature.parse_eq_ok` — the reader is the inverse of the written form.
-/

namespace Jarsmith

-- ---------------------------------------------------------------------------
-- Well-formed signatures
-- ---------------------------------------------------------------------------

/-- The characters that end the name of a class. -/
def classStops : List Char := ['<', '.', ';']

/-- A name ends at the first of these characters. -/
def IsClassName (name : String) : Prop := ∀ c ∈ name.toList, c ∉ classStops

mutual

/-- A type that can be read: no name holds a character that ends it. -/
def TypeSignature.WellFormed : TypeSignature → Prop
  | .primitive letter => letter ∈ Signature.primitiveLetters
  | .array element => element.WellFormed
  | .variable name => ';' ∉ name.toList
  | .classType name parts => IsClassName name ∧ PartsWellFormed parts

/-- What follows an outer name and can be read. -/
def PartsWellFormed : List ClassPart → Prop
  | [] => True
  | .arguments arguments :: more => ArgumentsWellFormed arguments ∧ PartsWellFormed more
  | .nested name :: more => IsClassName name ∧ PartsWellFormed more

/-- Type arguments that can be read. -/
def ArgumentsWellFormed : List TypeArgument → Prop
  | [] => True
  | argument :: more => argument.WellFormed ∧ ArgumentsWellFormed more

/-- A type argument that can be read. -/
def TypeArgument.WellFormed : TypeArgument → Prop
  | .wildcard => True
  | .exactly type => type.WellFormed
  | .bounded sign type => (sign = '+' ∨ sign = '-') ∧ type.WellFormed

end

mutual

/-- How deep the reader of a type goes: every step into the type and along a list counts. -/
def TypeSignature.height : TypeSignature → Nat
  | .primitive _ => 1
  | .array element => element.height + 1
  | .variable _ => 1
  | .classType _ parts => partsHeight parts + 1

def partsHeight : List ClassPart → Nat
  | [] => 1
  | .arguments arguments :: more => max (argumentsHeight arguments) (partsHeight more) + 1
  | .nested _ :: more => partsHeight more + 1

def argumentsHeight : List TypeArgument → Nat
  | [] => 1
  | argument :: more => max argument.height (argumentsHeight more) + 1

def TypeArgument.height : TypeArgument → Nat
  | .wildcard => 0
  | .exactly type => type.height
  | .bounded _ type => type.height

end

/-- A type parameter that can be read. A closing bracket in front would end the list. -/
structure TypeParameter.WellFormed (p : TypeParameter) : Prop where
  name : ':' ∉ p.name.toList
  front : p.name.toList.head? ≠ some '>'
  classBound : ∀ t ∈ p.classBound, t.WellFormed
  interfaceBounds : ∀ t ∈ p.interfaceBounds, t.WellFormed

/-- Whether another parameter can follow: the first one has a bound, and the second one a name, for
what follows a lone colon is a bound. -/
def TypeParameter.CanPrecede (p next : TypeParameter) : Prop :=
  (p.classBound = none → p.interfaceBounds ≠ []) ∧ next.name ≠ ""

/-- Type parameters that can be read. -/
def ParametersWellFormed (list : List TypeParameter) : Prop :=
  (∀ p ∈ list, p.WellFormed) ∧ list.IsChain TypeParameter.CanPrecede

/-- What follows the type parameters and can be read. -/
def SignatureBody.WellFormed : SignatureBody → Prop
  | .types list => ∀ t ∈ list, t.WellFormed
  | .method parameters returns throws =>
    (∀ t ∈ parameters, t.WellFormed) ∧ returns.WellFormed ∧ ∀ t ∈ throws, t.WellFormed

/-- A signature that can be read. -/
def Signature.WellFormed (s : Signature) : Prop :=
  (∀ list ∈ s.parameters, ParametersWellFormed list) ∧ s.body.WellFormed

-- ---------------------------------------------------------------------------
-- Written forms
-- ---------------------------------------------------------------------------

/-- A type starts with a letter or a bracket. -/
theorem TypeSignature.WellFormed.exists_toChars {t : TypeSignature} (h : t.WellFormed) :
    ∃ c more, t.toChars = c :: more ∧ c ∈ '[' :: 'T' :: 'L' :: Signature.primitiveLetters := by
  cases t with
  | primitive letter =>
    rw [TypeSignature.WellFormed] at h
    rw [TypeSignature.toChars]
    exact ⟨letter, [], rfl, List.mem_cons_of_mem _ (List.mem_cons_of_mem _ (List.mem_cons_of_mem _ h))⟩
  | array element => exact ⟨'[', element.toChars, by rw [TypeSignature.toChars], by decide⟩
  | «variable» name => exact ⟨'T', _, by rw [TypeSignature.toChars], by decide⟩
  | classType name parts => exact ⟨'L', _, by rw [TypeSignature.toChars], by decide⟩

mutual

/-- The written form of a type is as long as the reader goes deep. -/
theorem TypeSignature.height_le (t : TypeSignature) : t.height ≤ t.toChars.length := by
  match t with
  | .primitive letter => simp [TypeSignature.height, TypeSignature.toChars]
  | .array element =>
    have := element.height_le
    simp [TypeSignature.height, TypeSignature.toChars, this]
  | .variable name => simp [TypeSignature.height, TypeSignature.toChars]
  | .classType name parts =>
    have := partsHeight_le parts
    simp [TypeSignature.height, TypeSignature.toChars]
    omega

theorem partsHeight_le (parts : List ClassPart) :
    partsHeight parts ≤ (partsToChars parts).length + 1 := by
  match parts with
  | [] => simp [partsHeight]
  | .arguments arguments :: more =>
    have := argumentsHeight_le arguments
    have := partsHeight_le more
    simp [partsHeight, partsToChars, ClassPart.toChars]
    omega
  | .nested name :: more =>
    have := partsHeight_le more
    simp [partsHeight, partsToChars, ClassPart.toChars]
    omega

theorem argumentsHeight_le (arguments : List TypeArgument) :
    argumentsHeight arguments ≤ (argumentsToChars arguments).length + 1 := by
  match arguments with
  | [] => simp [argumentsHeight]
  | argument :: more =>
    have := argument.height_lt
    have := argumentsHeight_le more
    simp [argumentsHeight, argumentsToChars]
    omega

theorem TypeArgument.height_lt (argument : TypeArgument) :
    argument.height ≤ argument.toChars.length ∧ 0 < argument.toChars.length := by
  match argument with
  | .wildcard => simp [TypeArgument.height, TypeArgument.toChars]
  | .exactly type =>
    have := type.height_le
    have : 0 < type.height := by cases type <;> simp [TypeSignature.height]
    simp only [TypeArgument.height, TypeArgument.toChars]
    omega
  | .bounded sign type =>
    have := type.height_le
    simp [TypeArgument.height, TypeArgument.toChars]
    omega

end

namespace Signature

variable {α β : Type} {x : Step α} {text rest : List Char}

-- ---------------------------------------------------------------------------
-- Steps of the reader
-- ---------------------------------------------------------------------------

theorem bind_eq_ok {f : α → Step β} {b : β} : (x >>= f) text = .ok (b, rest) ↔
    ∃ a mid, x text = .ok (a, mid) ∧ f a mid = .ok (b, rest) := by
  change ((x text).bind fun p => f p.1 p.2) = _ ↔ _
  cases hx : x text with
  | error fault => exact iff_of_false nofun fun ⟨_, _, hEq, _⟩ => nomatch hEq
  | ok p =>
    constructor
    · exact fun h => ⟨p.1, p.2, rfl, h⟩
    · rintro ⟨_, _, ⟨⟩, h⟩
      exact h

theorem pure_eq_ok {a b : α} : (pure a : Step α) text = .ok (b, rest) ↔ a = b ∧ text = rest := by
  change Except.ok (a, text) = _ ↔ _
  rw [Except.ok.injEq, Prod.mk.injEq]

theorem map_eq_ok {g : α → β} {b : β} :
    (g <$> x) text = .ok (b, rest) ↔ ∃ a, x text = .ok (a, rest) ∧ g a = b := by
  rw [map_eq_pure_bind, bind_eq_ok]
  constructor
  · rintro ⟨a, mid, hx, hPure⟩
    obtain ⟨hValue, rfl⟩ := pure_eq_ok.1 hPure
    exact ⟨a, hx, hValue⟩
  · rintro ⟨a, hx, hValue⟩
    exact ⟨a, rest, hx, pure_eq_ok.2 ⟨hValue, rfl⟩⟩

theorem next_eq_ok {c : Char} : next text = .ok (c, rest) ↔ text = c :: rest := by
  cases text with
  | nil => exact iff_of_false nofun nofun
  | cons d more =>
    show Except.ok (d, more) = _ ↔ _
    rw [Except.ok.injEq, Prod.mk.injEq, List.cons.injEq]

/-- A name ends in front of the first stop. -/
theorem identifier_eq_ok {stops name : List Char} : identifier stops text = .ok (name, rest) ↔
    (∀ c ∈ name, c ∉ stops) ∧ text = name ++ rest ∧ ∃ c ∈ stops, ∃ more, rest = c :: more := by
  induction text generalizing name with
  | nil =>
    refine iff_of_false nofun ?_
    rintro ⟨-, hText, c, -, more, rfl⟩
    cases name <;> cases hText
  | cons c more ih =>
    rw [identifier]
    split
    · rename_i hStop
      rw [Except.ok.injEq, Prod.mk.injEq]
      constructor
      · rintro ⟨rfl, rfl⟩
        exact ⟨nofun, rfl, c, hStop, more, rfl⟩
      · rintro ⟨hName, hText, -⟩
        cases name with
        | nil => exact ⟨rfl, hText⟩
        | cons d name =>
          obtain ⟨rfl, -⟩ := List.cons.inj hText
          exact absurd hStop (hName c List.mem_cons_self)
    · rename_i hStop
      show (_ <$> identifier stops more) = _ ↔ _
      rw [Outcome.map_ok_iff]
      constructor
      · rintro ⟨⟨name, after⟩, hName, hEq⟩
        obtain ⟨rfl, rfl⟩ := Prod.mk.inj hEq
        obtain ⟨hAll, rfl, hNext⟩ := ih.1 hName
        exact ⟨List.forall_mem_cons.2 ⟨hStop, hAll⟩, rfl, hNext⟩
      · rintro ⟨hAll, hText, d, hd, after, rfl⟩
        cases name with
        | nil =>
          obtain ⟨rfl, -⟩ := List.cons.inj hText
          exact absurd hd hStop
        | cons e name =>
          obtain ⟨rfl, rfl⟩ := List.cons.inj hText
          exact ⟨(name, d :: after),
            ih.2 ⟨(List.forall_mem_cons.1 hAll).2, rfl, d, hd, after, rfl⟩, rfl⟩

/-- A name with its only stop. -/
theorem identifier_next {stop : Char} {name : List Char} {c : Char} :
    (∃ mid, identifier [stop] text = .ok (name, mid) ∧ next mid = .ok (c, rest)) ↔
      stop ∉ name ∧ c = stop ∧ text = name ++ stop :: rest := by
  constructor
  · rintro ⟨mid, hName, hNext⟩
    obtain ⟨hAll, rfl, d, hStop, more, rfl⟩ := identifier_eq_ok.1 hName
    obtain rfl := List.mem_singleton.1 hStop
    obtain ⟨rfl, rfl⟩ := List.cons.inj (next_eq_ok.1 hNext)
    exact ⟨fun hMem => hAll _ hMem (List.mem_singleton.2 rfl), rfl, rfl⟩
  · rintro ⟨hName, rfl, rfl⟩
    refine ⟨c :: rest, identifier_eq_ok.2 ⟨fun d hd hStop => ?_, rfl, c, List.mem_singleton.2 rfl,
      rest, rfl⟩, rfl⟩
    rw [List.mem_singleton.1 hStop] at hd
    exact hName hd

-- ---------------------------------------------------------------------------
-- Types
-- ---------------------------------------------------------------------------

/-- What the step gives can be read, and its written form stood at the front of the text. -/
def Scans (x : Step α) (P : α → Prop) (w : α → List Char) : Prop :=
  ∀ {text a rest}, x text = .ok (a, rest) → P a ∧ text = w a ++ rest

theorem isClassName_of_identifier {name : List Char}
    (h : identifier ['<', '.', ';'] text = .ok (name, rest)) :
    IsClassName (String.ofList name) ∧ text = name ++ rest := by
  obtain ⟨hName, hText, -⟩ := identifier_eq_ok.1 h
  refine ⟨?_, hText⟩
  unfold IsClassName
  rw [String.toList_ofList]
  exact hName

/-- The readers of types, of the parts of class types and of type arguments, each with the bracket
that ends it. -/
theorem scans_depth (depth : Nat) :
    Scans (scanType depth) TypeSignature.WellFormed TypeSignature.toChars ∧
      Scans (scanParts depth) PartsWellFormed (fun parts => partsToChars parts ++ [';']) ∧
      Scans (scanArguments depth) ArgumentsWellFormed
        (fun arguments => argumentsToChars arguments ++ ['>']) := by
  induction depth with
  | zero => exact ⟨nofun, nofun, nofun⟩
  | succ depth ih =>
    obtain ⟨hType, hParts, hArguments⟩ := ih
    refine ⟨?type, ?parts, ?arguments⟩
    case type =>
      intro text t rest h
      rw [scanType] at h
      dsimp only at h
      split at h
      · cases h
      rename_i c more
      split at h
      · rename_i hLetter
        cases h
        exact ⟨hLetter, rfl⟩
      split at h
      · rename_i hArray
        obtain ⟨element, hElement, rfl⟩ := map_eq_ok.1 h
        obtain ⟨hWell, rfl⟩ := hType hElement
        exact ⟨hWell, congrArg (· :: _) hArray⟩
      split at h
      · rename_i hVariable
        obtain ⟨name, mid, hName, h⟩ := bind_eq_ok.1 h
        obtain ⟨c, rest, hNext, h⟩ := bind_eq_ok.1 h
        obtain ⟨rfl, rfl⟩ := pure_eq_ok.1 h
        obtain ⟨hWell, -, rfl⟩ := identifier_next.1 ⟨mid, hName, hNext⟩
        refine ⟨?_, by simp [hVariable, TypeSignature.toChars]⟩
        rwa [TypeSignature.WellFormed, String.toList_ofList]
      split at h
      · rename_i hClass
        obtain ⟨name, mid, hName, h⟩ := bind_eq_ok.1 h
        obtain ⟨parts, rest, hTail, h⟩ := bind_eq_ok.1 h
        obtain ⟨rfl, rfl⟩ := pure_eq_ok.1 h
        obtain ⟨hWell, rfl⟩ := isClassName_of_identifier hName
        obtain ⟨hWellParts, rfl⟩ := hParts hTail
        exact ⟨⟨hWell, hWellParts⟩, by simp [hClass, TypeSignature.toChars]⟩
      · cases h
    case parts =>
      intro text parts rest h
      rw [scanParts] at h
      dsimp only at h
      split at h
      · obtain ⟨arguments, mid, hFirst, h⟩ := bind_eq_ok.1 h
        obtain ⟨more, rest, hMore, h⟩ := bind_eq_ok.1 h
        obtain ⟨rfl, rfl⟩ := pure_eq_ok.1 h
        obtain ⟨hWell, rfl⟩ := hArguments hFirst
        obtain ⟨hWellMore, rfl⟩ := hParts hMore
        exact ⟨⟨hWell, hWellMore⟩, by simp [partsToChars, ClassPart.toChars]⟩
      · obtain ⟨name, mid, hName, h⟩ := bind_eq_ok.1 h
        obtain ⟨more, rest, hMore, h⟩ := bind_eq_ok.1 h
        obtain ⟨rfl, rfl⟩ := pure_eq_ok.1 h
        obtain ⟨hWell, rfl⟩ := isClassName_of_identifier hName
        obtain ⟨hWellMore, rfl⟩ := hParts hMore
        exact ⟨⟨hWell, hWellMore⟩, by simp [partsToChars, ClassPart.toChars]⟩
      · cases h
        exact ⟨trivial, rfl⟩
      · cases h
    case arguments =>
      intro text arguments rest h
      rw [scanArguments] at h
      dsimp only at h
      split at h
      · cases h
      · cases h
        exact ⟨trivial, rfl⟩
      · obtain ⟨more, hMore, rfl⟩ := map_eq_ok.1 h
        obtain ⟨hWell, rfl⟩ := hArguments hMore
        exact ⟨⟨trivial, hWell⟩, rfl⟩
      · split at h
        · rename_i hSign
          obtain ⟨t, mid, hFirst, h⟩ := bind_eq_ok.1 h
          obtain ⟨more, rest, hMore, h⟩ := bind_eq_ok.1 h
          obtain ⟨rfl, rfl⟩ := pure_eq_ok.1 h
          obtain ⟨hWell, rfl⟩ := hType hFirst
          obtain ⟨hWellMore, rfl⟩ := hArguments hMore
          exact ⟨⟨⟨hSign, hWell⟩, hWellMore⟩, by simp [argumentsToChars, TypeArgument.toChars]⟩
        · obtain ⟨t, mid, hFirst, h⟩ := bind_eq_ok.1 h
          obtain ⟨more, rest, hMore, h⟩ := bind_eq_ok.1 h
          obtain ⟨rfl, rfl⟩ := pure_eq_ok.1 h
          obtain ⟨hWell, hText⟩ := hType hFirst
          obtain ⟨hWellMore, rfl⟩ := hArguments hMore
          refine ⟨⟨hWell, hWellMore⟩, ?_⟩
          rw [hText]
          simp [argumentsToChars, TypeArgument.toChars]

/-- A class name in front of what ends it. -/
theorem identifier_append {name : String} (hName : IsClassName name) {c : Char}
    (hStop : c ∈ classStops) : identifier ['<', '.', ';'] (name.toList ++ c :: rest) =
      .ok (name.toList, c :: rest) :=
  identifier_eq_ok.2 ⟨hName, rfl, c, hStop, rest, rfl⟩

/-- What follows a name, with the semicolon, starts with what ends the name. -/
theorem partsToChars_append (parts : List ClassPart) (rest : List Char) :
    ∃ c ∈ classStops, ∃ more, partsToChars parts ++ ';' :: rest = c :: more := by
  match parts with
  | [] => exact ⟨';', by decide, rest, rfl⟩
  | .arguments arguments :: more =>
    exact ⟨'<', by decide, _, by rw [partsToChars, ClassPart.toChars]; rfl⟩
  | .nested name :: more => exact ⟨'.', by decide, _, by rw [partsToChars, ClassPart.toChars]; rfl⟩

section Depth

variable {depth : Nat}

theorem scanType_array :
    scanType (depth + 1) ('[' :: text) = (TypeSignature.array <$> scanType depth) text := by
  rw [scanType]
  exact if_neg (by decide)

theorem scanType_variable {name : String} (hName : ';' ∉ name.toList) :
    scanType (depth + 1) ('T' :: (name.toList ++ ';' :: rest)) = .ok (.variable name, rest) := by
  rw [scanType]
  dsimp only
  rw [if_neg (by decide), if_neg (by decide), if_pos rfl]
  obtain ⟨mid, hScan, hNext⟩ := identifier_next.2 ⟨hName, rfl, rfl⟩
  exact bind_eq_ok.2 ⟨_, mid, hScan, bind_eq_ok.2 ⟨_, rest, hNext,
    pure_eq_ok.2 ⟨by rw [String.ofList_toList], rfl⟩⟩⟩

theorem scanType_class : scanType (depth + 1) ('L' :: text) = (do
    let name ← identifier ['<', '.', ';']
    let parts ← scanParts depth
    pure (.classType (String.ofList name) parts) : Step TypeSignature) text := by
  rw [scanType]
  dsimp only
  rw [if_neg (by decide), if_neg (by decide), if_neg (by decide), if_pos rfl]

/-- A type argument that starts with no sign is a type. -/
theorem scanArguments_exactly {c : Char}
    (hc : c ∈ '[' :: 'T' :: 'L' :: Signature.primitiveLetters) :
    scanArguments (depth + 1) (c :: text) = (do
      let type ← scanType depth
      let more ← scanArguments depth
      pure (.exactly type :: more) : Step (List TypeArgument)) (c :: text) := by
  have hNot : c ≠ '>' ∧ c ≠ '*' ∧ ¬ (c = '+' ∨ c = '-') := by
    revert c
    decide
  rw [scanArguments]
  dsimp only
  split
  · rename_i hEq
    cases hEq
  · rename_i hEq
    exact absurd (List.cons.inj hEq).1 hNot.1
  · rename_i hEq
    exact absurd (List.cons.inj hEq).1 hNot.2.1
  · rename_i hEq
    obtain ⟨rfl, rfl⟩ := List.cons.inj hEq
    rw [if_neg hNot.2.2]

theorem scanArguments_bounded {sign : Char} (hSign : sign = '+' ∨ sign = '-') :
    scanArguments (depth + 1) (sign :: text) = (do
      let type ← scanType depth
      let more ← scanArguments depth
      pure (.bounded sign type :: more) : Step (List TypeArgument)) text := by
  rw [scanArguments]
  rcases hSign with rfl | rfl
  · exact if_pos (.inl rfl)
  · exact if_pos (.inr rfl)

end Depth

mutual

/-- A type that can be read is read from its written form. -/
theorem scanType_toChars {t : TypeSignature} {depth : Nat} {rest : List Char} (hWell : t.WellFormed)
    (hDepth : t.height ≤ depth) : scanType depth (t.toChars ++ rest) = .ok (t, rest) := by
  obtain ⟨depth, rfl⟩ : ∃ d, depth = d + 1 := Nat.exists_eq_add_one.2 (by
    cases t <;> exact Nat.lt_of_lt_of_le (Nat.succ_pos _) hDepth)
  match t with
  | .primitive letter =>
    rw [TypeSignature.toChars, List.singleton_append, scanType]
    exact if_pos hWell
  | .array element =>
    rw [TypeSignature.toChars, List.cons_append, scanType_array]
    exact map_eq_ok.2 ⟨element, scanType_toChars hWell (Nat.le_of_succ_le_succ hDepth), rfl⟩
  | .variable name =>
    rw [TypeSignature.toChars, List.cons_append, List.append_assoc]
    exact scanType_variable hWell
  | .classType name parts =>
    obtain ⟨hName, hParts⟩ := hWell
    rw [TypeSignature.toChars, List.cons_append, List.append_assoc, List.append_assoc,
      List.singleton_append, scanType_class]
    obtain ⟨c, hStop, more, hMore⟩ := partsToChars_append parts rest
    have hTail : scanParts depth (partsToChars parts ++ ';' :: rest) = _ :=
      scanParts_toChars hParts (Nat.le_of_succ_le_succ hDepth)
    rw [hMore] at hTail ⊢
    exact bind_eq_ok.2 ⟨_, _, identifier_append hName hStop, bind_eq_ok.2 ⟨parts, rest, hTail,
      pure_eq_ok.2 ⟨by rw [String.ofList_toList], rfl⟩⟩⟩

theorem scanParts_toChars {parts : List ClassPart} {depth : Nat} {rest : List Char}
    (hWell : PartsWellFormed parts) (hDepth : partsHeight parts ≤ depth) :
    scanParts depth (partsToChars parts ++ ';' :: rest) = .ok (parts, rest) := by
  obtain ⟨depth, rfl⟩ : ∃ d, depth = d + 1 := Nat.exists_eq_add_one.2 (by
    rcases parts with _ | ⟨_ | _, _⟩ <;> exact Nat.lt_of_lt_of_le (Nat.succ_pos _) hDepth)
  match parts with
  | [] =>
    rw [scanParts]
    rfl
  | .arguments arguments :: more =>
    obtain ⟨hArguments, hMore⟩ := hWell
    obtain ⟨hHere, hRest⟩ := Nat.max_le.1 (Nat.le_of_succ_le_succ hDepth)
    rw [scanParts, partsToChars, ClassPart.toChars, List.cons_append, List.cons_append,
      List.append_assoc, List.append_assoc, List.singleton_append]
    exact bind_eq_ok.2 ⟨arguments, _, scanArguments_toChars hArguments hHere,
      bind_eq_ok.2 ⟨more, rest, scanParts_toChars hMore hRest, pure_eq_ok.2 ⟨rfl, rfl⟩⟩⟩
  | .nested name :: more =>
    obtain ⟨hName, hMore⟩ := hWell
    rw [scanParts, partsToChars, ClassPart.toChars, List.cons_append, List.cons_append,
      List.append_assoc]
    obtain ⟨c, hStop, after, hAfter⟩ := partsToChars_append more rest
    have hTail : scanParts depth (partsToChars more ++ ';' :: rest) = _ :=
      scanParts_toChars hMore (Nat.le_of_succ_le_succ hDepth)
    rw [hAfter] at hTail ⊢
    exact bind_eq_ok.2 ⟨_, _, identifier_append hName hStop, bind_eq_ok.2 ⟨more, rest, hTail,
      pure_eq_ok.2 ⟨by rw [String.ofList_toList], rfl⟩⟩⟩

theorem scanArguments_toChars {arguments : List TypeArgument} {depth : Nat} {rest : List Char}
    (hWell : ArgumentsWellFormed arguments) (hDepth : argumentsHeight arguments ≤ depth) :
    scanArguments depth (argumentsToChars arguments ++ '>' :: rest) = .ok (arguments, rest) := by
  obtain ⟨depth, rfl⟩ : ∃ d, depth = d + 1 := Nat.exists_eq_add_one.2 (by
    cases arguments <;> exact Nat.lt_of_lt_of_le (Nat.succ_pos _) hDepth)
  match arguments with
  | [] =>
    rw [scanArguments]
    rfl
  | argument :: more =>
    obtain ⟨hWellFirst, hWellMore⟩ := hWell
    obtain ⟨hFirst, hMore⟩ := Nat.max_le.1 (Nat.le_of_succ_le_succ hDepth)
    rw [argumentsToChars, List.append_assoc]
    have hRest : scanArguments depth (argumentsToChars more ++ '>' :: rest) = _ :=
      scanArguments_toChars hWellMore hMore
    match argument with
    | .wildcard =>
      rw [TypeArgument.toChars, List.singleton_append, scanArguments]
      exact map_eq_ok.2 ⟨more, hRest, rfl⟩
    | .exactly type =>
      obtain ⟨c, chars, hChars, hc⟩ := TypeSignature.WellFormed.exists_toChars hWellFirst
      have hScan : scanType depth (type.toChars ++ (argumentsToChars more ++ '>' :: rest)) = _ :=
        scanType_toChars hWellFirst hFirst
      rw [TypeArgument.toChars]
      rw [hChars] at hScan ⊢
      rw [List.cons_append] at hScan ⊢
      rw [scanArguments_exactly hc]
      exact bind_eq_ok.2 ⟨type, _, hScan, bind_eq_ok.2 ⟨more, rest, hRest,
        pure_eq_ok.2 ⟨rfl, rfl⟩⟩⟩
    | .bounded sign type =>
      rw [TypeArgument.toChars, List.cons_append, scanArguments_bounded hWellFirst.1]
      exact bind_eq_ok.2 ⟨type, _, scanType_toChars hWellFirst.2 hFirst,
        bind_eq_ok.2 ⟨more, rest, hRest, pure_eq_ok.2 ⟨rfl, rfl⟩⟩⟩

end

theorem type_eq_ok {t : TypeSignature} :
    type text = .ok (t, rest) ↔ t.WellFormed ∧ text = t.toChars ++ rest := by
  refine ⟨(scans_depth _).1, ?_⟩
  rintro ⟨hWell, rfl⟩
  have hHeight := t.height_le
  refine scanType_toChars hWell ?_
  rw [List.length_append]
  omega

-- ---------------------------------------------------------------------------
-- Types in a row
-- ---------------------------------------------------------------------------

section Rows

variable {list : List TypeSignature} {count : Nat}

/-- A type stands in front of a text of another beginning. -/
theorem front_of_type {t : TypeSignature} (rest : List Char) (hWell : t.WellFormed) :
    ∃ c more, t.toChars ++ rest = c :: more ∧ c ≠ ')' ∧ c ≠ ':' ∧ c ≠ '>' ∧ c ≠ '(' ∧ c ≠ '<' := by
  obtain ⟨c, more, hChars, hc⟩ := hWell.exists_toChars
  refine ⟨c, more ++ rest, congrArg (· ++ rest) hChars, ?_⟩
  clear hChars
  revert c
  decide

theorem length_le_flatMap {α : Type} {w : α → List Char} {list : List α}
    (h : ∀ a ∈ list, 0 < (w a).length) : list.length ≤ (list.flatMap w).length := by
  induction list with
  | nil => exact Nat.zero_le _
  | cons a more ih =>
    obtain ⟨hFirst, hMore⟩ := List.forall_mem_cons.1 h
    rw [List.flatMap_cons, List.length_append, List.length_cons]
    have := ih hMore
    omega

/-- Marked types end in front of another mark, if there are no more of them than may be. -/
theorem marked_eq_ok {mark : Char} (hCount : text.length ≤ count) :
    marked mark count text = .ok (list, rest) ↔ (∀ t ∈ list, t.WellFormed) ∧
      text = list.flatMap (fun t => mark :: t.toChars) ++ rest ∧ rest.head? ≠ some mark := by
  induction count generalizing text list with
  | zero =>
    obtain rfl := List.length_eq_zero_iff.1 (Nat.le_zero.1 hCount)
    rw [marked, pure_eq_ok]
    constructor
    · rintro ⟨rfl, rfl⟩
      exact ⟨nofun, rfl, nofun⟩
    · rintro ⟨-, hText, -⟩
      cases list with
      | nil => exact ⟨rfl, hText⟩
      | cons t more => cases hText
  | succ count ih =>
    rw [marked.eq_def]
    dsimp only
    split
    · constructor
      · rintro ⟨⟩
        exact ⟨nofun, rfl, nofun⟩
      · rintro ⟨-, hText, -⟩
        cases list with
        | nil => exact congrArg (fun rest => Except.ok ([], rest)) hText
        | cons t more => cases hText
    · rename_i c tail
      have hTail : tail.length ≤ count := Nat.le_of_succ_le_succ hCount
      split
      · rename_i hMark
        subst hMark
        rw [bind_eq_ok]
        constructor
        · rintro ⟨first, mid, hFirst, h⟩
          obtain ⟨more, _, hMore, h⟩ := bind_eq_ok.1 h
          obtain ⟨rfl, rfl⟩ := pure_eq_ok.1 h
          obtain ⟨hWell, rfl⟩ := type_eq_ok.1 hFirst
          rw [List.length_append] at hTail
          obtain ⟨hWellMore, rfl, hEnd⟩ := (ih (by omega)).1 hMore
          exact ⟨List.forall_mem_cons.2 ⟨hWell, hWellMore⟩, by simp, hEnd⟩
        · rintro ⟨hWell, hText, hEnd⟩
          cases list with
          | nil =>
            obtain rfl : c :: tail = rest := hText
            exact absurd rfl hEnd
          | cons t more =>
            obtain ⟨hFirst, hMore⟩ := List.forall_mem_cons.1 hWell
            rw [List.flatMap_cons, List.cons_append, List.cons_append, List.append_assoc] at hText
            obtain rfl := (List.cons.inj hText).2
            rw [List.length_append] at hTail
            exact ⟨t, _, type_eq_ok.2 ⟨hFirst, rfl⟩, bind_eq_ok.2 ⟨more, rest,
              (ih (by omega)).2 ⟨hMore, rfl, hEnd⟩, pure_eq_ok.2 ⟨rfl, rfl⟩⟩⟩
      · rename_i hMark
        constructor
        · rintro ⟨⟩
          exact ⟨nofun, rfl, fun hHead => hMark (Option.some.inj hHead)⟩
        · rintro ⟨-, hText, -⟩
          cases list with
          | nil => exact congrArg (fun rest => Except.ok ([], rest)) hText
          | cons t more => exact absurd (List.cons.inj hText).1 hMark

theorem scans_parenthesized (count : Nat) : Scans (parenthesized count)
    (fun list => ∀ t ∈ list, t.WellFormed)
    (fun list => list.flatMap TypeSignature.toChars ++ [')']) := by
  induction count with
  | zero => exact nofun
  | succ count ih =>
    intro text list rest h
    rw [parenthesized] at h
    dsimp only at h
    split at h
    · cases h
      exact ⟨nofun, rfl⟩
    · obtain ⟨first, mid, hFirst, h⟩ := bind_eq_ok.1 h
      obtain ⟨more, rest, hMore, h⟩ := bind_eq_ok.1 h
      obtain ⟨rfl, rfl⟩ := pure_eq_ok.1 h
      obtain ⟨hWell, rfl⟩ := type_eq_ok.1 hFirst
      obtain ⟨hWellMore, rfl⟩ := ih hMore
      exact ⟨List.forall_mem_cons.2 ⟨hWell, hWellMore⟩, by simp⟩

theorem scans_typesToEnd (count : Nat) : Scans (typesToEnd count)
    (fun list => ∀ t ∈ list, t.WellFormed) (List.flatMap TypeSignature.toChars) := by
  induction count with
  | zero => exact nofun
  | succ count ih =>
    intro text list rest h
    rw [typesToEnd] at h
    dsimp only at h
    split at h
    · cases h
      exact ⟨nofun, rfl⟩
    · obtain ⟨first, mid, hFirst, h⟩ := bind_eq_ok.1 h
      obtain ⟨more, rest, hMore, h⟩ := bind_eq_ok.1 h
      obtain ⟨rfl, rfl⟩ := pure_eq_ok.1 h
      obtain ⟨hWell, rfl⟩ := type_eq_ok.1 hFirst
      obtain ⟨hWellMore, rfl⟩ := ih hMore
      exact ⟨List.forall_mem_cons.2 ⟨hWell, hWellMore⟩, by simp⟩

/-- Types up to a closing parenthesis are read from their written forms. -/
theorem parenthesized_toChars (hWell : ∀ t ∈ list, t.WellFormed) (hCount : list.length < count) :
    parenthesized count (list.flatMap TypeSignature.toChars ++ ')' :: rest) = .ok (list, rest) := by
  induction list generalizing count with
  | nil =>
    obtain ⟨count, rfl⟩ := Nat.exists_eq_add_one.2 hCount
    rfl
  | cons t more ih =>
    obtain ⟨hFirst, hMore⟩ := List.forall_mem_cons.1 hWell
    obtain ⟨count, rfl⟩ := Nat.exists_eq_add_one.2 (Nat.zero_lt_of_lt hCount)
    have hType := type_eq_ok.2 ⟨hFirst,
      rfl (a := t.toChars ++ (more.flatMap TypeSignature.toChars ++ ')' :: rest))⟩
    obtain ⟨c, chars, hChars, hClose, -⟩ := front_of_type _ hFirst
    rw [List.flatMap_cons, List.append_assoc, parenthesized]
    rw [hChars] at hType ⊢
    dsimp only
    split
    · rename_i hEq
      exact absurd (List.cons.inj hEq).1 hClose
    · exact bind_eq_ok.2 ⟨t, _, hType, bind_eq_ok.2 ⟨more, rest,
        ih hMore (Nat.lt_of_succ_lt_succ hCount), pure_eq_ok.2 ⟨rfl, rfl⟩⟩⟩

/-- Types up to the end are read from their written forms. -/
theorem typesToEnd_toChars (hWell : ∀ t ∈ list, t.WellFormed) (hCount : list.length < count) :
    typesToEnd count (list.flatMap TypeSignature.toChars) = .ok (list, []) := by
  induction list generalizing count with
  | nil =>
    obtain ⟨count, rfl⟩ := Nat.exists_eq_add_one.2 hCount
    rfl
  | cons t more ih =>
    obtain ⟨hFirst, hMore⟩ := List.forall_mem_cons.1 hWell
    obtain ⟨count, rfl⟩ := Nat.exists_eq_add_one.2 (Nat.zero_lt_of_lt hCount)
    have hType := type_eq_ok.2 ⟨hFirst, rfl (a := t.toChars ++ more.flatMap TypeSignature.toChars)⟩
    obtain ⟨c, chars, hChars, -⟩ := front_of_type _ hFirst
    rw [List.flatMap_cons, typesToEnd]
    rw [hChars] at hType ⊢
    exact bind_eq_ok.2 ⟨t, _, hType, bind_eq_ok.2 ⟨more, [],
      ih hMore (Nat.lt_of_succ_lt_succ hCount), pure_eq_ok.2 ⟨rfl, rfl⟩⟩⟩

end Rows

-- ---------------------------------------------------------------------------
-- Type parameters
-- ---------------------------------------------------------------------------

theorem classBound_eq_ok {bound : Option TypeSignature} : classBound text = .ok (bound, rest) ↔
    (∀ t ∈ bound, t.WellFormed) ∧ text = (bound.map TypeSignature.toChars).getD [] ++ rest ∧
      (bound = none → rest.head? = some ':' ∨ rest.head? = some '>') := by
  constructor
  · intro h
    unfold classBound at h
    split at h
    · cases h
      exact ⟨nofun, rfl, fun _ => .inl rfl⟩
    · cases h
      exact ⟨nofun, rfl, fun _ => .inr rfl⟩
    · obtain ⟨t, hType, rfl⟩ := map_eq_ok.1 h
      obtain ⟨hWell, hText⟩ := type_eq_ok.1 hType
      refine ⟨?_, hText, nofun⟩
      rintro _ ⟨⟩
      exact hWell
  · rintro ⟨hWell, hText, hNone⟩
    cases bound with
    | none =>
      obtain rfl : text = rest := hText
      cases text with
      | nil => exact (hNone rfl).elim nofun nofun
      | cons c more =>
        rcases hNone rfl with hHead | hHead
        all_goals
          obtain rfl := Option.some.inj hHead
          rfl
    | some t =>
      obtain rfl : text = t.toChars ++ rest := hText
      have hType := type_eq_ok.2 ⟨hWell t rfl, rfl (a := t.toChars ++ rest)⟩
      obtain ⟨c, chars, hChars, -, hColon, hClose, -⟩ := front_of_type _ (hWell t rfl)
      rw [hChars] at hType ⊢
      unfold classBound
      split
      · rename_i hEq
        exact absurd (List.cons.inj hEq).1 hColon
      · rename_i hEq
        exact absurd (List.cons.inj hEq).1 hClose
      · exact map_eq_ok.2 ⟨t, hType, rfl⟩

/-- A type parameter ends where no bound follows. -/
theorem typeParameter_eq_ok {p : TypeParameter} (hFront : text.head? ≠ some '>') :
    typeParameter text.length text = .ok (p, rest) ↔ p.WellFormed ∧ text = p.toChars ++ rest ∧
      rest.head? ≠ some ':' ∧
      (p.classBound = none → p.interfaceBounds = [] → rest.head? = some '>') := by
  constructor
  · intro h
    obtain ⟨name, mid, hName, h⟩ := bind_eq_ok.1 h
    obtain ⟨c, after, hColon, h⟩ := bind_eq_ok.1 h
    obtain ⟨bound, last, hBound, h⟩ := bind_eq_ok.1 h
    obtain ⟨bounds, _, hBounds, h⟩ := bind_eq_ok.1 h
    obtain ⟨rfl, rfl⟩ := pure_eq_ok.1 h
    obtain ⟨hNoColon, -, rfl⟩ := identifier_next.1 ⟨mid, hName, hColon⟩
    obtain ⟨hWell, rfl, hNone⟩ := classBound_eq_ok.1 hBound
    obtain ⟨hWellBounds, rfl, hEnd⟩ :=
      (marked_eq_ok (by simp only [List.length_append, List.length_cons]; omega)).1 hBounds
    refine ⟨⟨?_, ?_, hWell, hWellBounds⟩, by simp [TypeParameter.toChars], hEnd,
      fun hNoBound hNoBounds => ?_⟩
    · rwa [String.toList_ofList]
    · rw [String.toList_ofList]
      intro hHead
      obtain ⟨more, rfl⟩ := List.head?_eq_some_iff.1 hHead
      exact hFront rfl
    · obtain rfl : bounds = [] := hNoBounds
      exact (hNone hNoBound).resolve_left hEnd
  · rintro ⟨hWell, rfl, hEnd, hLast⟩
    obtain ⟨name, bound, bounds⟩ := p
    have hBounds : marked ':' (TypeParameter.toChars ⟨name, bound, bounds⟩ ++ rest).length
        (bounds.flatMap (fun t => ':' :: t.toChars) ++ rest) = .ok (bounds, rest) := by
      refine (marked_eq_ok ?_).2 ⟨hWell.interfaceBounds, rfl, hEnd⟩
      simp only [TypeParameter.toChars, List.length_append, List.length_cons]
      omega
    have hNone : bound = none → (bounds.flatMap (fun t => ':' :: t.toChars) ++ rest).head? =
        some ':' ∨ (bounds.flatMap (fun t => ':' :: t.toChars) ++ rest).head? = some '>' := by
      intro hNoBound
      cases bounds with
      | nil => exact .inr (hLast hNoBound rfl)
      | cons t more => exact .inl rfl
    obtain ⟨mid, hName, hColon⟩ := identifier_next.2 ⟨hWell.name, rfl, rfl⟩
    have hBound := classBound_eq_ok.2 ⟨hWell.classBound, rfl, hNone⟩
    unfold typeParameter
    have hText : TypeParameter.toChars ⟨name, bound, bounds⟩ ++ rest = name.toList ++ ':' ::
        ((bound.map TypeSignature.toChars).getD [] ++
          (bounds.flatMap (fun t => ':' :: t.toChars) ++ rest)) := by
      simp [TypeParameter.toChars]
    rw [hText] at hBounds ⊢
    exact bind_eq_ok.2 ⟨_, mid, hName, bind_eq_ok.2 ⟨_, _, hColon, bind_eq_ok.2 ⟨bound, _, hBound,
      bind_eq_ok.2 ⟨bounds, rest, hBounds, pure_eq_ok.2 ⟨by rw [String.ofList_toList], rfl⟩⟩⟩⟩⟩

/-- Where a type parameter is read, it stands in front of no closing bracket. -/
theorem head?_toChars {p : TypeParameter} (rest : List Char) (hWell : p.WellFormed) :
    (p.toChars ++ rest).head? ≠ some '>' ∧
      (p.name ≠ "" → (p.toChars ++ rest).head? ≠ some ':') := by
  have hFront := hWell.front
  have hName := hWell.name
  rw [TypeParameter.toChars]
  cases hChars : p.name.toList with
  | nil =>
    refine ⟨fun hHead => absurd (Option.some.inj hHead) (by decide), fun hSome => absurd ?_ hSome⟩
    rw [← String.toList_inj, hChars]
    rfl
  | cons c more =>
    rw [hChars] at hFront hName
    exact ⟨hFront, fun _ hColon => hName (Option.some.inj hColon ▸ List.mem_cons_self)⟩

theorem scans_typeParameters (count : Nat) : Scans (typeParameters count) ParametersWellFormed
    (fun list => list.flatMap TypeParameter.toChars ++ ['>']) := by
  induction count with
  | zero => exact nofun
  | succ count ih =>
    intro text list rest h
    rw [typeParameters] at h
    dsimp only at h
    split at h
    · cases h
      exact ⟨⟨nofun, .nil⟩, rfl⟩
    · rename_i hOpen
      have hFront : text.head? ≠ some '>' := fun hHead =>
        let ⟨more, hText⟩ := List.head?_eq_some_iff.1 hHead
        hOpen more hText
      obtain ⟨first, mid, hFirst, h⟩ := bind_eq_ok.1 h
      obtain ⟨more, rest, hMore, h⟩ := bind_eq_ok.1 h
      obtain ⟨rfl, rfl⟩ := pure_eq_ok.1 h
      obtain ⟨hWell, rfl, hEnd, hLast⟩ := (typeParameter_eq_ok hFront).1 hFirst
      obtain ⟨⟨hWellMore, hChain⟩, rfl⟩ := ih hMore
      refine ⟨⟨List.forall_mem_cons.2 ⟨hWell, hWellMore⟩, ?_⟩, by simp⟩
      cases more with
      | nil => exact .singleton first
      | cons next more =>
        dsimp only at hEnd hLast
        rw [List.flatMap_cons, List.append_assoc, List.append_assoc] at hEnd hLast
        refine .cons_cons ⟨fun hNone hNil => ?_, fun hEmpty => ?_⟩ hChain
        · exact (head?_toChars _ (hWellMore next List.mem_cons_self)).1 (hLast hNone hNil)
        · refine hEnd ?_
          rw [TypeParameter.toChars, hEmpty]
          rfl

/-- Type parameters are read from their written forms. -/
theorem typeParameters_toChars {list : List TypeParameter} {count : Nat}
    (hWell : ParametersWellFormed list) (hCount : list.length < count) :
    typeParameters count (list.flatMap TypeParameter.toChars ++ '>' :: rest) =
      .ok (list, rest) := by
  induction list generalizing count with
  | nil =>
    obtain ⟨count, rfl⟩ := Nat.exists_eq_add_one.2 hCount
    rfl
  | cons p more ih =>
    obtain ⟨hAll, hChain⟩ := hWell
    obtain ⟨hFirst, hMore⟩ := List.forall_mem_cons.1 hAll
    obtain ⟨count, rfl⟩ := Nat.exists_eq_add_one.2 (Nat.zero_lt_of_lt hCount)
    obtain ⟨hEnd, hLast⟩ : (more.flatMap TypeParameter.toChars ++ '>' :: rest).head? ≠ some ':' ∧
        (p.classBound = none → p.interfaceBounds = [] →
          (more.flatMap TypeParameter.toChars ++ '>' :: rest).head? = some '>') := by
      cases more with
      | nil => exact ⟨fun hHead => absurd (Option.some.inj hHead) (by decide), fun _ _ => rfl⟩
      | cons next more =>
        obtain ⟨⟨hBound, hName⟩, -⟩ := List.isChain_cons_cons.1 hChain
        rw [List.flatMap_cons, List.append_assoc]
        exact ⟨(head?_toChars _ (hMore next List.mem_cons_self)).2 hName,
          fun hNone hNil => absurd hNil (hBound hNone)⟩
    have hFront := (head?_toChars (more.flatMap TypeParameter.toChars ++ '>' :: rest) hFirst).1
    have hParameter := (typeParameter_eq_ok hFront).2 ⟨hFirst, rfl, hEnd, hLast⟩
    rw [List.flatMap_cons, List.append_assoc, typeParameters]
    dsimp only
    split
    · rename_i hEq
      rw [hEq] at hFront
      exact absurd rfl hFront
    · exact bind_eq_ok.2 ⟨p, _, hParameter, bind_eq_ok.2 ⟨more, rest,
        ih ⟨hMore, hChain.tail⟩ (Nat.lt_of_succ_lt_succ hCount), pure_eq_ok.2 ⟨rfl, rfl⟩⟩⟩

-- ---------------------------------------------------------------------------
-- Signatures
-- ---------------------------------------------------------------------------

theorem scans_scanBody : Scans scanBody SignatureBody.WellFormed SignatureBody.toChars := by
  intro text body rest h
  unfold scanBody at h
  split at h
  · rename_i tail
    obtain ⟨parameters, _, hParameters, h⟩ := bind_eq_ok.1 h
    obtain ⟨returns, last, hReturns, h⟩ := bind_eq_ok.1 h
    obtain ⟨throws, _, hThrows, h⟩ := bind_eq_ok.1 h
    obtain ⟨rfl, rfl⟩ := pure_eq_ok.1 h
    obtain ⟨hWell, rfl⟩ := scans_parenthesized _ hParameters
    obtain ⟨hWellReturns, rfl⟩ := type_eq_ok.1 hReturns
    obtain ⟨hWellThrows, rfl, -⟩ :=
      (marked_eq_ok (by simp only [List.length_append]; omega)).1 hThrows
    exact ⟨⟨hWell, hWellReturns, hWellThrows⟩, by simp [SignatureBody.toChars]⟩
  · obtain ⟨list, hList, rfl⟩ := map_eq_ok.1 h
    exact scans_typesToEnd _ hList

theorem scans_scan : Scans scan Signature.WellFormed Signature.toChars := by
  intro text s rest h
  unfold scan at h
  split at h
  · obtain ⟨parameters, _, hParameters, h⟩ := bind_eq_ok.1 h
    obtain ⟨body, _, hBody, h⟩ := bind_eq_ok.1 h
    obtain ⟨rfl, rfl⟩ := pure_eq_ok.1 h
    obtain ⟨hWell, rfl⟩ := scans_typeParameters _ hParameters
    obtain ⟨hWellBody, rfl⟩ := scans_scanBody hBody
    refine ⟨⟨?_, hWellBody⟩, by simp [Signature.toChars]⟩
    rintro _ ⟨⟩
    exact hWell
  · obtain ⟨body, hBody, rfl⟩ := map_eq_ok.1 h
    obtain ⟨hWellBody, hText⟩ := scans_scanBody hBody
    exact ⟨⟨nofun, hWellBody⟩, hText⟩

theorem length_le_toChars {list : List TypeSignature} (hWell : ∀ t ∈ list, t.WellFormed) :
    list.length ≤ (list.flatMap TypeSignature.toChars).length :=
  length_le_flatMap fun t ht =>
    let ⟨_, _, hChars, _⟩ := (hWell t ht).exists_toChars
    hChars ▸ Nat.succ_pos _

/-- What follows the type parameters is read from its written form. -/
theorem scanBody_toChars {b : SignatureBody} (hWell : b.WellFormed) :
    scanBody b.toChars = .ok (b, []) := by
  cases b with
  | types list =>
    have hList := typesToEnd_toChars hWell
      (Nat.lt_succ_of_le (length_le_toChars hWell))
    unfold scanBody
    split
    · rename_i tail hOpen
      cases list with
      | nil => cases hOpen
      | cons t more =>
        obtain ⟨c, chars, hChars, -, -, -, hNot, -⟩ :=
          front_of_type (more.flatMap TypeSignature.toChars) (hWell t List.mem_cons_self)
        rw [SignatureBody.toChars, List.flatMap_cons, hChars] at hOpen
        exact absurd (List.cons.inj hOpen).1 hNot
    · exact map_eq_ok.2 ⟨list, hList, rfl⟩
  | method parameters returns throws =>
    obtain ⟨hParameters, hReturns, hThrows⟩ := hWell
    have hLength := length_le_toChars hParameters
    obtain ⟨last, hLast⟩ : ∃ last, throws.flatMap (fun type => '^' :: type.toChars) = last :=
      ⟨_, rfl⟩
    obtain ⟨text, hText⟩ : ∃ text, parameters.flatMap TypeSignature.toChars ++ ')' ::
        (returns.toChars ++ last) = text := ⟨_, rfl⟩
    have hSize := congrArg List.length hText
    simp only [List.length_append, List.length_cons] at hSize
    have hAll : parenthesized (text.length + 1) text = .ok (parameters, returns.toChars ++ last) := by
      subst hText
      exact parenthesized_toChars hParameters (by omega)
    have hBack : marked '^' text.length last = .ok (throws, []) :=
      (marked_eq_ok (by omega)).2 ⟨hThrows, by rw [List.append_nil, hLast], nofun⟩
    rw [SignatureBody.toChars, hLast, hText]
    exact bind_eq_ok.2 ⟨parameters, _, hAll, bind_eq_ok.2 ⟨returns, _,
      type_eq_ok.2 ⟨hReturns, rfl⟩, bind_eq_ok.2 ⟨throws, [], hBack, pure_eq_ok.2 ⟨rfl, rfl⟩⟩⟩⟩

/-- A signature is read from its written form. -/
theorem scan_toChars {s : Signature} (hWell : s.WellFormed) : scan s.toChars = .ok (s, []) := by
  obtain ⟨parameters, body⟩ := s
  obtain ⟨hParameters, hBody⟩ := hWell
  have hScan := scanBody_toChars hBody
  cases parameters with
  | none =>
    show scan body.toChars = _
    unfold scan
    split
    · rename_i tail hOpen
      cases body with
      | types list =>
        cases list with
        | nil => cases hOpen
        | cons t more =>
          obtain ⟨c, chars, hChars, -, -, -, -, hNot⟩ :=
            front_of_type (more.flatMap TypeSignature.toChars) (hBody t List.mem_cons_self)
          rw [SignatureBody.toChars, List.flatMap_cons, hChars] at hOpen
          exact absurd (List.cons.inj hOpen).1 hNot
      | method parameters returns throws => cases hOpen
    · exact map_eq_ok.2 ⟨body, hScan, rfl⟩
  | some list =>
    have hSome : ∀ p ∈ list, 0 < p.toChars.length := fun p _ => by
      rw [TypeParameter.toChars, List.length_append]
      exact Nat.add_pos_right _ (Nat.succ_pos _)
    have hLength := length_le_flatMap hSome
    obtain ⟨text, hText⟩ : ∃ text, list.flatMap TypeParameter.toChars ++ '>' :: body.toChars =
        text := ⟨_, rfl⟩
    have hList : typeParameters (text.length + 1) text = .ok (list, body.toChars) := by
      subst hText
      exact typeParameters_toChars (hParameters list rfl) (by rw [List.length_append]; omega)
    have hAll : Signature.toChars ⟨some list, body⟩ = '<' :: text := by
      rw [← hText]
      simp [Signature.toChars]
    rw [hAll]
    exact bind_eq_ok.2 ⟨list, _, hList, bind_eq_ok.2 ⟨body, [], hScan, pure_eq_ok.2 ⟨rfl, rfl⟩⟩⟩

/-- **The reader is the inverse of the written form.** -/
theorem parse_eq_ok {text : String} {s : Signature} :
    parse text = .ok s ↔ s.WellFormed ∧ toString s = text := by
  unfold parse
  dsimp only
  constructor
  · intro h
    split at h
    · rename_i hScan
      cases h
      obtain ⟨hWell, hText⟩ := scans_scan hScan
      rw [List.append_nil] at hText
      exact ⟨hWell, (congrArg String.ofList hText.symm).trans String.ofList_toList⟩
    · cases h
    · cases h
  · rintro ⟨hWell, rfl⟩
    have hText : (toString s).toList = s.toChars := String.toList_ofList
    rw [hText, scan_toChars hWell]

/-- **A signature writes the text that it was read from.** -/
theorem toString_of_parse {text : String} {s : Signature} (hParse : parse text = .ok s) :
    toString s = text := (parse_eq_ok.1 hParse).2

end Signature

end Jarsmith
