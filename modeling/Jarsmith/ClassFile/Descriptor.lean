import Jarsmith.Text.Split

/-!
# Descriptors

The types of fields and methods as class files write them: a letter for a primitive type, `L` and a
name up to `;` for a class, one bracket for each dimension of an array, and for a method the
parameter types in parentheses before the type it returns.

* `FieldType.parse` and `MethodType.parse` read a whole descriptor; `toChars` writes it.
* `Descriptor.rename` renames every class of a descriptor and leaves a text that is none alone.
* `Descriptor.layout` places the parameters of a method in its local variables.
-/

namespace Jarsmith

/-- Why a text is no descriptor. -/
inductive DescriptorFault where
  | noParenthesis
  | unrecognized
  | noSemicolon
  | tooManyDimensions
  | closedArray
  | closedField
  | noReturnType
  | endOfInput
  | trailing
  deriving DecidableEq, Repr

/-- The wording of a fault. -/
def DescriptorFault.message : DescriptorFault → String
  | .noParenthesis => "Invalid descriptor: Method descriptor must start with '('."
  | .unrecognized => "Invalid descriptor: Unrecognized type descriptor."
  | .noSemicolon => "Invalid descriptor: Missing semicolon in class name descriptor."
  | .tooManyDimensions => "Array has too many dimensions."
  | .closedArray => "Invalid descriptor: Invalid descriptor."
  | .closedField => "Invalid descriptor: Invalid descriptor"
  | .noReturnType => "Invalid descriptor: Missing return type."
  | .endOfInput => "Unexpected end of input."
  | .trailing => "trailing characters"

/-- The types that are written with a single letter. -/
inductive Primitive where
  | boolean | byte | char | short | int | long | float | double | void
  deriving DecidableEq, Repr

namespace Primitive

/-- The letter of a primitive type. -/
def letter : Primitive → Char
  | boolean => 'Z'
  | byte => 'B'
  | char => 'C'
  | short => 'S'
  | int => 'I'
  | long => 'J'
  | float => 'F'
  | double => 'D'
  | void => 'V'

/-- The primitive type of a letter. -/
def ofLetter? : Char → Option Primitive
  | 'Z' => some boolean
  | 'B' => some byte
  | 'C' => some char
  | 'S' => some short
  | 'I' => some int
  | 'J' => some long
  | 'F' => some float
  | 'D' => some double
  | 'V' => some void
  | _ => none

@[simp] theorem ofLetter?_letter (p : Primitive) : ofLetter? p.letter = some p := by
  cases p <;> rfl

end Primitive

/-- A type that is no array: a primitive one, or a class by its internal name. -/
inductive ElementType where
  | primitive (p : Primitive)
  | object (name : String)
  deriving DecidableEq, Repr

/-- A type of a field: an element under any number of array dimensions. -/
structure FieldType where
  dimensions : Nat
  element : ElementType
  deriving DecidableEq, Repr

/-- The type of a method. -/
structure MethodType where
  parameters : List FieldType
  returns : FieldType
  deriving DecidableEq, Repr

namespace ElementType

/-- The written form. -/
def toChars : ElementType → List Char
  | primitive p => [p.letter]
  | object name => 'L' :: (name.toList ++ [';'])

/-- Renames the class, if the type is one. -/
def rename (f : String → String) : ElementType → ElementType
  | primitive p => primitive p
  | object name => object (f name)

/-- The type at the front of a text, and the rest of the text. -/
def scan : List Char → Except DescriptorFault (ElementType × List Char)
  | [] => .error .endOfInput
  | 'L' :: rest =>
    match Text.cutFirst? ';' rest with
    | some (name, rest) => .ok (object (String.ofList name), rest)
    | none => .error .noSemicolon
  | c :: rest =>
    match Primitive.ofLetter? c with
    | some p => .ok (primitive p, rest)
    | none => .error .unrecognized

theorem length_scan {text rest : List Char} {t : ElementType}
    (h : scan text = .ok (t, rest)) : rest.length < text.length := by
  unfold scan at h
  split at h
  · simp at h
  · rename_i tail
    cases hc : Text.cutFirst? ';' tail with
    | none => simp [hc] at h
    | some p =>
      simp only [hc, Except.ok.injEq, Prod.mk.injEq] at h
      have := Text.length_cutFirst? hc
      rw [← h.2]
      simp only [List.length_cons]
      omega
  · split at h
    · simp only [Except.ok.injEq, Prod.mk.injEq] at h
      simp [← h.2]
    · simp at h

end ElementType

namespace FieldType

/-- The written form. -/
def toChars (t : FieldType) : List Char :=
  List.replicate t.dimensions '[' ++ t.element.toChars

instance : ToString FieldType := ⟨fun t => String.ofList t.toChars⟩

/-- Renames the class of the element, if it is one. -/
def rename (f : String → String) (t : FieldType) : FieldType :=
  { t with element := t.element.rename f }

/-- The greatest number of dimensions of an array. -/
def maxDimensions : Nat := 255

/-- The type at the front of a text, and the rest of the text. -/
def scan (text : List Char) : Except DescriptorFault (FieldType × List Char) :=
  let dimensions := (text.takeWhile (· == '[')).length
  if maxDimensions < dimensions then .error .tooManyDimensions
  else
    match text.dropWhile (· == '[') with
    | ')' :: _ => .error .closedArray
    | element => (ElementType.scan element).map fun (element, rest) => (⟨dimensions, element⟩, rest)

/-- The type that a text starts with, whatever follows it. -/
def front : List Char → Except DescriptorFault FieldType
  | ')' :: _ => .error .closedField
  | text => (scan text).map (·.1)

/-- The type that a text writes. -/
def parse (text : String) : Except DescriptorFault FieldType := do
  let type ← front text.toList
  if type.toChars = text.toList then pure type else throw .trailing

/-- The local variables that a value of the type takes. -/
def slots (t : FieldType) : UInt16 :=
  match t with
  | ⟨0, .primitive .long⟩ | ⟨0, .primitive .double⟩ => 2
  | _ => 1

theorem length_scan {text rest : List Char} {t : FieldType}
    (h : scan text = .ok (t, rest)) : rest.length < text.length := by
  have drop : (text.dropWhile (· == '[')).length ≤ text.length :=
    (List.dropWhile_sublist _).length_le
  simp only [scan] at h
  split at h
  · simp at h
  · split at h
    · simp at h
    · cases he : ElementType.scan (text.dropWhile (· == '[')) with
      | error e => simp [he, Except.map] at h
      | ok p =>
        simp only [he, Except.map, Except.ok.injEq, Prod.mk.injEq] at h
        have := ElementType.length_scan he
        rw [← h.2]
        omega

end FieldType

namespace MethodType

/-- The written form. -/
def toChars (t : MethodType) : List Char :=
  '(' :: (t.parameters.flatMap FieldType.toChars ++ ')' :: t.returns.toChars)

instance : ToString MethodType := ⟨fun t => String.ofList t.toChars⟩

/-- Renames every class. -/
def rename (f : String → String) (t : MethodType) : MethodType :=
  ⟨t.parameters.map (·.rename f), t.returns.rename f⟩

/-- The types before the closing parenthesis, and what follows it. -/
def scanParameters (text : List Char) : Except DescriptorFault (List FieldType × List Char) :=
  match text with
  | [] => .error .endOfInput
  | ')' :: rest => .ok ([], rest)
  | c :: tail =>
    match _h : FieldType.scan (c :: tail) with
    | .error fault => .error fault
    | .ok (first, rest) =>
      (scanParameters rest).map fun (more, rest) => (first :: more, rest)
termination_by text.length
decreasing_by exact FieldType.length_scan _h

/-- The type that a text starts with, whatever follows it. -/
def front : List Char → Except DescriptorFault MethodType
  | '(' :: rest => do
    let (parameters, rest) ← scanParameters rest
    match rest with
    | [] => throw .endOfInput
    | ')' :: _ => throw .noReturnType
    | rest =>
      let (returns, _) ← FieldType.scan rest
      pure ⟨parameters, returns⟩
  | _ => .error .noParenthesis

/-- The type that a text writes. -/
def parse (text : String) : Except DescriptorFault MethodType := do
  let type ← front text.toList
  if type.toChars = text.toList then pure type else throw .trailing

end MethodType

namespace Descriptor

/-- Renames every class of a field or method descriptor. A text that is no descriptor stays. -/
def rename (f : String → String) (text : String) : String :=
  if !Text.hasChar text 'L' then text
  else if Text.startsWith text "(" then
    match MethodType.parse text with
    | .ok type => toString (type.rename f)
    | .error _ => text
  else
    match FieldType.parse text with
    | .ok type => toString (type.rename f)
    | .error _ => text

/-- Renames a class by its internal name; the name of an array class is a descriptor. -/
def renameInternal (f : String → String) (name : String) : String :=
  if Text.startsWith name "[" then rename f name else f name

/-- The internal name of the class that a method returns, if it returns a plain class. -/
def returnClass? (text : String) : Option String :=
  match MethodType.parse text with
  | .ok ⟨_, ⟨0, .object name⟩⟩ => some name
  | _ => none

/-- The first slot of each parameter from `slot` on, and the first slot after them. -/
def place (slot : UInt16) : List FieldType → List UInt16 × UInt16
  | [] => ([], slot)
  | type :: more =>
    let (slots, stop) := place (slot + type.slots) more
    (slot :: slots, stop)

/-- The first local variable of each parameter and the first one after the parameters. An instance
method keeps its receiver in slot 0. -/
def layout (text : String) (isStatic : Bool) : Except DescriptorFault (List UInt16 × UInt16) :=
  (MethodType.parse text).map fun type => place (if isStatic then 0 else 1) type.parameters

end Descriptor

end Jarsmith
