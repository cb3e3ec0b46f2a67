import Jarsmith.ClassFile.Fault

/-!
# Targets of type annotations

What an annotation of a type is attached to: the kind of the place, which is known by a tag, what the
annotation says about the place, and the way from the type that stands there to one of its parts.

* `TargetKind` — the kinds, with their tags.
* `TargetForm`, `TargetInfo` — what an annotation says about a place. Several kinds share a form.
* `TypePathStep` — a step from a type to one of its parts.
-/

namespace Jarsmith

-- ---------------------------------------------------------------------------
-- Kinds of places
-- ---------------------------------------------------------------------------

/-- A kind of place at which an annotated type stands. -/
inductive TargetKind where
  | classTypeParameter
  | methodTypeParameter
  | classExtends
  | classTypeParameterBound
  | methodTypeParameterBound
  | field
  | methodReturn
  | methodReceiver
  | methodFormalParameter
  | throws
  | localVariable
  | resourceVariable
  | exceptionParameter
  | instanceOf
  | new
  | constructorReference
  | methodReference
  | cast
  | constructorInvocationTypeArgument
  | methodInvocationTypeArgument
  | constructorReferenceTypeArgument
  | methodReferenceTypeArgument
  deriving DecidableEq, Repr

/-- The shapes of what an annotation says about a place. -/
inductive TargetForm where
  | typeParameter
  | superType
  | typeParameterBound
  | empty
  | formalParameter
  | throws
  | localVariable
  | handler
  | offset
  | typeArgument
  deriving DecidableEq, Repr

namespace TargetKind

/-- The kind that a tag stands for. -/
def ofTag? (tag : UInt8) : Option TargetKind :=
  match tag.toNat with
  | 0x00 => some classTypeParameter
  | 0x01 => some methodTypeParameter
  | 0x10 => some classExtends
  | 0x11 => some classTypeParameterBound
  | 0x12 => some methodTypeParameterBound
  | 0x13 => some field
  | 0x14 => some methodReturn
  | 0x15 => some methodReceiver
  | 0x16 => some methodFormalParameter
  | 0x17 => some throws
  | 0x40 => some localVariable
  | 0x41 => some resourceVariable
  | 0x42 => some exceptionParameter
  | 0x43 => some instanceOf
  | 0x44 => some new
  | 0x45 => some constructorReference
  | 0x46 => some methodReference
  | 0x47 => some cast
  | 0x48 => some constructorInvocationTypeArgument
  | 0x49 => some methodInvocationTypeArgument
  | 0x4A => some constructorReferenceTypeArgument
  | 0x4B => some methodReferenceTypeArgument
  | _ => none

/-- The tag under which a kind is written. -/
def tag : TargetKind → UInt8
  | classTypeParameter => 0x00
  | methodTypeParameter => 0x01
  | classExtends => 0x10
  | classTypeParameterBound => 0x11
  | methodTypeParameterBound => 0x12
  | field => 0x13
  | methodReturn => 0x14
  | methodReceiver => 0x15
  | methodFormalParameter => 0x16
  | throws => 0x17
  | localVariable => 0x40
  | resourceVariable => 0x41
  | exceptionParameter => 0x42
  | instanceOf => 0x43
  | new => 0x44
  | constructorReference => 0x45
  | methodReference => 0x46
  | cast => 0x47
  | constructorInvocationTypeArgument => 0x48
  | methodInvocationTypeArgument => 0x49
  | constructorReferenceTypeArgument => 0x4A
  | methodReferenceTypeArgument => 0x4B

/-- The form of what is said about a place of a kind. -/
def form : TargetKind → TargetForm
  | classTypeParameter | methodTypeParameter => .typeParameter
  | classExtends => .superType
  | classTypeParameterBound | methodTypeParameterBound => .typeParameterBound
  | field | methodReturn | methodReceiver => .empty
  | methodFormalParameter => .formalParameter
  | throws => .throws
  | localVariable | resourceVariable => .localVariable
  | exceptionParameter => .handler
  | instanceOf | new | constructorReference | methodReference => .offset
  | cast | constructorInvocationTypeArgument | methodInvocationTypeArgument
  | constructorReferenceTypeArgument | methodReferenceTypeArgument => .typeArgument

end TargetKind

-- ---------------------------------------------------------------------------
-- What is said about a place
-- ---------------------------------------------------------------------------

/-- The supertype at which an annotation stands. -/
inductive SuperTypeTarget where
  | superclass
  | interface (index : UInt16)
  deriving DecidableEq, Repr

/-- A part of a body in which a local variable lives: the instructions from `start` to `stop`, and
its slot. -/
structure LocalVariableTarget where
  start : UInt32
  stop : UInt32
  slot : UInt16
  deriving DecidableEq, Repr

/-- What an annotation says about a place. Instructions are known by their offset in the body. -/
inductive TargetInfo where
  | typeParameter (index : UInt8)
  | superType (target : SuperTypeTarget)
  | typeParameterBound (parameter bound : UInt8)
  | empty
  | formalParameter (index : UInt8)
  | throws (index : UInt16)
  | localVariable (parts : List LocalVariableTarget)
  | handler (index : UInt16)
  | offset (instruction : UInt32)
  | typeArgument (instruction : UInt32) (argument : UInt8)
  deriving DecidableEq, Repr

/-- The number that stands for the superclass among the numbers of interfaces. -/
def SuperTypeTarget.superclassIndex : UInt16 := 0xFFFF

/-- The supertype with a number. -/
def SuperTypeTarget.ofIndex (index : UInt16) : SuperTypeTarget :=
  if index = superclassIndex then .superclass else .interface index

/-- The number of a supertype. -/
def SuperTypeTarget.index : SuperTypeTarget → UInt16
  | .superclass => superclassIndex
  | .interface index => index

namespace LocalVariableTarget

/-- The next part, of which the body says where it starts and how long it is. -/
def read : Reader LocalVariableTarget := do
  let start ← Reader.u16
  let length ← Reader.u16
  let slot ← Reader.u16
  pure ⟨start.toUInt32, start.toUInt32 + length.toUInt32, slot⟩

/-- The written form. -/
def toBytes (p : LocalVariableTarget) : Bytes :=
  putU16 p.start.toUInt16 ++ (putU16 (p.stop - p.start).toUInt16 ++ putU16 p.slot)

end LocalVariableTarget

namespace TargetInfo

/-- What is said about a place, in the given form. -/
def read : TargetForm → Reader TargetInfo
  | .typeParameter => .typeParameter <$> Reader.byte
  | .superType => (fun index => .superType (.ofIndex index)) <$> Reader.u16
  | .typeParameterBound => .typeParameterBound <$> Reader.byte <*> Reader.byte
  | .empty => pure .empty
  | .formalParameter => .formalParameter <$> Reader.byte
  | .throws => .throws <$> Reader.u16
  | .localVariable => .localVariable <$> Reader.table LocalVariableTarget.read
  | .handler => .handler <$> Reader.u16
  | .offset => (fun instruction => .offset instruction.toUInt32) <$> Reader.u16
  | .typeArgument =>
    (fun instruction => .typeArgument instruction.toUInt32) <$> Reader.u16 <*> Reader.byte

/-- The written form. -/
def toBytes : TargetInfo → Bytes
  | .typeParameter index => [index]
  | .superType target => putU16 target.index
  | .typeParameterBound parameter bound => [parameter, bound]
  | .empty => []
  | .formalParameter index => [index]
  | .throws index => putU16 index
  | .localVariable parts =>
    putU16 (UInt16.ofNat parts.length) ++ parts.flatMap LocalVariableTarget.toBytes
  | .handler index => putU16 index
  | .offset instruction => putU16 instruction.toUInt16
  | .typeArgument instruction argument => putU16 instruction.toUInt16 ++ [argument]

end TargetInfo

-- ---------------------------------------------------------------------------
-- Ways into a type
-- ---------------------------------------------------------------------------

/-- The parts of a type to which a step leads. -/
inductive TypePathKind where
  | arrayElement
  | innerType
  | wildcardBound
  | typeArgument
  deriving DecidableEq, Repr

/-- The kind of step that a tag stands for. -/
def TypePathKind.ofTag? (tag : UInt8) : Option TypePathKind :=
  match tag.toNat with
  | 0 => some .arrayElement
  | 1 => some .innerType
  | 2 => some .wildcardBound
  | 3 => some .typeArgument
  | _ => none

/-- The tag under which a kind of step is written. -/
def TypePathKind.tag : TypePathKind → UInt8
  | .arrayElement => 0
  | .innerType => 1
  | .wildcardBound => 2
  | .typeArgument => 3

/-- A step from a type to one of its parts. -/
structure TypePathStep where
  kind : TypePathKind
  argument : UInt8
  deriving DecidableEq, Repr

namespace TypePathStep

/-- The next step. -/
def read : Reader TypePathStep :=
  Reader.tagged TypePathKind.ofTag? fun kind => mk kind <$> Reader.byte

/-- The written form. -/
def toBytes (step : TypePathStep) : Bytes := [step.kind.tag, step.argument]

end TypePathStep

end Jarsmith
