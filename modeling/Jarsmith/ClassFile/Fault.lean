import Jarsmith.ClassFile.Constant
import Jarsmith.ClassFile.Descriptor

/-!
# Faults of class files

Why a class file cannot be read, edited or written, and how each cause is worded.
-/

namespace Jarsmith

/-- Why a class file cannot be read, edited or written. -/
inductive ClassFault where
  /-- The bytes do not follow the class-file format. -/
  | undecodable
  | trailingBytes
  | noConstant (index : UInt16)
  | notUtf8 (index : UInt16) (found : Constant)
  | notClass (index : UInt16) (found : Constant)
  | notNameAndType (index : UInt16) (found : Constant)
  | notMember (index : UInt16) (found : Constant)
  | irreplaceable (index : UInt16) (new : Constant)
  | poolOverflow
  /-- More things than their count can say. -/
  | tooMany (what : String)
  | attributeTooLarge
  | unpairedSurrogate (unit : Nat)
  | malformedDescriptor (text : String) (reason : DescriptorFault)
  | malformedSignature (text : String) (offset : Nat)
  | codeTooShort
  | handleMismatch (index : UInt16) (kind : HandleKind) (found : Constant)
  | noBootstrapMethod (index : UInt16)
  | bootstrapNotHandle
  deriving DecidableEq

namespace ClassFault

/-- The wording of a fault. -/
def message : ClassFault → String
  | undecodable => "decode error"
  | trailingBytes => "trailing bytes after class file"
  | noConstant index => s!"invalid constant pool index {index}"
  | notUtf8 index found => s!"expected Utf8 at {index}, found {found.shown}"
  | notClass index found => s!"expected Class at {index}, found {found.shown}"
  | notNameAndType index found => s!"expected NameAndType at {index}, found {found.shown}"
  | notMember index found => s!"expected member reference at {index}, found {found.shown}"
  | irreplaceable index new => s!"cannot replace constant {index} with {new.shown}"
  | poolOverflow => "constant pool overflow"
  | tooMany what => s!"too many {what}"
  | attributeTooLarge => "attribute too large"
  | unpairedSurrogate unit => "unpaired surrogate 0x" ++ hexNat 4 unit ++ " in string constant"
  | malformedDescriptor text reason => s!"malformed descriptor {text}: {reason.message}"
  | malformedSignature text offset => s!"malformed signature {text} at offset {offset}"
  | codeTooShort => "Code attribute shorter than its tables"
  | handleMismatch index kind found =>
    s!"method handle {index} of kind {kind.name} references {found.shown}"
  | noBootstrapMethod index => s!"missing bootstrap method {index}"
  | bootstrapNotHandle => "bootstrap method is not a method handle"

end ClassFault

/-- A computation on class files. -/
abbrev ClassResult := Except ClassFault

/-- A count as the two bytes of a class file; `what` names the counted things in the fault. -/
def count16 (n : Nat) (what : String) : ClassResult UInt16 :=
  if n < 65536 then .ok (UInt16.ofNat n) else .error (.tooMany what)

/-- Reading that must succeed. -/
def decoded {α : Type} : Option α → ClassResult α
  | some value => .ok value
  | none => .error .undecodable

namespace Descriptor

/-- The type of a field, or the fault of its descriptor. -/
def field (text : String) : ClassResult FieldType :=
  (FieldType.parse text).mapError (.malformedDescriptor text)

/-- The type of a method, or the fault of its descriptor. -/
def method (text : String) : ClassResult MethodType :=
  (MethodType.parse text).mapError (.malformedDescriptor text)

/-- The first local variable of each parameter and the first one after them, or the fault of the
descriptor. -/
def parameterSlots (text : String) (isStatic : Bool) : ClassResult (List UInt16 × UInt16) :=
  (layout text isStatic).mapError (.malformedDescriptor text)

end Descriptor

end Jarsmith
