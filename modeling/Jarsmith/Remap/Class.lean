import Jarsmith.ClassFile.Annotations
import Jarsmith.ClassFile.Code
import Jarsmith.ClassFile.Signature
import Jarsmith.ClassFile.Structure
import Jarsmith.Remap.Remapper

/-!
# Remapping classes

Every name in a class file that a remapper may change: constants, members, local variables,
signatures, annotations, nested classes and record components. Old names are read from the pool as
it was; new names are interned into the pool of the class, in which everything else stays at its
index.
-/

namespace Jarsmith

/-- What the steps of a remapping look at: the new names, the pool as it was, and the old name of
the class. -/
structure ClassRemapping where
  remapper : Remapper
  source : Pool
  owner : String

namespace ClassRemapping

open Pool (Edit)

/-- A question about the pool as it was. -/
def asking {α : Type} (r : ClassResult α) : Edit α := liftM r

/-- A generic signature with the new names of its classes. -/
def signature (r : ClassRemapping) (text : String) : ClassResult String :=
  match Signature.parse text with
  | .ok s => .ok (toString (s.rename r.remapper.className))
  | .error offset => .error (.malformedSignature text offset)

/-- The index of the new form of the descriptor at `index`. -/
def descriptorAt (r : ClassRemapping) (index : UInt16) : Edit UInt16 := do
  let old ← Pool.reading (Pool.text · index)
  Pool.repoint index (r.remapper.descriptor old)

/-- The index of `new`, or `index` when there is no new name. -/
def renamed (index : UInt16) (new : Option String) : Edit UInt16 :=
  match new with
  | some name => Pool.internText name
  | none => pure index

-- ---------------------------------------------------------------------------
-- Constants
-- ---------------------------------------------------------------------------

/-- The class whose method makes the objects behind lambda expressions. -/
def lambdaFactory : String := "java/lang/invoke/LambdaMetafactory"

/-- The new name of a call site. A call site that makes a lambda object is called like the method
that the object implements. -/
def callSiteName (r : ClassRemapping) (methods : List BootstrapMethod) (bootstrap : UInt16)
    (site : MemberKey) : ClassResult (Option String) := do
  let some method := methods[bootstrap.toNat]? | throw (.noBootstrapMethod bootstrap)
  let .methodHandle _ reference ← r.source.get method.handle | throw .bootstrapNotHandle
  let factory ← r.source.memberRef reference
  if factory.owner ≠ lambdaFactory then return none
  let some first := method.arguments.head? | return none
  let .methodType descriptor ← r.source.get first | return none
  let implemented ← r.source.text descriptor
  match Descriptor.returnClass? site.descriptor with
  | some interface => pure (r.remapper.method? interface ⟨site.name, implemented⟩)
  | none => pure none

/-- The name and the descriptor of a member that a constant refers to, renamed by `rename?`. -/
def memberNameAndType (r : ClassRemapping) (rename? : String → MemberKey → Option String)
    (index : UInt16) : Edit UInt16 := do
  let m ← asking (r.source.memberRef index)
  let name := (rename? m.owner ⟨m.name, m.descriptor⟩).getD m.name
  Pool.internNameAndType name (r.remapper.descriptor m.descriptor)

/-- Renames what the constant at `index` refers to. -/
def remapConstant (r : ClassRemapping) (methods : List BootstrapMethod) (index : UInt16) :
    Edit Unit := do
  match ← asking (r.source.get index) with
  | .classRef name =>
    let old ← asking (r.source.text name)
    let new := Descriptor.renameInternal r.remapper.className old
    if new ≠ old then
      Pool.replaceAt index (.classRef (← Pool.internText new))
  | .fieldRef owner _ =>
    let nameAndType ← r.memberNameAndType r.remapper.field? index
    Pool.replaceAt index (.fieldRef owner nameAndType)
  | .methodRef owner _ =>
    let nameAndType ← r.memberNameAndType r.remapper.method? index
    Pool.replaceAt index (.methodRef owner nameAndType)
  | .interfaceMethodRef owner _ =>
    let nameAndType ← r.memberNameAndType r.remapper.method? index
    Pool.replaceAt index (.interfaceMethodRef owner nameAndType)
  | .methodType descriptor =>
    let old ← asking (r.source.text descriptor)
    let descriptor ← Pool.repoint descriptor (r.remapper.descriptor old)
    Pool.replaceAt index (.methodType descriptor)
  | .methodHandle kind reference =>
    let target ← asking (r.source.get reference)
    if kind.isField != target.isFieldRef then throw (.handleMismatch index kind target)
  | .invokeDynamic bootstrap nameAndType =>
    let (name, descriptor) ← asking (r.source.nameAndType nameAndType)
    let new ← asking (r.callSiteName methods bootstrap ⟨name, descriptor⟩)
    let nameAndType ←
      Pool.internNameAndType (new.getD name) (r.remapper.descriptor descriptor)
    Pool.replaceAt index (.invokeDynamic bootstrap nameAndType)
  | .dynamic bootstrap nameAndType =>
    let (name, descriptor) ← asking (r.source.nameAndType nameAndType)
    let nameAndType ← Pool.internNameAndType name (r.remapper.descriptor descriptor)
    Pool.replaceAt index (.dynamic bootstrap nameAndType)
  | _ => pure ()

/-- Renames what the constants refer to, in the order of their indices. -/
def remapPool (r : ClassRemapping) (methods : List BootstrapMethod) : Edit Unit :=
  r.source.indices.forM (r.remapConstant methods)

-- ---------------------------------------------------------------------------
-- Attributes of every kind of owner
-- ---------------------------------------------------------------------------

/-- The class that a descriptor names. -/
def classOfDescriptor? (descriptor : String) : Option String :=
  (Text.stripPrefix? "L" descriptor).bind (Text.stripSuffix? ";")

/-- The index of the new form of a name in an annotation. -/
def remapAnnotationRef (r : ClassRemapping) : AnnotationRef → Edit UInt16
  | .type index | .classLiteral index => r.descriptorAt index
  | .element annotationType name => do
    let type ← Pool.reading (Pool.text · annotationType)
    let old ← Pool.reading (Pool.text · name)
    renamed name ((classOfDescriptor? type).bind fun owner => r.remapper.element? owner old)
  | .enumConstant enumType name => do
    let type ← Pool.reading (Pool.text · enumType)
    let old ← Pool.reading (Pool.text · name)
    renamed name ((classOfDescriptor? type).bind fun owner => r.remapper.field? owner ⟨old, type⟩)

/-- Renames in a signature or an annotation attribute; others stay. -/
def remapCommonAttribute (r : ClassRemapping) (a : Attribute) : Edit Attribute := do
  let kind ← asking (r.source.storedText a.name)
  if kind = AttributeName.signature then
    let index ← asking (singleIndex a.info)
    let old ← asking (r.source.text index)
    let new ← Pool.repoint index (← asking (r.signature old))
    pure { a with info := putU16 new }
  else
    match AnnotationShape.ofName? kind with
    | some shape =>
      let body ← asking (AnnotationBody.parse shape a.info)
      pure { a with info := (← body.mapRefs r.remapAnnotationRef).toBytes }
    | none => pure a

/-- Renames in the signatures and annotations of a list of attributes. -/
def remapCommon (r : ClassRemapping) (attributes : List Attribute) : Edit (List Attribute) :=
  attributes.mapM r.remapCommonAttribute

-- ---------------------------------------------------------------------------
-- Members
-- ---------------------------------------------------------------------------

/-- Renames a field. -/
def remapField (r : ClassRemapping) (m : Member) : Edit Member := do
  let name ← Pool.reading (Pool.text · m.name)
  let descriptor ← Pool.reading (Pool.text · m.descriptor)
  let newName ← renamed m.name (r.remapper.field? r.owner ⟨name, descriptor⟩)
  let newDescriptor ← Pool.repoint m.descriptor (r.remapper.descriptor descriptor)
  let attributes ← r.remapCommon m.attributes
  pure { m with name := newName, descriptor := newDescriptor, attributes := attributes }

/-- The name that was given to the local variable of a slot from an instruction on. -/
abbrev RenamedLocals := List ((UInt16 × UInt16) × UInt16)

/-- Renames a row of a local variable table. Only a row that starts with the method is the parameter
itself. -/
def remapLocal (r : ClassRemapping) (method : MemberKey) (done : RenamedLocals)
    (v : LocalVariable) : Edit (LocalVariable × RenamedLocals) := do
  let new := if v.start = 0 then r.remapper.parameter? r.owner method v.slot else none
  let name ← renamed v.name new
  let done := if new.isSome then done ++ [((v.slot, v.start), name)] else done
  let descriptor ← r.descriptorAt v.descriptor
  pure ({ v with name := name, descriptor := descriptor }, done)

/-- Renames a row of a type table, whose name follows the row of the local variable table. -/
def remapLocalType (r : ClassRemapping) (done : RenamedLocals) (v : LocalVariable) :
    Edit LocalVariable := do
  let name := (done.lookup (v.slot, v.start)).getD v.name
  let old ← Pool.reading (Pool.text · v.descriptor)
  let descriptor ← Pool.repoint v.descriptor (← asking (r.signature old))
  pure { v with name := name, descriptor := descriptor }

/-- Renames the rows of a local variable table in their order. -/
def remapLocals (r : ClassRemapping) (method : MemberKey) (done : RenamedLocals) :
    List LocalVariable → Edit (List LocalVariable × RenamedLocals)
  | [] => pure ([], done)
  | v :: more => do
    let (v, done) ← r.remapLocal method done v
    let (more, done) ← r.remapLocals method done more
    pure (v :: more, done)

/-- Renames in the local variable tables among the attributes of a method body. -/
def remapLocalTables (r : ClassRemapping) (method : MemberKey) (done : RenamedLocals) :
    List Attribute → Edit (List Attribute × RenamedLocals)
  | [] => pure ([], done)
  | a :: more => do
    let kind ← asking (r.source.storedText a.name)
    if kind = AttributeName.localVariableTable then
      let rows ← asking (LocalVariable.table a.info)
      let (rows, done) ← r.remapLocals method done rows
      let info ← asking (LocalVariable.tableToBytes rows)
      let (more, done) ← r.remapLocalTables method done more
      pure ({ a with info := info } :: more, done)
    else
      let (more, done) ← r.remapLocalTables method done more
      pure (a :: more, done)

/-- Renames in the type tables among the attributes of a method body. -/
def remapTypeTable (r : ClassRemapping) (done : RenamedLocals) (a : Attribute) :
    Edit Attribute := do
  let kind ← asking (r.source.storedText a.name)
  if kind = AttributeName.localVariableTypeTable then
    let rows ← asking (LocalVariable.table a.info)
    let rows ← rows.mapM (r.remapLocalType done)
    pure { a with info := ← asking (LocalVariable.tableToBytes rows) }
  else pure a

/-- Renames in the body of a method. The type tables reuse the names that were chosen for the local
variable tables. -/
def remapCode (r : ClassRemapping) (method : MemberKey) (code : Code) : Edit Code := do
  let (attributes, done) ← r.remapLocalTables method [] code.attributes
  let attributes ← attributes.mapM (r.remapTypeTable done)
  let attributes ← r.remapCommon attributes
  pure { code with attributes := attributes }

/-- Renames the declared parameters that start in the given slots; further parameters stay. -/
def remapParameters (r : ClassRemapping) (method : MemberKey) :
    List MethodParameter → List UInt16 → Edit (List MethodParameter)
  | p :: parameters, slot :: slots => do
    let p ← match r.remapper.parameter? r.owner method slot with
      | some name => pure { p with name := some (← Pool.internText name) }
      | none => pure p
    let more ← r.remapParameters method parameters slots
    pure (p :: more)
  | parameters, _ => pure parameters

/-- Renames in the body or the declared parameters of a method; other attributes stay. -/
def remapMethodAttribute (r : ClassRemapping) (method : MemberKey) (isStatic : Bool)
    (a : Attribute) : Edit Attribute := do
  let kind ← asking (r.source.storedText a.name)
  if kind = AttributeName.code then
    let code ← r.remapCode method (← asking (Code.split a.info))
    pure { a with info := ← asking code.toBytes }
  else if kind = AttributeName.methodParameters then
    let parameters ← asking (MethodParameter.table a.info)
    let (slots, _) ← asking (Descriptor.parameterSlots method.descriptor isStatic)
    let parameters ← r.remapParameters method parameters slots
    pure { a with info := ← asking (MethodParameter.tableToBytes parameters) }
  else pure a

/-- Renames a method. -/
def remapMethod (r : ClassRemapping) (m : Member) : Edit Member := do
  let name ← Pool.reading (Pool.text · m.name)
  let descriptor ← Pool.reading (Pool.text · m.descriptor)
  let key : MemberKey := ⟨name, descriptor⟩
  let newName ← renamed m.name (r.remapper.method? r.owner key)
  let newDescriptor ← Pool.repoint m.descriptor (r.remapper.descriptor descriptor)
  let isStatic := m.access.has AccessFlags.staticBit
  let attributes ← m.attributes.mapM (r.remapMethodAttribute key isStatic)
  let attributes ← r.remapCommon attributes
  pure { m with name := newName, descriptor := newDescriptor, attributes := attributes }

-- ---------------------------------------------------------------------------
-- Attributes of classes
-- ---------------------------------------------------------------------------

/-- The simple name of a nested class: what follows the name of the outer class, or else what
follows the last `$` and the digits behind it. -/
def simpleName (outer : Option String) (inner : String) : String :=
  match outer.bind fun outer => Text.stripPrefix? (outer ++ "$") inner with
  | some name => name
  | none =>
    let tail := ((Text.splitLast? '$' inner).map (·.2)).getD inner
    String.ofList (tail.toList.dropWhile Char.isDigit)

/-- Renames a row of nested classes: its simple name follows the new name of the class. -/
def remapInnerClass (r : ClassRemapping) (c : InnerClass) : Edit InnerClass := do
  let some name := c.name | return c
  let old ← asking (r.source.className c.inner)
  let new ← Pool.reading (Pool.className · c.inner)
  if old = new then return c
  let outer ← match c.outer with
    | some outer => some <$> Pool.reading (Pool.className · outer)
    | none => pure none
  let simple := simpleName outer new
  if simple.isEmpty then pure c
  else pure { c with name := some (← Pool.repoint name simple) }

/-- Renames the method around a class. -/
def remapEnclosing (r : ClassRemapping) (e : EnclosingMethod) (method : UInt16) :
    Edit EnclosingMethod := do
  let owner ← asking (r.source.className e.owner)
  let (name, descriptor) ← asking (r.source.nameAndType method)
  let new := (r.remapper.method? owner ⟨name, descriptor⟩).getD name
  let method ← Pool.internNameAndType new (r.remapper.descriptor descriptor)
  pure { e with method := some method }

/-- Renames a component of a record, which is called like its field. -/
def remapComponent (r : ClassRemapping) (c : RecordComponent) : Edit RecordComponent := do
  let name ← Pool.reading (Pool.text · c.name)
  let descriptor ← Pool.reading (Pool.text · c.descriptor)
  let newName ← renamed c.name (r.remapper.field? r.owner ⟨name, descriptor⟩)
  let newDescriptor ← Pool.repoint c.descriptor (r.remapper.descriptor descriptor)
  let attributes ← r.remapCommon c.attributes
  pure ⟨newName, newDescriptor, attributes⟩

/-- Renames in an attribute that only classes have; others stay. -/
def remapClassAttribute (r : ClassRemapping) (a : Attribute) : Edit Attribute := do
  let kind ← asking (r.source.storedText a.name)
  if kind = AttributeName.innerClasses then
    let rows ← asking (InnerClass.table a.info)
    let rows ← rows.mapM r.remapInnerClass
    pure { a with info := ← asking (InnerClass.tableToBytes rows) }
  else if kind = AttributeName.enclosingMethod then
    let e ← asking (EnclosingMethod.parse a.info)
    match e.method with
    | some method => pure { a with info := (← r.remapEnclosing e method).toBytes }
    | none => pure a
  else if kind = AttributeName.record then
    let components ← asking (RecordComponent.table a.info)
    let components ← components.mapM r.remapComponent
    pure { a with info := ← asking (RecordComponent.tableToBytes components) }
  else pure a

/-- Renames the members and attributes of a class. -/
def remapRest (r : ClassRemapping) (methods : List BootstrapMethod) (c : ClassFile) :
    Edit ClassFile := do
  r.remapPool methods
  let fields ← c.fields.mapM r.remapField
  let methods ← c.methods.mapM r.remapMethod
  let attributes ← c.attributes.mapM r.remapClassAttribute
  let attributes ← r.remapCommon attributes
  pure { c with fields := fields, methods := methods, attributes := attributes }

end ClassRemapping

/-- Runs an edit of the pool of a class; the result has the pool that the edit left. -/
def ClassFile.edit (c : ClassFile) (f : Pool.Edit ClassFile) : ClassResult ClassFile :=
  match f.run.run c.pool with
  | (.ok edited, pool) => .ok { edited with pool := pool }
  | (.error fault, _) => .error fault

/-- The methods that link the call sites of a class. -/
def ClassFile.bootstrapMethods (c : ClassFile) : ClassResult (List BootstrapMethod) := do
  match ← c.pool.attribute? c.attributes AttributeName.bootstrapMethods with
  | some (_, a) => BootstrapMethod.table a.info
  | none => pure []

/-- A class with every name changed as the remapper says. -/
def Remapper.apply (r : Remapper) (c : ClassFile) : ClassResult ClassFile := do
  let remapping : ClassRemapping := ⟨r, c.pool, ← c.name⟩
  let methods ← c.bootstrapMethods
  c.edit (remapping.remapRest methods c)

end Jarsmith
