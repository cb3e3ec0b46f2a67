import Jarsmith.Text.Split

/-!
# Generic signatures

The types of classes, fields and methods with their type parameters and arguments. A signature is
read into its grammar tree; renaming acts on the tree, and writing the tree gives the text again.

A class type is an outer name followed by type arguments and nested simple names in any order. Its
binary name is the outer and the nested names joined by `$`, and that is what a renaming sees.
-/

namespace Jarsmith

mutual

/-- A type. -/
inductive TypeSignature where
  | primitive (letter : Char)
  | array (element : TypeSignature)
  | variable (name : String)
  | classType (name : String) (parts : List ClassPart)

/-- What follows the outer name of a class type. -/
inductive ClassPart where
  | arguments (arguments : List TypeArgument)
  | nested (name : String)

/-- A type argument; the sign of a bounded wildcard is `+` or `-`. -/
inductive TypeArgument where
  | wildcard
  | exactly (type : TypeSignature)
  | bounded (sign : Char) (type : TypeSignature)

end

/-- A type parameter with its bounds. -/
structure TypeParameter where
  name : String
  classBound : Option TypeSignature
  interfaceBounds : List TypeSignature

/-- What follows the type parameters: the types of a class or a field, or those of a method. -/
inductive SignatureBody where
  | types (types : List TypeSignature)
  | method (parameters : List TypeSignature) (returns : TypeSignature)
      (throws : List TypeSignature)

/-- A whole signature; `none` means that it has no list of type parameters at all. -/
structure Signature where
  parameters : Option (List TypeParameter)
  body : SignatureBody

-- ---------------------------------------------------------------------------
-- Writing
-- ---------------------------------------------------------------------------

mutual

/-- The written form. -/
def TypeSignature.toChars : TypeSignature → List Char
  | .primitive letter => [letter]
  | .array element => '[' :: element.toChars
  | .variable name => 'T' :: (name.toList ++ [';'])
  | .classType name parts => 'L' :: (name.toList ++ (partsToChars parts ++ [';']))

/-- The written form of what follows an outer name. -/
def partsToChars : List ClassPart → List Char
  | [] => []
  | part :: more => part.toChars ++ partsToChars more

/-- The written form. -/
def ClassPart.toChars : ClassPart → List Char
  | .arguments arguments => '<' :: (argumentsToChars arguments ++ ['>'])
  | .nested name => '.' :: name.toList

/-- The written form of a list of type arguments. -/
def argumentsToChars : List TypeArgument → List Char
  | [] => []
  | argument :: more => argument.toChars ++ argumentsToChars more

/-- The written form. -/
def TypeArgument.toChars : TypeArgument → List Char
  | .wildcard => ['*']
  | .exactly type => type.toChars
  | .bounded sign type => sign :: type.toChars

end

/-- The written form. A bound follows its colon, and a missing class bound leaves the colon
alone. -/
def TypeParameter.toChars (p : TypeParameter) : List Char :=
  p.name.toList ++ ':' :: ((p.classBound.map TypeSignature.toChars).getD []
    ++ p.interfaceBounds.flatMap fun bound => ':' :: bound.toChars)

/-- The written form. -/
def SignatureBody.toChars : SignatureBody → List Char
  | .types list => list.flatMap TypeSignature.toChars
  | .method parameters returns throws =>
    '(' :: (parameters.flatMap TypeSignature.toChars ++ ')' :: (returns.toChars
      ++ throws.flatMap fun type => '^' :: type.toChars))

/-- The written form. -/
def Signature.toChars (s : Signature) : List Char :=
  (match s.parameters with
    | none => []
    | some parameters => '<' :: (parameters.flatMap TypeParameter.toChars ++ ['>']))
  ++ s.body.toChars

instance : ToString Signature := ⟨fun s => String.ofList s.toChars⟩

-- ---------------------------------------------------------------------------
-- Renaming
-- ---------------------------------------------------------------------------

/-- The simple name of a nested class under its new binary name: what follows the new name of the
outer class, else what follows the last `$`, else the whole name. -/
def nestedName (outer binary : String) : String :=
  match Text.stripPrefix? (outer ++ "$") binary with
  | some simple => simple
  | none =>
    match Text.splitLast? '$' binary with
    | some (_, simple) => simple
    | none => binary

mutual

/-- Renames every class by its binary name. -/
def TypeSignature.rename (f : String → String) : TypeSignature → TypeSignature
  | .primitive letter => .primitive letter
  | .array element => .array (element.rename f)
  | .variable name => .variable name
  | .classType name parts => .classType (f name) (renameParts f name (f name) parts)

/-- Renames what follows the class with the binary name `binary`, whose new name is `renamed`. -/
def renameParts (f : String → String) (binary renamed : String) : List ClassPart → List ClassPart
  | [] => []
  | .arguments arguments :: more =>
    .arguments (renameArguments f arguments) :: renameParts f binary renamed more
  | .nested name :: more =>
    let inner := binary ++ "$" ++ name
    .nested (nestedName renamed (f inner)) :: renameParts f inner (f inner) more

/-- Renames every class of a list of type arguments. -/
def renameArguments (f : String → String) : List TypeArgument → List TypeArgument
  | [] => []
  | argument :: more => argument.rename f :: renameArguments f more

/-- Renames every class of a type argument. -/
def TypeArgument.rename (f : String → String) : TypeArgument → TypeArgument
  | .wildcard => .wildcard
  | .exactly type => .exactly (type.rename f)
  | .bounded sign type => .bounded sign (type.rename f)

end

/-- Renames every class of the bounds. -/
def TypeParameter.rename (f : String → String) (p : TypeParameter) : TypeParameter :=
  { p with
    classBound := p.classBound.map (·.rename f)
    interfaceBounds := p.interfaceBounds.map (·.rename f) }

/-- Renames every class. -/
def SignatureBody.rename (f : String → String) : SignatureBody → SignatureBody
  | .types list => .types (list.map (·.rename f))
  | .method parameters returns throws =>
    .method (parameters.map (·.rename f)) (returns.rename f) (throws.map (·.rename f))

/-- Renames every class by its binary name. -/
def Signature.rename (f : String → String) (s : Signature) : Signature :=
  { parameters := s.parameters.map (·.map (·.rename f)), body := s.body.rename f }

-- ---------------------------------------------------------------------------
-- Reading
-- ---------------------------------------------------------------------------

namespace Signature

/-- The bytes of a text in UTF-8, the unit in which a fault counts. -/
def byteCount (text : List Char) : Nat :=
  text.foldl (fun n c => n + c.utf8Size) 0

/-- A step of the reader. The error is the number of bytes that were still unread at the fault. -/
abbrev Step := StateT (List Char) (Except Nat)

/-- Fails in front of what is unread. -/
def stop {α : Type} : Step α := fun text => .error (byteCount text)

/-- The next character. -/
def next : Step Char
  | [] => .error 0
  | c :: rest => .ok (c, rest)

/-- The characters up to the first one of `stops`, which stays unread. -/
def identifier (stops : List Char) : Step (List Char)
  | [] => .error 0
  | c :: rest =>
    if c ∈ stops then .ok ([], c :: rest)
    else (identifier stops rest).map fun (name, rest) => (c :: name, rest)

/-- The letters of the primitive types. -/
def primitiveLetters : List Char := ['B', 'C', 'D', 'F', 'I', 'J', 'S', 'Z', 'V']

mutual

/-- The next type. The bound on the depth is never met: it exceeds twice the length of the text. -/
def scanType : Nat → Step TypeSignature
  | 0 => stop
  | depth + 1 => fun text =>
    match text with
    | [] => .error 0
    | c :: rest =>
      if c ∈ primitiveLetters then .ok (.primitive c, rest)
      else if c = '[' then (TypeSignature.array <$> scanType depth) rest
      else if c = 'T' then
        (do
          let name ← identifier [';']
          let _ ← next
          pure (.variable (String.ofList name)) : Step TypeSignature) rest
      else if c = 'L' then
        (do
          let name ← identifier ['<', '.', ';']
          let parts ← scanParts depth
          pure (.classType (String.ofList name) parts) : Step TypeSignature) rest
      else .error (byteCount (c :: rest) - 1)

/-- What follows an outer name, up to and with the semicolon. -/
def scanParts : Nat → Step (List ClassPart)
  | 0 => stop
  | depth + 1 => fun text =>
    match text with
    | '<' :: rest =>
      (do
        let arguments ← scanArguments depth
        let more ← scanParts depth
        pure (.arguments arguments :: more) : Step (List ClassPart)) rest
    | '.' :: rest =>
      (do
        let name ← identifier ['<', '.', ';']
        let more ← scanParts depth
        pure (.nested (String.ofList name) :: more) : Step (List ClassPart)) rest
    | ';' :: rest => .ok ([], rest)
    | text => stop text

/-- Type arguments, up to and with the closing bracket. -/
def scanArguments : Nat → Step (List TypeArgument)
  | 0 => stop
  | depth + 1 => fun text =>
    match text with
    | [] => .error 0
    | '>' :: rest => .ok ([], rest)
    | '*' :: rest => ((TypeArgument.wildcard :: ·) <$> scanArguments depth) rest
    | c :: rest =>
      if c = '+' ∨ c = '-' then
        (do
          let type ← scanType depth
          let more ← scanArguments depth
          pure (.bounded c type :: more) : Step (List TypeArgument)) rest
      else
        (do
          let type ← scanType depth
          let more ← scanArguments depth
          pure (.exactly type :: more) : Step (List TypeArgument)) (c :: rest)

end

/-- The next type. -/
def type : Step TypeSignature := fun text => scanType (2 * text.length + 2) text

/-- Types, each behind a `mark`, as long as the next character is the mark. -/
def marked (mark : Char) : Nat → Step (List TypeSignature)
  | 0 => pure []
  | count + 1 => fun text =>
    match text with
    | [] => .ok ([], [])
    | c :: rest =>
      if c = mark then
        (do
          let first ← type
          let more ← marked mark count
          pure (first :: more) : Step (List TypeSignature)) rest
      else .ok ([], c :: rest)

/-- Types up to and with a closing parenthesis. -/
def parenthesized : Nat → Step (List TypeSignature)
  | 0 => stop
  | count + 1 => fun text =>
    match text with
    | ')' :: rest => .ok ([], rest)
    | text =>
      (do
        let first ← type
        let more ← parenthesized count
        pure (first :: more) : Step (List TypeSignature)) text

/-- Types to the end of the text. -/
def typesToEnd : Nat → Step (List TypeSignature)
  | 0 => stop
  | count + 1 => fun text =>
    match text with
    | [] => .ok ([], [])
    | text =>
      (do
        let first ← type
        let more ← typesToEnd count
        pure (first :: more) : Step (List TypeSignature)) text

/-- The bound behind the first colon of a type parameter; it is missing before another colon and
before the end of the list. -/
def classBound : Step (Option TypeSignature)
  | ':' :: rest => .ok (none, ':' :: rest)
  | '>' :: rest => .ok (none, '>' :: rest)
  | text => (some <$> type) text

/-- A type parameter with its bounds; each takes a character, so their number is bounded by the
length of the text. -/
def typeParameter (length : Nat) : Step TypeParameter := do
  let name ← identifier [':']
  let _ ← next
  let bound ← classBound
  let bounds ← marked ':' length
  pure ⟨String.ofList name, bound, bounds⟩

/-- Type parameters, up to and with the closing bracket. -/
def typeParameters : Nat → Step (List TypeParameter)
  | 0 => stop
  | count + 1 => fun text =>
    match text with
    | '>' :: rest => .ok ([], rest)
    | text =>
      (do
        let first ← typeParameter text.length
        let more ← typeParameters count
        pure (first :: more) : Step (List TypeParameter)) text

/-- The part behind the type parameters. -/
def scanBody : Step SignatureBody
  | '(' :: rest =>
    (do
      let parameters ← parenthesized (rest.length + 1)
      let returns ← type
      let throws ← marked '^' rest.length
      pure (.method parameters returns throws) : Step SignatureBody) rest
  | text => (SignatureBody.types <$> typesToEnd (text.length + 1)) text

/-- The signature that a text starts with. -/
def scan : Step Signature
  | '<' :: rest =>
    (do
      let parameters ← typeParameters (rest.length + 1)
      let body ← scanBody
      pure ⟨some parameters, body⟩ : Step Signature) rest
  | text => (Signature.mk none <$> scanBody) text

/-- The signature that a text writes; the error is the offset of the fault in bytes. -/
def parse (text : String) : Except Nat Signature :=
  let chars := text.toList
  match scan chars with
  | .ok (signature, []) => .ok signature
  | .ok (_, rest) => .error (byteCount chars - byteCount rest)
  | .error left => .error (byteCount chars - left)

end Signature

end Jarsmith
