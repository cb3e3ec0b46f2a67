import Jarsmith.OrderedMap
import Jarsmith.Text.Split
import Jarsmith.Text.Utf8

/-!
# Jar manifests

A block of main attributes and a section of attributes for each of some entries. No line is longer
than 72 bytes; a longer one goes on in lines that start with a space.

* `JarManifest.parse` reads any bytes; what is no attribute is passed over.
* `JarManifest.toBytes` writes a manifest.
-/

namespace Jarsmith

/-- The main attributes, and the attributes of entries by their names. -/
structure JarManifest where
  main : OrderedMap String String
  sections : OrderedMap String (OrderedMap String String)

namespace JarManifest

/-- The manifest without attributes. -/
def empty : JarManifest := ⟨∅, ∅⟩

/-- Whether two manifests say the same, whatever the order of their attributes. -/
def agrees (a b : JarManifest) : Bool :=
  a.main.agrees (· == ·) b.main && a.sections.agrees (fun x y => x.agrees (· == ·) y) b.sections

-- ---------------------------------------------------------------------------
-- Reading
-- ---------------------------------------------------------------------------

/-- The lines of a manifest without their ends. -/
def rawLines (text : List Char) : List (List Char) :=
  (Text.pieces '\n' text).map fun line => (Text.beforeSuffix? ['\r'] line).getD line

/-- Takes a line in behind `done`, the lines so far in reverse. A line that starts with a space goes
on where the last one stopped, unless that one is empty. -/
def joinLine (done : List (List Char)) (line : List Char) : List (List Char) :=
  match line, done with
  | ' ' :: rest, last :: before => if last.isEmpty then line :: done else (last ++ rest) :: before
  | _, _ => line :: done

/-- The lines with what was folded joined again. -/
def unfold (lines : List (List Char)) : List (List Char) := (lines.foldl joinLine []).reverse

/-- What was read so far. -/
structure Progress where
  manifest : JarManifest
  inMain : Bool
  /-- The entry whose section is being read. -/
  current : Option String

/-- Takes in a line. -/
def step (p : Progress) (line : List Char) : Progress :=
  if line.isEmpty then { p with inMain := false, current := none }
  else
    match Text.cutFirst? ':' line with
    | none => p
    | some (key, value) =>
      let key := String.ofList key
      let value := String.ofList ((Text.afterPrefix? [' '] value).getD value)
      let m := p.manifest
      if p.inMain then { p with manifest := { m with main := m.main.insert key value } }
      else
        match p.current with
        | none =>
          if Text.equalsIgnoringCase key "Name" then
            { p with
              manifest := { m with sections := m.sections.update value ∅ id }
              current := some value }
          else p
        | some name =>
          let sections := m.sections.update name ∅ (·.insert key value)
          { p with manifest := { m with sections := sections } }

/-- The manifest that bytes hold. -/
def parse (bytes : Bytes) : JarManifest :=
  ((unfold (rawLines (Utf8.lenient bytes).toList)).foldl step ⟨empty, true, none⟩).manifest

-- ---------------------------------------------------------------------------
-- Attributes
-- ---------------------------------------------------------------------------

/-- The value of a main attribute; the letter case of its name does not matter. -/
def mainAttribute? (m : JarManifest) (name : String) : Option String :=
  (m.main.entries.find? fun (key, _) => Text.equalsIgnoringCase key name).map (·.2)

/-- Sets the main attribute of exactly this name. -/
def setMainAttribute (m : JarManifest) (name value : String) : JarManifest :=
  { m with main := m.main.insert name value }

/-- Drops the attributes of entries that satisfy `p`, and the sections that are empty after they
lost one. -/
def stripSections (m : JarManifest) (p : String → Bool) : JarManifest :=
  let stripped := m.sections.mapValues fun _ attributes => attributes.filter fun key _ => !p key
  let lost (name : String) : Bool :=
    match m.sections.get? name with
    | some attributes => attributes.keys.any p
    | none => false
  { m with sections := stripped.filter fun name attributes => !(lost name && attributes.isEmpty) }

/-- Whether an attribute of an entry satisfies `p`. -/
def hasSectionAttribute (m : JarManifest) (p : String → Bool) : Bool :=
  m.sections.values.any fun attributes => attributes.keys.any p

-- ---------------------------------------------------------------------------
-- Writing
-- ---------------------------------------------------------------------------

/-- The greatest length of a line in bytes. -/
def maxLine : Nat := 72

/-- A line with a fold in front of every character that has no room in its line; `room` bytes are
left in the first one. -/
def fold (room : Nat) : List Char → List Char
  | [] => []
  | c :: rest =>
    if c.utf8Size ≤ room then c :: fold (room - c.utf8Size) rest
    else '\r' :: '\n' :: ' ' :: c :: fold (maxLine - 1 - c.utf8Size) rest

/-- The written form of an attribute. -/
def attributeLine (key value : String) : List Char :=
  fold maxLine (key.toList ++ ':' :: ' ' :: value.toList) ++ ['\r', '\n']

/-- The written form of attributes, closed by an empty line. -/
def block (attributes : List (String × String)) : List Char :=
  attributes.flatMap (fun (key, value) => attributeLine key value) ++ ['\r', '\n']

/-- The characters of the written form. The version comes first if it is not there. -/
def toChars (m : JarManifest) : List Char :=
  let version := if (m.mainAttribute? "Manifest-Version").isNone then
      [("Manifest-Version", "1.0")] else []
  block (version ++ m.main.entries)
    ++ m.sections.entries.flatMap fun (name, attributes) =>
      block (("Name", name) :: attributes.entries)

/-- The written form. -/
def toBytes (m : JarManifest) : Bytes := Utf8.encode (String.ofList m.toChars)

end JarManifest

end Jarsmith
