import Jarsmith.ClassFile.Basic
import Jarsmith.ClassFile.Structure

/-!
# Names of source files

A class says from which source file it comes. After a renaming that file is called after the
outermost class.
-/

namespace Jarsmith

/-- The source file of a class: the simple name of its outermost class. -/
def sourceFileName (className : String) : String :=
  let simple := ((Text.splitLast? '/' className).map (·.2)).getD className
  let outer := ((Text.splitFirst? '$' simple).map (·.1)).getD simple
  outer ++ ".java"

/-- Names the source file of a class after its outermost class; the answer is none if it is called so
already. -/
def ClassFile.fixSourceFile (c : ClassFile) : Pool.Edit (Option ClassFile) := do
  let expected := sourceFileName (← (liftM c.name : Pool.Edit String))
  let found : Option (Nat × Attribute) ←
    liftM (c.pool.attribute? c.attributes AttributeName.sourceFile)
  match found with
  | some (place, a) =>
    let current : Bytes ← liftM (do c.pool.rawText (← singleIndex a.info) : ClassResult Bytes)
    if ModifiedUtf8.spells current expected then pure none
    else
      let value ← Pool.internText expected
      pure (some { c with attributes := setBody c.attributes place (putU16 value) })
  | none =>
    let value ← Pool.internText expected
    let name ← Pool.internText AttributeName.sourceFile
    pure (some { c with attributes := c.attributes ++ [⟨name, putU16 value⟩] })

end Jarsmith
