import Jarsmith.Error
import Jarsmith.Mappings.Basic
import Jarsmith.Text.Split

/-!
# Reading line by line

What the line-based mapping formats share: lines with their numbers, and a reader that takes one
line a step and names the line at which it stopped.
-/

namespace Jarsmith.Mappings

/-- The lines that hold more than blanks and a comment, which starts at `#`; their ends are
trimmed. -/
def contentLines (text : String) : List (Nat × String) :=
  ((Text.numberedLines text).map fun (n, line) =>
      (n, Text.trimEnd (String.ofList (line.toList.takeWhile (· != '#'))))).filter
    fun (_, line) => !Text.isBlankText line

/-- Runs `step` over the lines; a fault is reported with the number of its line. -/
def readLines {σ : Type} (step : σ → String → Except LineFault σ) :
    σ → List (Nat × String) → Except MappingFault σ
  | s, [] => .ok s
  | s, (n, line) :: more =>
    match step s line with
    | .ok s => readLines step s more
    | .error fault => .error (.atLine n fault)

/-- A local variable slot, written in decimal. -/
def slot (text : String) : Except LineFault UInt16 :=
  match Text.decimalBelow? 65536 text with
  | some n => .ok (UInt16.ofNat n)
  | none => .error (.badParameterIndex text)

end Jarsmith.Mappings
