import Jarsmith.Error

/-!
# Answers that are computed once

A log of the answers of computations by their questions. A question that was answered, be it by a
failure, is not computed again.

* `memoized` — the logged answer, or that of a computation, which is then logged.
-/

namespace Jarsmith

/-- Questions with their answers, in the order in which the computations ended. -/
abbrev AnswerLog (κ α : Type) := List (κ × Result α)

variable {σ κ α : Type} [DecidableEq κ]

/-- The first answer to a question in a log. -/
def AnswerLog.answer? (log : AnswerLog κ α) (key : κ) : Option (Result α) := List.lookup key log

/-- The answer to a question in the log that is part of the state. If there is none it is computed,
and logged behind what was logged in the meantime. -/
def memoized (log : σ → AnswerLog κ α) (withLog : σ → AnswerLog κ α → σ) (key : κ)
    (compute : ExceptT Error (StateM σ) α) : ExceptT Error (StateM σ) α := do
  match (log (← getThe σ)).answer? key with
  | some answer => liftExcept answer
  | none =>
    let answer ← observing compute
    modifyThe σ fun s => withLog s (log s ++ [(key, answer)])
    liftExcept answer

end Jarsmith
