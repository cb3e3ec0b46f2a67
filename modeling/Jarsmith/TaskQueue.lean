import Jarsmith.Error

/-!
# Task queues

Work that only one party may do, such as asking the host for files, is posted to a queue, and that
party runs it in the order in which it came in. Whoever waits for a reply makes the queue run up to
the task and no further.

* `TaskQueue.post` gives a task its number, unless the queue is closed.
* `TaskQueue.await` runs what comes before a task, and the task.
* `TaskQueue.reply` — what a task answered; a task that a closed queue did not come to was dropped.
-/

namespace Jarsmith

/-- Tasks on a state `σ` that run one after another. -/
structure TaskQueue (σ α : Type) where
  /-- What the tasks answered that have run, in their order. -/
  replies : List (Result α)
  /-- The tasks that wait, in their order. -/
  waiting : List (ExceptT Error (StateM σ) α)
  isOpen : Bool

namespace TaskQueue

variable {σ α : Type}

/-- An open queue of tasks none of which has run. -/
def ofTasks (tasks : List (ExceptT Error (StateM σ) α)) : TaskQueue σ α := ⟨[], tasks, true⟩

/-- Takes no more tasks, and runs none. -/
def close (q : TaskQueue σ α) : TaskQueue σ α := { q with isOpen := false }

/-- Adds a task; the answer is its number. -/
def post (q : TaskQueue σ α) (task : ExceptT Error (StateM σ) α) : Result (Nat × TaskQueue σ α) :=
  if q.isOpen then
    .ok (q.replies.length + q.waiting.length, { q with waiting := q.waiting ++ [task] })
  else .error .queueClosed

/-- Runs the task that has waited longest. -/
def runNext (q : TaskQueue σ α) : StateM σ (TaskQueue σ α) := do
  match q.waiting with
  | [] => pure q
  | task :: waiting =>
    let reply ← task.run
    pure { q with replies := q.replies ++ [reply], waiting := waiting }

/-- Runs the given number of tasks. -/
def runMany (q : TaskQueue σ α) : Nat → StateM σ (TaskQueue σ α)
  | 0 => pure q
  | n + 1 => do (← q.runNext).runMany n

/-- Runs the tasks up to the one of the given number, unless it has run. -/
def runThrough (q : TaskQueue σ α) (number : Nat) : StateM σ (TaskQueue σ α) :=
  q.runMany (number + 1 - q.replies.length)

/-- What a task of the queue answered, if it has run. -/
def reply? (q : TaskQueue σ α) (number : Nat) : Option (Result α) := q.replies[number]?

/-- What a task of a closed queue answered. -/
def reply (q : TaskQueue σ α) (number : Nat) : Result α :=
  (q.reply? number).getD (.error .taskDropped)

/-- Waits for the reply of the task of the given number. -/
def await (number : Nat) : StateT (TaskQueue σ α) (StateM σ) (Result α) := do
  let q ← (← get).runThrough number
  set q
  pure (q.reply number)

end TaskQueue

end Jarsmith
