import Jarsmith.Store.Staging

/-!
# The world

Everything outside that a request can see or change: the files, and what can be fetched from afar.

* `World.ask` — what the remote has at an address; each question is noted.
* `Action` — computations on the world. Those on files are among them.

A computation keeps what it did to the world before it failed.
-/

namespace Jarsmith

-- ---------------------------------------------------------------------------
-- Parts of a state
-- ---------------------------------------------------------------------------

/-- Runs a computation on a part of the state; what it did to the part stays when it fails. -/
def onPart {σ τ α : Type} (part : σ → τ) (withPart : σ → τ → σ)
    (action : ExceptT Error (StateM τ) α) : ExceptT Error (StateM σ) α :=
  ExceptT.mk fun s =>
    let (outcome, t) := action.run.run (part s)
    (outcome, withPart s t)

-- ---------------------------------------------------------------------------
-- The world
-- ---------------------------------------------------------------------------

/-- What the remote answers for an address. -/
inductive RemoteAnswer where
  | file (content : Content)
  | refusal (status : Nat)
  deriving DecidableEq

/-- The files, and the remote. -/
structure World where
  store : Store
  /-- What the remote has at which address; none if it cannot be reached. -/
  remote : Option (OrderedMap String RemoteAnswer)
  /-- The addresses that were asked for, in the order of the questions. -/
  requests : List String

instance : Inhabited World := ⟨⟨.empty, none, []⟩⟩

/-- A computation on the world, which may fail. -/
abbrev Action := ExceptT Error (StateM World)

instance : MonadLift FileAction Action :=
  ⟨onPart (·.store) fun w store => { w with store := store }⟩

namespace World

/-- What the remote has at an address, if anything. The question is noted whatever the answer is. -/
def ask (url : String) : Action (Option Content) := do
  modifyThe World fun w => { w with requests := w.requests ++ [url] }
  match (← getThe World).remote with
  | none => throw (.unreachable url)
  | some answers =>
    match answers.get? url with
    | none => pure none
    | some (.file content) => pure (some content)
    | some (.refusal status) => throw (.downloadFailed url status)

end World

end Jarsmith
