/-!
# Lookups

The outcome of a search that may find nothing without failing. What is found is up to date if it was
there already, and fresh if it had to be fetched or made.

* `Lookup.map` and `Lookup.mapM` keep whether a value is up to date.
-/

namespace Jarsmith

/-- What a search found. -/
inductive Lookup (α : Type) where
  | notFound
  | found (value : α) (upToDate : Bool)
  deriving DecidableEq, Repr

namespace Lookup

variable {α β : Type}

/-- Whether there is a value. -/
def isFound : Lookup α → Bool
  | notFound => false
  | found .. => true

/-- Whether there is a value that was there already. -/
def isUpToDate : Lookup α → Bool
  | notFound => false
  | found _ upToDate => upToDate

/-- The value. -/
def value? : Lookup α → Option α
  | notFound => none
  | found value _ => some value

/-- Changes the value. -/
def map (f : α → β) : Lookup α → Lookup β
  | notFound => notFound
  | found value upToDate => found (f value) upToDate

/-- Changes the value by a computation. -/
def mapM {m : Type → Type} [Monad m] (f : α → m β) : Lookup α → m (Lookup β)
  | notFound => pure notFound
  | found value upToDate => return found (← f value) upToDate

end Lookup

end Jarsmith
