import Jarsmith.Remap.Remapper

/-!
# Answers about members that are kept

Searching the lineage of a class for the name of a member is slow, and the same members come up over
and over in a jar. So each answer is kept, and given again when the same question comes up. All
entries of a jar share the answers.

* `MappingRemapper.recallMethod` and `MappingRemapper.recallField` — the kept answer, or the one that
  a search finds, which is then kept.
-/

namespace Jarsmith

/-- The answers that were found about members of classes. -/
structure MemberAnswers where
  methods : OrderedMap (String × MemberKey) (Option String)
  fields : OrderedMap (String × MemberKey) (Option String)

/-- Nothing was asked yet. -/
def MemberAnswers.empty : MemberAnswers := ⟨∅, ∅⟩

/-- A question about the new name of a member. -/
inductive MemberQuestion where
  | method (owner : String) (key : MemberKey)
  | field (owner : String) (key : MemberKey)
  deriving DecidableEq, Repr

namespace MappingRemapper

/-- The new name of a method, which is searched for at most once. Constructors and initializers keep
theirs, and nothing is kept about them. -/
def recallMethod (r : MappingRemapper) (owner : String) (key : MemberKey) :
    StateM MemberAnswers (Option String) := do
  if Text.startsWith key.name "<" then pure none
  else
    match (← get).methods.get? (owner, key) with
    | some answer => pure answer
    | none =>
      let answer := r.searchMethod owner key (r.hierarchy.lineage owner)
      modify fun known => { known with methods := known.methods.insert (owner, key) answer }
      pure answer

/-- The new name of a field, which is searched for at most once. -/
def recallField (r : MappingRemapper) (owner : String) (key : MemberKey) :
    StateM MemberAnswers (Option String) := do
  match (← get).fields.get? (owner, key) with
  | some answer => pure answer
  | none =>
    let answer := r.searchField owner key (r.hierarchy.lineage owner)
    modify fun known => { known with fields := known.fields.insert (owner, key) answer }
    pure answer

/-- Answers a question, by what is kept or by a search. -/
def recallMember (r : MappingRemapper) : MemberQuestion → StateM MemberAnswers (Option String)
  | .method owner key => r.recallMethod owner key
  | .field owner key => r.recallField owner key

/-- What is kept after some questions in a row, the first of which found nothing kept. -/
def answersAfter (r : MappingRemapper) (asked : List MemberQuestion) : MemberAnswers :=
  asked.foldl (fun known question => ((r.recallMember question).run known).2) .empty

/-- The answer to a question that comes up behind others. -/
def answerAfter (r : MappingRemapper) (asked : List MemberQuestion) (question : MemberQuestion) :
    Option String := ((r.recallMember question).run (r.answersAfter asked)).1

end MappingRemapper

end Jarsmith
