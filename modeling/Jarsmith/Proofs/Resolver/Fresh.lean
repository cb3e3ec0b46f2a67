import Jarsmith.Proofs.Running
import Jarsmith.Resolver.Provide

/-!
# Fresh resolvers

A fresh resolver was never asked anything, so it does what is asked of it, step by step.

* `Resolver.baseEnvironment`, `Resolver.requestEnvironment` — what is asked, without a log of answers.
* `Resolver.provide_fresh` — a fresh resolver does just this.
* `Resolution` — a question to a fresh resolver.
-/

namespace Jarsmith

namespace Resolver

open Running

variable {r : Resolver} {p : Platform} {side : Side} {version artifact : String}
  {modifiers : List Modifier} {w : World} {s t : ResolverState} {q : Result (Lookup Environment)}

/-- The environment of a platform, made from its sides. -/
def baseEnvironment (r : Resolver) (p : Platform) (version : String) :
    VersionAction (Lookup Environment) :=
  match p.side? with
  | some side => r.sideEnvironment p side version
  | none => do
    let client ← r.sideEnvironment .client .client version
    let server ← r.sideEnvironment .server .server version
    r.joinedEnvironment version client server

theorem baseEnvironment_of_side (hSide : p.side? = some side) :
    r.baseEnvironment p version = r.sideEnvironment p side version := by
  rw [baseEnvironment, hSide]

theorem baseEnvironment_joined : r.baseEnvironment .joined version = (do
    let client ← r.sideEnvironment .client .client version
    let server ← r.sideEnvironment .server .server version
    r.joinedEnvironment version client server) := rfl

/-- The environment of a platform after some modifiers. -/
def requestEnvironment (r : Resolver) (p : Platform) (version : String)
    (modifiers : List Modifier) : VersionAction (Lookup Environment) := do
  liftExcept (Modifier.validate modifiers)
  if modifiers.isEmpty then r.baseEnvironment p version
  else
    let artifact ← Modifier.decorate p.id modifiers
    during artifact "apply modifiers" do
      let base ← r.baseEnvironment p version
      r.modifiedEnvironment artifact version modifiers base

theorem requestEnvironment_nil :
    r.requestEnvironment p version [] = r.baseEnvironment p version := by
  unfold requestEnvironment
  exact pure_bind _ _

/-- A computation on versions, as one of a resolver. -/
theorem versions_iff {α : Type} {x : VersionAction α} {q : Result α} :
    (liftM x : ResolverAction α).run.run s = (q, t) ↔
      ∃ versions, x.run.run s.versions = (q, versions) ∧ { s with versions := versions } = t :=
  onPart_iff

theorem environmentOnce_iff {key : EnvironmentKey} {make : ResolverAction (Lookup Environment)}
    (hNone : s.environments.answer? key = none) :
    (environmentOnce key make).run.run s = (q, t) ↔ ∃ u, make.run.run s = (q, u) ∧
      { u with environments := u.environments ++ [(key, q)] } = t :=
  memoized_of_unanswered hNone

theorem run_provideSide (hNone : s.environments.answer? ⟨p, version, none⟩ = none)
    (h : (r.provideSide p side version).run.run s = (q, t)) :
    (r.sideEnvironment p side version).run.run s.versions = (q, t.versions) ∧
      t.environments = s.environments ++ [(⟨p, version, none⟩, q)] := by
  obtain ⟨_, hLifted, rfl⟩ := (environmentOnce_iff hNone).1 h
  obtain ⟨versions, hRun, rfl⟩ := versions_iff.1 hLifted
  exact ⟨hRun, rfl⟩

theorem run_provideBase (hNone : s.environments = [])
    (h : (r.provideBase p version).run.run s = (q, t)) :
    (r.baseEnvironment p version).run.run s.versions = (q, t.versions) := by
  unfold provideBase at h
  unfold baseEnvironment
  cases hSide : p.side? with
  | some side =>
    rw [hSide] at h
    exact (run_provideSide (by rw [hNone]; rfl) h).1
  | none =>
    rw [hSide] at h
    obtain ⟨u, hRun, rfl⟩ := (environmentOnce_iff (by rw [hNone]; rfl)).1 h
    obtain ⟨e, hClient, hq⟩ | ⟨client, s₁, hClient, hRun⟩ := bind_iff.1 hRun
    · exact bind_iff.2 (.inl ⟨e, (run_provideSide (by rw [hNone]; rfl) hClient).1, hq⟩)
    obtain ⟨hClient, hLog⟩ := run_provideSide (by rw [hNone]; rfl) hClient
    -- the client was asked for, the server was not
    have hServerNone : s₁.environments.answer? ⟨.server, version, none⟩ = none := by
      rw [hLog, hNone]
      exact List.lookup_eq_none_iff.2 (by simp)
    refine (bind_of_ok hClient).2 ?_
    obtain ⟨e, hServer, hq⟩ | ⟨server, s₂, hServer, hRun⟩ := bind_iff.1 hRun
    · exact bind_iff.2 (.inl ⟨e, (run_provideSide hServerNone hServer).1, hq⟩)
    obtain ⟨hServer, -⟩ := run_provideSide hServerNone hServer
    refine (bind_of_ok hServer).2 ?_
    obtain ⟨versions, hJoined, rfl⟩ := versions_iff.1 hRun
    exact hJoined

/-- **A fresh resolver does what is asked**, without answers of before. -/
theorem provide_fresh (h : (r.provide p version modifiers).run.run (.ofWorld w) = (q, t)) :
    (r.requestEnvironment p version modifiers).run.run ⟨w, .empty⟩ = (q, t.versions) := by
  unfold provide at h
  unfold requestEnvironment
  obtain ⟨e, hValid, hq⟩ | ⟨_, s₁, hValid, h⟩ := bind_iff.1 h
  · obtain ⟨hError, rfl⟩ := liftExcept_iff.1 hValid
    exact bind_iff.2 (.inl ⟨e, liftExcept_iff.2 ⟨hError, rfl⟩, hq⟩)
  obtain ⟨hOk, rfl⟩ := liftExcept_iff.1 hValid
  refine (bind_of_ok (liftExcept_iff.2 ⟨hOk, rfl⟩)).2 ?_
  split
  · rename_i hEmpty
    rw [if_pos hEmpty] at h
    exact run_provideBase rfl h
  · rename_i hEmpty
    rw [if_neg hEmpty] at h
    obtain ⟨e, hLifted, hq⟩ | ⟨artifact, s₁, hLifted, h⟩ := bind_iff.1 h
    · obtain ⟨versions, hName, rfl⟩ := versions_iff.1 hLifted
      exact bind_iff.2 (.inl ⟨e, hName, hq⟩)
    obtain ⟨versions, hName, rfl⟩ := versions_iff.1 hLifted
    refine (bind_of_ok hName).2 ?_
    obtain ⟨u, hDuring, rfl⟩ := (environmentOnce_iff rfl).1 h
    obtain ⟨q', hRun, hq⟩ := during_iff.1 hDuring
    refine during_iff.2 ⟨q', ?_, hq⟩
    obtain ⟨e, hBase, hError⟩ | ⟨base, s₂, hBase, hRun⟩ := bind_iff.1 hRun
    · exact bind_iff.2 (.inl ⟨e, run_provideBase rfl hBase, hError⟩)
    · refine (bind_of_ok (run_provideBase rfl hBase)).2 ?_
      obtain ⟨versions, hModified, rfl⟩ := versions_iff.1 hRun
      exact hModified

end Resolver

-- ---------------------------------------------------------------------------
-- Resolutions
-- ---------------------------------------------------------------------------

/-- What is asked of a fresh resolver. -/
structure Resolution where
  resolver : Resolver
  platform : Platform
  version : String
  modifiers : List Modifier

namespace Resolution

/-- The answer in a world, and the world behind. -/
def run (q : Resolution) (w : World) : Result (Lookup Environment) × World :=
  let (answer, s) := (q.resolver.provide q.platform q.version q.modifiers).run.run (.ofWorld w)
  (answer, s.versions.world)

/-- The world behind some resolutions, one after the other. -/
def worldAfter (resolutions : List Resolution) (w : World) : World :=
  resolutions.foldl (fun w q => (q.run w).2) w

theorem run_iff {q : Resolution} {w w' : World} {answer : Result (Lookup Environment)} :
    q.run w = (answer, w') ↔
      ∃ s, (q.resolver.requestEnvironment q.platform q.version q.modifiers).run.run ⟨w, .empty⟩ =
        (answer, s) ∧ s.world = w' := by
  have hRun : (q.resolver.requestEnvironment q.platform q.version q.modifiers).run.run ⟨w, .empty⟩ =
      _ := Resolver.provide_fresh rfl
  rw [hRun, run]
  constructor
  · intro h
    cases h
    exact ⟨_, rfl, rfl⟩
  · rintro ⟨s, h, rfl⟩
    cases h
    rfl

end Resolution

end Jarsmith
