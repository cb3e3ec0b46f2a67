import Jarsmith.Proofs.Resolver.Fresh
import Jarsmith.Proofs.Resolver.Turns

/-!
# Requests one by one and at once

A resolver that is asked one thing after the other goes through a session: what it provides is what
the turns of the session come to when each request has all of them in a row.

* `Resolver.Agrees` — a session in which the resolver has come as far.
* `Resolver.leads_provide` — providing an environment leads from session to session.
-/

namespace Jarsmith.Resolver

open Process Running Session

/-- A session of queries to a resolver. -/
abbrev QuerySession :=
  Session Query VersionState EnvironmentKey (Platform × String) (Lookup Environment)

variable {r : Resolver} {key k : EnvironmentKey} {busy : List EnvironmentKey}
  {s t u : ResolverState} {S S' S'' : QuerySession} {p p' make : EnvironmentProcess}
  {slot : Slot VersionState EnvironmentKey (Platform × String) (Lookup Environment)}
  {a b : Result (Lookup Environment)}

-- ---------------------------------------------------------------------------
-- Sessions of a resolver
-- ---------------------------------------------------------------------------

/-- The resolver has come as far as the session, and work goes on for the keys in `busy`. -/
structure Agrees (busy : List EnvironmentKey) (s : ResolverState) (S : QuerySession) : Prop where
  state : S.state = s.versions
  others : ∀ key, key ∉ busy → S.table.get? key = (s.environments.answer? key).map .answered
  busy : ∀ key ∈ busy, s.environments.answer? key = none

theorem agrees_fresh {w : World} : Agrees [] (.ofWorld w) (.fresh ⟨w, .empty⟩) :=
  ⟨rfl, fun _ _ => rfl, nofun⟩

/-- It does not matter who asks. -/
theorem Agrees.withCallers (h : Agrees busy s S)
    (callers : List (Caller Query EnvironmentKey (Lookup Environment))) :
    Agrees busy s { S with callers := callers } := ⟨h.state, h.others, h.busy⟩

/-- Work goes on. -/
theorem Agrees.goOn (h : Agrees busy s S) (hKey : key ∈ busy) (versions : VersionState) :
    Agrees busy { s with versions := versions }
      { S with state := versions, table := S.table.insert key slot } := by
  refine ⟨rfl, fun other hOther => ?_, h.busy⟩
  have hDiffers : key ≠ other := ne_of_mem_of_not_mem hKey hOther
  rw [OrderedMap.get?_insert, if_neg hDiffers]
  exact h.others other hOther

/-- Work is started. -/
theorem Agrees.start (h : Agrees busy s S) (hNone : s.environments.answer? key = none) :
    Agrees (key :: busy) s { S with table := S.table.insert key slot } := by
  refine ⟨h.state, fun other hOther => ?_, List.forall_mem_cons.2 ⟨hNone, h.busy⟩⟩
  obtain ⟨hDiffers, hOther⟩ := not_or.1 (List.mem_cons.not.1 hOther)
  rw [OrderedMap.get?_insert, if_neg (Ne.symm hDiffers)]
  exact h.others other hOther

theorem environmentOnce_of_answered {answer : Result (Lookup Environment)}
    {make : ResolverAction (Lookup Environment)}
    (hSome : s.environments.answer? key = some answer) :
    (environmentOnce key make).run.run s = (a, u) ↔ answer = a ∧ s = u :=
  memoized_of_answered hSome

/-- The answer behind a log that has none. -/
theorem answer?_append (hNone : s.environments.answer? key = none) (other : EnvironmentKey) :
    AnswerLog.answer? (s.environments ++ [(key, a)]) other =
      if key = other then some a else s.environments.answer? other := by
  rw [AnswerLog.answer?, List.lookup_append, AnswerLog.answer?]
  by_cases hSame : key = other
  · subst hSame
    rw [AnswerLog.answer?] at hNone
    rw [if_pos rfl, hNone, List.lookup_cons_self, Option.none_or]
  · have hSingle : List.lookup other [(key, a)] = none :=
      List.lookup_eq_none_iff.2 (by simpa using Ne.symm hSame)
    rw [if_neg hSame, hSingle, Option.or_none]

/-- Work is done, and its answer is logged. -/
theorem Agrees.finish (h : Agrees (key :: busy) s S) (hKey : key ∉ busy) :
    Agrees busy { s with environments := s.environments ++ [(key, a)] }
      { S with table := S.table.insert key (.answered a) } := by
  have hNone := h.busy key List.mem_cons_self
  refine ⟨h.state, fun other hOther => ?_, fun other hOther => ?_⟩
  · rw [answer?_append hNone, OrderedMap.get?_insert]
    split
    · rfl
    · rename_i hDiffers
      exact h.others other (List.mem_cons.not.2 (not_or.2 ⟨Ne.symm hDiffers, hOther⟩))
  · have hDiffers : key ≠ other := (ne_of_mem_of_not_mem hOther hKey).symm
    rw [answer?_append hNone, if_neg hDiffers]
    exact h.busy other (List.mem_cons_of_mem _ hOther)

-- ---------------------------------------------------------------------------
-- Work for a key
-- ---------------------------------------------------------------------------

/-- Some turns bring the work for `k` to `p`, and the resolver to `u`. Other work that went on is
where it was. -/
structure Carries (r : Resolver) (k : EnvironmentKey) (busy : List EnvironmentKey)
    (S S' : QuerySession) (u : ResolverState) (p : EnvironmentProcess) : Prop where
  leads : Leads r.questions S S'
  agrees : Agrees (k :: busy) u S'
  own : S'.table.get? k = some (.working p)
  callers : S'.callers = S.callers
  others : ∀ key ∈ busy, S'.table.get? key = S.table.get? key

theorem Carries.trans (h : Carries r k busy S S' s p) (h' : Carries r k busy S' S'' u p') :
    Carries r k busy S S'' u p' :=
  ⟨h.leads.trans h'.leads, h'.agrees, h'.own, h'.callers.trans h.callers,
    fun key hKey => (h'.others key hKey).trans (h.others key hKey)⟩

/-- The work has a turn in which it starts nothing. -/
theorem Carries.turn (h : Carries r k busy S S' u p) (hOwn : k ∉ busy) {versions : VersionState}
    {events : List (Event EnvironmentKey (Platform × String) (Lookup Environment))}
    (hTurn : p.Turn S'.state S'.table events versions S'.table p') :
    ∃ S'', Carries r k busy S S'' { u with versions := versions } p' := by
  refine ⟨⟨versions, S'.table.insert k (.working p'), S'.callers⟩, h.leads.step (.work h.own hTurn),
    h.agrees.goOn List.mem_cons_self versions, ?_, h.callers, fun key hKey => ?_⟩
  · rw [OrderedMap.get?_insert, if_pos rfl]
  · have hDiffers : k ≠ key := (ne_of_mem_of_not_mem hKey hOwn).symm
    rw [OrderedMap.get?_insert, if_neg hDiffers]
    exact h.others key hKey

/-- The work goes on with answers that are known. -/
theorem Carries.hear (h : Carries r k busy S S' u p) (hOwn : k ∉ busy)
    {heard : List (EnvironmentKey × Result (Lookup Environment))}
    (hHears : p.Hears (Table.Answers S'.table) heard p') : ∃ S'', Carries r k busy S S'' u p' := by
  obtain ⟨S'', hCarries⟩ := h.turn hOwn (.hear hHears)
  rw [h.agrees.state] at hCarries
  exact ⟨S'', hCarries⟩

/-- What all work of a process comes to, when nobody else has a turn. -/
def RunsAlone (r : Resolver) (p : EnvironmentProcess) : Prop :=
  ∀ {k busy s a u S}, p.alone.run.run s = (a, u) → Agrees (k :: busy) s S → k ∉ busy →
    S.table.get? k = some (.working p) → p.Apart (k :: busy) →
      ∃ S', Carries r k busy S S' u (.done a)

/-- The work asks for a key, and works itself on what it wants if nobody asked before. -/
theorem carries_once (hMake : RunsAlone r make) (hWants : p.Wants key make)
    (h : (environmentOnce key make.alone).run.run s = (b, u)) (hAgrees : Agrees (k :: busy) s S)
    (hOwn : k ∉ busy) (hSome : S.table.get? k = some (.working p)) (hKey : key ∉ k :: busy)
    (hApart : make.Apart (key :: k :: busy)) :
    ∃ S', Carries r k busy S S' u p ∧ S'.table.Answers key b := by
  have hTable := hAgrees.others key hKey
  cases hLog : s.environments.answer? key with
  | some answer =>
    obtain ⟨rfl, rfl⟩ := (environmentOnce_of_answered hLog).1 h
    rw [hLog] at hTable
    exact ⟨S, ⟨.refl, hAgrees, hSome, rfl, fun _ _ => rfl⟩, hTable⟩
  | none =>
    obtain ⟨v, hRun, rfl⟩ := (environmentOnce_iff hLog).1 h
    rw [hLog] at hTable
    obtain ⟨state, table, callers⟩ := S
    obtain rfl : state = s.versions := hAgrees.state
    obtain ⟨hDiffers, hIdle⟩ := not_or.1 (List.mem_cons.not.1 hKey)
    have hStart : Step r.questions ⟨s.versions, table, callers⟩ [.started key]
        ⟨s.versions, (table.insert key (.working make)).insert k (.working p), callers⟩ :=
      .work hSome (.start hWants hTable)
    have hMade : ((table.insert key (.working make)).insert k (.working p)).get? key =
        some (.working make) := by
      rw [OrderedMap.get?_insert, if_neg (Ne.symm hDiffers), OrderedMap.get?_insert, if_pos rfl]
    obtain ⟨S₂, hWork⟩ := hMake hRun
      ((hAgrees.start hLog).goOn (List.mem_cons_of_mem _ List.mem_cons_self) s.versions) hKey hMade
      hApart
    refine ⟨⟨S₂.state, S₂.table.insert key (.answered b), S₂.callers⟩,
      ⟨(Leads.refl.step hStart).trans (hWork.leads.step (.finish hWork.own)),
        hWork.agrees.finish hKey, ?_, hWork.callers, fun other hOther => ?_⟩, ?_⟩
    · rw [OrderedMap.get?_insert, if_neg hDiffers, hWork.others k List.mem_cons_self,
        OrderedMap.get?_insert, if_pos rfl]
    · have hKeyDiffers : key ≠ other := (ne_of_mem_of_not_mem hOther hIdle).symm
      have hOwnDiffers : k ≠ other := (ne_of_mem_of_not_mem hOther hOwn).symm
      rw [OrderedMap.get?_insert, if_neg hKeyDiffers,
        hWork.others other (List.mem_cons_of_mem _ hOther), OrderedMap.get?_insert,
        if_neg hOwnDiffers, OrderedMap.get?_insert, if_neg hKeyDiffers]
    · rw [Table.Answers, OrderedMap.get?_insert, if_pos rfl]

/-- The work has come to `p`, which goes on alone. -/
theorem Carries.run (h : Carries r k busy S S' s p) (hOwn : k ∉ busy) (hApart : p.Apart (k :: busy))
    (hAlone : RunsAlone r p) (hRun : p.alone.run.run s = (a, u)) :
    ∃ S'', Carries r k busy S S'' u (.done a) := by
  obtain ⟨S'', hDone⟩ := hAlone hRun h.agrees hOwn h.own hApart
  exact ⟨S'', h.trans hDone⟩

/-- **Work alone**: the turns of a process in a row bring it to the answer that it has alone. -/
theorem runsAlone (p : EnvironmentProcess) : RunsAlone r p := by
  induction p with
  | done answer =>
    intro k busy s a u S h hAgrees hOwn hSome hApart
    obtain ⟨rfl, rfl⟩ := liftExcept_iff.1 h
    exact ⟨S, .refl, hAgrees, hSome, rfl, fun _ _ => rfl⟩
  | act mark effect next ih =>
    intro k busy s a u S h hAgrees hOwn hSome hApart
    have hNow : Carries r k busy S S s (.act mark effect next) :=
      ⟨.refl, hAgrees, hSome, rfl, fun _ _ => rfl⟩
    obtain ⟨S₁, hNext⟩ := hNow.turn hOwn .act
    rw [hAgrees.state] at hNext
    exact hNext.run hOwn (hApart _) (ih _) h
  | ask key make next ihMake ih =>
    intro k busy s a u S h hAgrees hOwn hSome hApart
    obtain ⟨hKey, hMake, hRest⟩ := hApart
    obtain ⟨b, v, hOnce⟩ : ∃ b v, (environmentOnce key make.alone).run.run s = (b, v) := ⟨_, _, rfl⟩
    have hNextRun : (next b).alone.run.run v = (a, u) := by
      rw [alone, run_observing_bind, hOnce] at h
      exact h
    obtain ⟨S₁, hAsked, hAnswer⟩ := carries_once ihMake .ask hOnce hAgrees hOwn hSome hKey hMake
    obtain ⟨S₂, hHeard⟩ := hAsked.hear hOwn (.ask hAnswer)
    exact hHeard.run hOwn (hRest b) (ih b) hNextRun
  | both left right makeLeft makeRight next ihLeft ihRight ih =>
    intro k busy s a u S h hAgrees hOwn hSome hApart
    obtain ⟨⟨hLeftKey, hLeftMake⟩, ⟨hRightKey, hRightMake⟩, hRest⟩ := hApart
    obtain ⟨found, x, hFound⟩ : ∃ found x, (do
        let a ← environmentOnce left makeLeft.alone
        let b ← environmentOnce right makeRight.alone
        pure (a, b) : ResolverAction (Lookup Environment × Lookup Environment)).run.run s =
          (found, x) := ⟨_, _, rfl⟩
    have hNextRun : (next found).alone.run.run x = (a, u) := by
      rw [alone, run_observing_bind, hFound] at h
      exact h
    obtain ⟨e, hLeft, rfl⟩ | ⟨first, v, hLeft, hFound⟩ := bind_iff.1 hFound
    · -- the right side is not asked for
      obtain ⟨S₁, hAsked, hAnswer⟩ :=
        carries_once ihLeft .left hLeft hAgrees hOwn hSome hLeftKey hLeftMake
      obtain ⟨S₂, hHeard⟩ := hAsked.hear hOwn (.left hAnswer)
      exact hHeard.run hOwn (hRest _) (ih _) hNextRun
    obtain ⟨S₁, hAsked, hAnswer⟩ :=
      carries_once ihLeft .left hLeft hAgrees hOwn hSome hLeftKey hLeftMake
    obtain ⟨e, hRight, rfl⟩ | ⟨second, w, hRight, hFound⟩ := bind_iff.1 hFound
    · obtain ⟨S₂, hBoth, hAnswer'⟩ :=
        carries_once ihRight .right hRight hAsked.agrees hOwn hAsked.own hRightKey hRightMake
      obtain ⟨S₃, hHeard⟩ := (hAsked.trans hBoth).hear hOwn (.right hAnswer')
      exact hHeard.run hOwn (hRest _) (ih _) hNextRun
    · obtain ⟨rfl, rfl⟩ := pure_iff.1 hFound
      obtain ⟨S₂, hBoth, hAnswer'⟩ :=
        carries_once ihRight .right hRight hAsked.agrees hOwn hAsked.own hRightKey hRightMake
      have hKept := hBoth.leads.grows.answers hAnswer
      obtain ⟨S₃, hHeard⟩ := (hAsked.trans hBoth).hear hOwn (.both hKept hAnswer')
      exact hHeard.run hOwn (hRest _) (ih _) hNextRun

-- ---------------------------------------------------------------------------
-- Requests
-- ---------------------------------------------------------------------------

section Requests

variable {platform : Platform} {version artifact : String} {modifiers : List Modifier}

/-- The work for a platform asks for other platforms only. -/
theorem apart_baseProcess (hBusy : ∀ key ∈ busy, key.platform = platform) :
    (r.baseProcess platform version).Apart busy := by
  have hOther : ∀ {side : Platform}, side ≠ platform →
      (⟨side, version, none⟩ : EnvironmentKey) ∉ busy := fun hSide hMem => hSide (hBusy _ hMem)
  unfold baseProcess
  cases hPlatform : platform.side? with
  | some side => exact modest_sideProcess.apart
  | none =>
    have hJoined : platform = .joined := by
      cases platform <;> first | rfl | cases hPlatform
    subst hJoined
    refine ⟨⟨hOther nofun, modest_sideProcess.apart⟩, ⟨hOther nofun, modest_sideProcess.apart⟩,
      fun found => ?_⟩
    have hQuiet : (after (r.joinProcess version) found).Modest fun _ => False :=
      modest_after (fun _ => modest_joinProcess) found
    exact hQuiet.apart

/-- The work for a modified artifact asks for what is not modified only. -/
theorem apart_modifiedProcess : (r.modifiedProcess platform artifact version modifiers).Apart
    [⟨platform, version, some artifact⟩] := by
  refine Apart.mapError ⟨by simp, apart_baseProcess (by simp), fun found => ?_⟩
  have hQuiet : (after (r.modifyProcess artifact version modifiers) found).Modest fun _ => False :=
    modest_after (fun _ => modest_modifyProcess) found
  exact hQuiet.apart

/-- The work for a query does not wait for itself. -/
theorem apart_question {q : Query} {v v' : VersionState}
    (h : (r.question q).run.run v = (.ok (key, make), v')) : make.Apart [key] := by
  obtain ⟨hAsks, ⟨rfl, hArtifact⟩ | ⟨artifact, rfl, hArtifact⟩⟩ := question_ok h
  · cases hAsks with
    | base => exact apart_baseProcess (by simp)
    | modified => cases hArtifact
  · cases hAsks with
    | base => cases hArtifact
    | modified =>
      cases hArtifact
      exact apart_modifiedProcess

/-- **A request alone** is a session: the resolver comes as far as the session, in which the request
is refused, or is answered with what the resolver provides. -/
theorem leads_provide {q : Query} (hAgrees : Agrees [] s S)
    (h : (r.provide q.platform q.version q.modifiers).run.run s = (a, u)) :
    ∃ S', Leads r.questions S S' ∧ Agrees [] u S' ∧
      ((S'.callers = S.callers ∧ ∃ e, a = .error e) ∨
        ∃ key, S'.callers = S.callers ++ [⟨q, key, some a⟩]) := by
  obtain ⟨state, table, callers⟩ := S
  obtain rfl : state = s.versions := hAgrees.state
  rw [← answerAlone_eq] at h
  obtain ⟨e, hRefused, rfl⟩ | ⟨⟨key, make⟩, _, hAsked, hOnce⟩ := bind_iff.1 h
  · obtain ⟨v, hFound, rfl⟩ := onPart_iff.1 hRefused
    have hQuestion : r.questions q s.versions = (.error e, v) := hFound
    have hRefuse : Step r.questions ⟨s.versions, table, callers⟩ [] ⟨v, table, callers⟩ :=
      .refuse hQuestion
    exact ⟨_, Leads.refl.step hRefuse, ⟨rfl, hAgrees.others, nofun⟩, .inl ⟨rfl, e, rfl⟩⟩
  obtain ⟨v, hFound, rfl⟩ := onPart_iff.1 hAsked
  have hQuestion : r.questions q s.versions = (.ok (key, make), v) := hFound
  have hLater : Agrees [] { s with versions := v } ⟨v, table, callers⟩ :=
    ⟨rfl, hAgrees.others, nofun⟩
  have hTable := hLater.others key List.not_mem_nil
  generalize { s with versions := v } = s₁ at hOnce hLater hTable
  cases hLog : s₁.environments.answer? key with
  | some answer =>
    obtain ⟨rfl, rfl⟩ := (environmentOnce_of_answered hLog).1 hOnce
    rw [hLog] at hTable
    have hJoin : Step r.questions ⟨s.versions, table, callers⟩ []
        ⟨v, table, callers ++ [⟨q, key, none⟩]⟩ := .join hQuestion hTable
    have hReply : Step r.questions ⟨v, table, callers ++ [⟨q, key, none⟩]⟩ [.received key answer]
        ⟨v, table, callers ++ [⟨q, key, some answer⟩]⟩ := .reply hTable
    exact ⟨_, (Leads.refl.step hJoin).step hReply, hLater.withCallers _, .inr ⟨key, rfl⟩⟩
  | none =>
    obtain ⟨w, hRun, rfl⟩ := (environmentOnce_iff hLog).1 hOnce
    rw [hLog] at hTable
    have hFirst : Step r.questions ⟨s.versions, table, callers⟩ [.started key]
        ⟨v, table.insert key (.working make), callers ++ [⟨q, key, none⟩]⟩ :=
      .first hQuestion hTable
    have hStarted : Agrees [key] s₁
        ⟨v, table.insert key (.working make), callers ++ [⟨q, key, none⟩]⟩ :=
      (hLater.start hLog).withCallers _
    have hMade : (table.insert key (.working make)).get? key = some (.working make) := by
      rw [OrderedMap.get?_insert, if_pos rfl]
    obtain ⟨⟨state, table', callers'⟩, hWork⟩ :=
      runsAlone make hRun hStarted List.not_mem_nil hMade (apart_question hQuestion)
    obtain rfl : callers' = callers ++ [⟨q, key, none⟩] := hWork.callers
    have hAnswer : Table.Answers (table'.insert key (.answered a)) key a := by
      rw [Table.Answers, OrderedMap.get?_insert, if_pos rfl]
    have hReply : Step r.questions
        ⟨state, table'.insert key (.answered a), callers ++ [⟨q, key, none⟩]⟩ [.received key a]
        ⟨state, table'.insert key (.answered a), callers ++ [⟨q, key, some a⟩]⟩ := .reply hAnswer
    exact ⟨_, (((Leads.refl.step hFirst).trans hWork.leads).step (.finish hWork.own)).step hReply,
      (hWork.agrees.finish List.not_mem_nil).withCallers _, .inr ⟨key, rfl⟩⟩

/-- The state of a resolver behind some requests, one after the other. -/
def provideAll (r : Resolver) (queries : List Query) (s : ResolverState) : ResolverState :=
  queries.foldl (fun s q => ((r.provide q.platform q.version q.modifiers).run.run s).2) s

/-- **Requests one by one** are a session. -/
theorem leads_provideAll {queries : List Query} (hAgrees : Agrees [] s S) :
    ∃ S', Leads r.questions S S' ∧ Agrees [] (r.provideAll queries s) S' := by
  induction queries generalizing s S with
  | nil => exact ⟨S, .refl, hAgrees⟩
  | cons q more ih =>
    obtain ⟨S₁, hLeads, hFirst, -⟩ := leads_provide hAgrees rfl
    obtain ⟨S₂, hRest, hAgrees₂⟩ := ih hFirst
    exact ⟨S₂, hLeads.trans hRest, hAgrees₂⟩

end Requests

end Jarsmith.Resolver
