import Jarsmith.Proofs.Resolver.OneByOne

/-!
# Requests that overlap

What holds in whatever order requests come, have their turns and are answered.

* `Resolver.lawful_questions` — the work for an environment performs at most one download, its own.
* `Resolver.provides_once` — every environment is made at most once, and all who ask for it are
  given the same answer.
-/

namespace Jarsmith.Resolver

-- ---------------------------------------------------------------------------
-- Turns that keep to their own download
-- ---------------------------------------------------------------------------

/-- The environment for which the jar of a platform and a version is downloaded. -/
def ownerOf (download : Platform × String) : EnvironmentKey := ⟨download.1, download.2, none⟩

section Lawful

open Process

variable {r : Resolver} {p : Platform} {side : Side} {version artifact : String}
  {modifiers : List Modifier} {allowed : Platform × String → Prop}

theorem lawful_sideProcess :
    (r.sideProcess p side version).Lawful ownerOf (ownerOf · = ⟨p, version, none⟩) :=
  modest_sideProcess.lawful.mono fun _ hMark => congrArg ownerOf hMark

theorem lawful_after {β : Type} {next : β → EnvironmentProcess}
    (hNext : ∀ b, (next b).Modest allowed) (found : Result β) :
    (after next found).Lawful ownerOf allowed := (modest_after hNext found).lawful

theorem lawful_joinedProcess : (r.joinedProcess version).Lawful ownerOf allowed :=
  ⟨lawful_sideProcess, lawful_sideProcess, lawful_after fun _ => modest_joinProcess⟩

theorem lawful_baseProcess :
    (r.baseProcess p version).Lawful ownerOf (ownerOf · = ⟨p, version, none⟩) := by
  unfold baseProcess
  split
  · exact lawful_sideProcess
  · exact lawful_joinedProcess

theorem lawful_modifiedProcess :
    (r.modifiedProcess p artifact version modifiers).Lawful ownerOf allowed :=
  Lawful.mapError ⟨lawful_baseProcess, lawful_after fun _ => modest_modifyProcess⟩

theorem lawful_questions : Session.Questions.Lawful ownerOf r.questions := by
  intro q s key make s' h
  obtain ⟨hAsks, ⟨rfl, hArtifact⟩ | ⟨artifact, rfl, -⟩⟩ := question_ok h
  · cases hAsks with
    | base => exact lawful_baseProcess
    | modified => cases hArtifact
  · exact lawful_modifiedProcess

end Lawful

-- ---------------------------------------------------------------------------
-- Overlapping requests
-- ---------------------------------------------------------------------------

/-- **Every environment is made at most once**, in whatever order queries come, have their turns and
are answered, while others change the files: work for a key is started at most once, the jar of a
platform and a version is downloaded at most once, and all who ask for a key are given the same
environment, or the same failure. What the resolver provides is what these turns come to alone, and
what it provides for one query after the other is such a session. -/
theorem provides_once (r : Resolver) :
    (∀ q : Query, r.answerAlone q = r.provide q.platform q.version q.modifiers) ∧
      (∀ w queries, ∃ s, Session.Leads r.questions (.fresh ⟨w, .empty⟩) s ∧
        Agrees [] (r.provideAll queries (.ofWorld w)) s) ∧
      ∀ {start trace s}, Session.Runs r.questions (.fresh start) trace s →
        (Event.startedKeys trace).Nodup ∧ (Event.performedMarks trace).Nodup ∧
        (∀ {key a b}, .received key a ∈ trace → .received key b ∈ trace → a = b) ∧
        (∀ c ∈ s.callers, c.request.Asks c.key) ∧
        ∀ c ∈ s.callers, ∀ d ∈ s.callers, c.key = d.key →
          ∀ {a b}, c.answer = some a → d.answer = some b → a = b := by
  refine ⟨answerAlone_eq, fun w queries => leads_provideAll agrees_fresh, ?_⟩
  intro start trace s hRuns
  obtain ⟨hFits, hAsked, hCallers⟩ := Session.sound_of_runs lawful_questions hRuns
  refine ⟨hFits.started, hFits.performed, ?_, ?_, ?_⟩
  · intro key a b ha hb
    exact (hFits.received ha).unique (hFits.received hb)
  · intro c hc
    obtain ⟨_, _, _, hQuestion⟩ := hAsked c hc
    exact (question_ok hQuestion).1
  · intro c hc d hd hKey a b ha hb
    exact (hCallers c hc ha).unique (hKey ▸ hCallers d hd hb)

/-- A resolver with a cache of its own. -/
def bareResolver : Resolver := ⟨.direct "shared", "local", false, "m"⟩

/-- A version of which both jars are listed. -/
def twoSidedVersion : VersionDescriptor :=
  ⟨"1", .release, none, none, none, none, none, none,
    .ofList [("client", ⟨"c", 0, "http://client"⟩), ("server", ⟨"s", 0, "http://server"⟩)], [],
    none⟩

/-- The repository knows the version, and the remote has no files. -/
def bareState : VersionState :=
  ⟨⟨.empty, some ∅, []⟩, ⟨none, ∅, .ofList [("1", twoSidedVersion)]⟩⟩

/-- The key of a platform of that version. -/
def bareKey (p : Platform) : EnvironmentKey := ⟨p, "1", none⟩

/-- Somebody who asks for a platform of that version. -/
def bareCaller (p : Platform) (answer : Option (Result (Lookup Environment))) :
    Caller Query EnvironmentKey (Lookup Environment) :=
  ⟨⟨p, "1", []⟩, bareKey p, answer⟩

/-- The download of the jar of a platform. -/
def fetchJar (p : Platform) (d : Download) : VersionAction (Lookup String) :=
  during p.id "download jar" (liftM (bareResolver.downloader.downloadValid d.url
    (downloadPath p "1") .sha1 d.sha1))

/-- A side looks the version up and then downloads its jar, and is done if there is none. -/
theorem exists_side_turn (p : Platform) (side : Side) (d : Download)
    (hListed : twoSidedVersion.download? side.jarDownload = some d) :
    ∃ next : Lookup String → EnvironmentProcess,
      (∀ t, (bareResolver.sideProcess p side "1").Turn bareState t [] bareState t
        (Process.step (some (p, "1")) (fetchJar p d) next)) ∧
          next .notFound = .done (.ok .notFound) := by
  let look : VersionAction (Lookup VersionDescriptor) :=
    during p.id "resolve version" (bareResolver.repository.descriptor "1")
  have hLook : look.run.run bareState =
    (.ok (.found twoSidedVersion true), bareState) := by rfl
  have hTurn : ∀ t, (bareResolver.sideProcess p side "1").Turn bareState t []
      (look.run.run bareState).2 t (Process.after _ (look.run.run bareState).1) :=
    fun t => Process.turn_step
  simp only [hLook, Process.after, hListed] at hTurn
  exact ⟨_, hTurn, rfl⟩

/-- A download that finds nothing. -/
theorem fetch_turn {p : Platform} {d : Download} {next : Lookup String → EnvironmentProcess}
    {s u : VersionState}
    {t : Table VersionState EnvironmentKey (Platform × String) (Lookup Environment)}
    (hNone : (fetchJar p d).run.run s = (.ok .notFound, u))
    (hNext : next .notFound = .done (.ok .notFound)) :
    (Process.step (some (p, "1")) (fetchJar p d) next).Turn s t [.performed (p, "1")] u t
      (.done (.ok .notFound)) := by
  have hTurn : (Process.step (some (p, "1")) (fetchJar p d) next).Turn s t [.performed (p, "1")]
      ((fetchJar p d).run.run s).2 t (.after next ((fetchJar p d).run.run s).1) := Process.turn_step
  rw [hNone, Process.after, hNext] at hTurn
  exact hTurn

section Example

variable {trace : List (Event EnvironmentKey (Platform × String) (Lookup Environment))}
  {S : QuerySession} {s : VersionState}
  {t : Table VersionState EnvironmentKey (Platform × String) (Lookup Environment)}
  {callers : List (Caller Query EnvironmentKey (Lookup Environment))}

/-- The next turn is that of the work for a key. -/
theorem runs_turn (key : EnvironmentKey)
    (h : Session.Runs bareResolver.questions S trace ⟨s, t, callers⟩) {p p' : EnvironmentProcess}
    {events : List (Event EnvironmentKey (Platform × String) (Lookup Environment))}
    {s' : VersionState}
    {t' : Table VersionState EnvironmentKey (Platform × String) (Lookup Environment)}
    (hWork : t.get? key = some (.working p)) (hTurn : p.Turn s t events s' t' p') :
    Session.Runs bareResolver.questions S (trace ++ events)
      ⟨s', t'.insert key (.working p'), callers⟩ := h.step (.work hWork hTurn)

/-- The work for a key ends. -/
theorem runs_finish (key : EnvironmentKey)
    (h : Session.Runs bareResolver.questions S trace ⟨s, t, callers⟩)
    {answer : Result (Lookup Environment)}
    (hWork : t.get? key = some (.working (.done answer))) :
    Session.Runs bareResolver.questions S (trace ++ [])
      ⟨s, t.insert key (.answered answer), callers⟩ := h.step (.finish hWork)

/-- Somebody who waits is given the answer that is known. -/
theorem runs_reply (before : List (Caller Query EnvironmentKey (Lookup Environment))) (p : Platform)
    (after : List (Caller Query EnvironmentKey (Lookup Environment)))
    (h : Session.Runs bareResolver.questions S trace
      ⟨s, t, before ++ bareCaller p none :: after⟩)
    {answer : Result (Lookup Environment)} (hAnswer : t.Answers (bareKey p) answer) :
    Session.Runs bareResolver.questions S (trace ++ [.received (bareKey p) answer])
      ⟨s, t, before ++ bareCaller p (some answer) :: after⟩ := h.step (.reply hAnswer)

/-- The joined environment is asked for twice, and the client once more while the work goes on. The
jar of each side is downloaded once. -/
theorem provides_once_overlapping : ∃ trace, ∃ s : QuerySession,
    Session.Runs bareResolver.questions (.fresh bareState) trace s ∧
      s.callers = [bareCaller .joined (some (.ok .notFound)),
        bareCaller .client (some (.ok .notFound)),
        bareCaller .joined (some (.ok .notFound))] ∧
      s.state.world.requests = ["http://client", "http://server"] ∧
      Event.startedKeys trace = [bareKey .joined, bareKey .client, bareKey .server] ∧
      Event.performedMarks trace = [(.client, "1"), (.server, "1")] ∧
      (Event.startedKeys trace).Nodup ∧ (Event.performedMarks trace).Nodup := by
  let client : Download := ⟨"c", 0, "http://client"⟩
  let server : Download := ⟨"s", 0, "http://server"⟩
  obtain ⟨u, v, hNoClient, hNoServer, hRequests⟩ : ∃ u v,
      (fetchJar .client client).run.run bareState = (.ok .notFound, u) ∧
        (fetchJar .server server).run.run u = (.ok .notFound, v) ∧
          v.world.requests = ["http://client", "http://server"] :=
    ⟨_, _, Running.run_of_fst (by decide +kernel), Running.run_of_fst (by decide +kernel),
      by decide +kernel⟩
  obtain ⟨client₁, hClient, hClientDone⟩ :=
    exists_side_turn .client .client client (by decide +kernel)
  obtain ⟨server₁, hServer, hServerDone⟩ :=
    exists_side_turn .server .server server (by decide +kernel)
  have hFirst : Session.Step bareResolver.questions (.fresh bareState)
      [.started (bareKey .joined)] ⟨bareState, _, [bareCaller .joined none]⟩ :=
    .first rfl rfl
  have hSides := runs_turn (bareKey .joined)
    (runs_turn (bareKey .joined) (Session.Runs.refl.step hFirst) rfl (.start .left rfl)) rfl
      (.start .right rfl)
  have hClientAsked : bareResolver.questions ⟨.client, "1", []⟩ bareState =
    (.ok (bareKey .client, bareResolver.sideProcess .client .client "1"), bareState) := rfl
  have hJoinedAsked : bareResolver.questions ⟨.joined, "1", []⟩ bareState =
    (.ok (bareKey .joined, bareResolver.joinedProcess "1"), bareState) := rfl
  have hOther := (hSides.step (.join hClientAsked rfl)).step (.join hJoinedAsked rfl)
  -- both sides look the version up and download
  have hLooked := runs_turn (bareKey .server)
    (runs_turn (bareKey .client) hOther rfl (hClient _)) rfl (hServer _)
  have hFetched := runs_turn (bareKey .server)
    (runs_turn (bareKey .client) hLooked rfl (fetch_turn hNoClient hClientDone)) rfl
      (fetch_turn hNoServer hServerDone)
  have hServed := runs_finish (bareKey .server)
    (runs_finish (bareKey .client) hFetched rfl) rfl
  have hJoined := runs_finish (bareKey .joined)
    (runs_turn (bareKey .joined) hServed rfl (.hear (.both rfl rfl))) rfl
  have hFirstReply := runs_reply [] .joined [bareCaller .client none, bareCaller .joined none]
    hJoined rfl
  have hSecondReply := runs_reply [bareCaller .joined (some (.ok .notFound))] .client
    [bareCaller .joined none] hFirstReply rfl
  have hAnswered := runs_reply [bareCaller .joined (some (.ok .notFound)),
    bareCaller .client (some (.ok .notFound))] .joined [] hSecondReply rfl
  obtain ⟨hStarted, hPerformed, -⟩ := (provides_once bareResolver).2.2 hAnswered
  exact ⟨_, _, hAnswered, rfl, hRequests, rfl, rfl, hStarted, hPerformed⟩

end Example

end Jarsmith.Resolver
