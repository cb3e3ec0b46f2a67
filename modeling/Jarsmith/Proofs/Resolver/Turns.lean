import Jarsmith.Proofs.Running
import Jarsmith.Proofs.Sharing
import Jarsmith.Resolver.Provide

/-!
# The turns of a resolver

What a resolver does is cut where it waits, so that it can serve other requests there. When nobody
else asks, the turns add up to what the resolver provides.

* `Resolver.sideProcess`, `Resolver.joinedProcess`, `Resolver.modifiedProcess` — the turns of making
  an environment.
* `Resolver.question` — what a query asks for.
* `Resolver.modest_sideProcess` — the work for a side performs one download.
* `Resolver.answerAlone_eq` — the turns without anybody else.
-/

namespace Jarsmith

instance lawfulLift_versions : LawfulMonadLift VersionAction ResolverAction where
  monadLift_pure := Running.onPart_pure fun _ => rfl
  monadLift_bind := Running.onPart_bind (fun _ _ => rfl) fun _ _ _ => rfl

instance lawfulLift_world : LawfulMonadLift Action VersionAction where
  monadLift_pure := Running.onPart_pure fun _ => rfl
  monadLift_bind := Running.onPart_bind (fun _ _ => rfl) fun _ _ _ => rfl

instance lawfulLift_files : LawfulMonadLift FileAction Action where
  monadLift_pure := Running.onPart_pure fun _ => rfl
  monadLift_bind := Running.onPart_bind (fun _ _ => rfl) fun _ _ _ => rfl

/-- The work for an environment. A mark stands for the download of the jar of a platform and a
version. -/
abbrev EnvironmentProcess :=
  Process VersionState EnvironmentKey (Platform × String) (Lookup Environment)

namespace Process

variable {β : Type}

/-- Goes on behind a success; a failure ends the process. -/
def after (next : β → EnvironmentProcess) : Result β → EnvironmentProcess
  | .ok b => next b
  | .error e => .done (.error e)

/-- A step of a computation, in one turn. -/
def step (mark : Option (Platform × String)) (x : VersionAction β) (next : β → EnvironmentProcess) :
    EnvironmentProcess :=
  .act mark (fun s => (x.run.run s).2) fun s => after next (x.run.run s).1

/-- What a process does when nobody else has a turn. -/
def alone : EnvironmentProcess → ResolverAction (Lookup Environment)
  | .done answer => liftExcept answer
  | .act _ effect next => do
    let s := (← getThe ResolverState).versions
    modifyThe ResolverState fun t => { t with versions := effect s }
    (next s).alone
  | .ask key make next => do
    let found ← observing (Resolver.environmentOnce key make.alone)
    (next found).alone
  | .both left right makeLeft makeRight next => do
    let found ← observing do
      let a ← Resolver.environmentOnce left makeLeft.alone
      let b ← Resolver.environmentOnce right makeRight.alone
      pure (a, b)
    (next found).alone

open Running

variable {x : VersionAction β} {mark : Option (Platform × String)} {next : β → EnvironmentProcess}

/-- A step is one turn. -/
theorem turn_step {s : VersionState}
    {t : Table VersionState EnvironmentKey (Platform × String) (Lookup Environment)} :
    (step mark x next).Turn s t (mark.toList.map .performed) (x.run.run s).2 t
      (after next (x.run.run s).1) := .act

theorem alone_step : (step mark x next).alone =
    (liftM x : ResolverAction β) >>= fun b => (next b).alone := by
  refine ExceptT.ext (funext fun s => ?_)
  have hLift : (liftM x : ResolverAction β).run.run s =
    ((x.run.run s.versions).1, { s with versions := (x.run.run s.versions).2 }) := rfl
  have hStep : (step mark x next).alone.run.run s =
    (after next (x.run.run s.versions).1).alone.run.run
      { s with versions := (x.run.run s.versions).2 } := rfl
  refine hStep.trans (Eq.symm ?_)
  cases hRun : (x.run.run s.versions).1 with
  | error e => exact bind_iff.2 (.inl ⟨e, hRun ▸ hLift, rfl⟩)
  | ok b => exact (bind_of_ok (hRun ▸ hLift)).2 rfl

theorem alone_ask {key : EnvironmentKey} {make : EnvironmentProcess}
    {next : Lookup Environment → EnvironmentProcess} :
    (.ask key make (after next) : EnvironmentProcess).alone =
      Resolver.environmentOnce key make.alone >>= fun found => (next found).alone :=
  observing_bind fun _ => rfl

theorem alone_both {left right : EnvironmentKey} {makeLeft makeRight : EnvironmentProcess}
    {next : Lookup Environment × Lookup Environment → EnvironmentProcess} :
    (.both left right makeLeft makeRight (after next) : EnvironmentProcess).alone = (do
      let a ← Resolver.environmentOnce left makeLeft.alone
      let b ← Resolver.environmentOnce right makeRight.alone
      (next (a, b)).alone) := by
  refine (observing_bind fun _ => rfl).trans ?_
  simp only [bind_assoc, pure_bind]
  rfl

theorem run_adapt {f : Error → Error} {y : ResolverAction (Lookup Environment)}
    {s : ResolverState} :
    (y.adapt f).run.run s = ((y.run.run s).1.mapError f, (y.run.run s).2) := rfl

theorem alone_mapError {p : EnvironmentProcess} {f : Error → Error} :
    (p.mapError f).alone = p.alone.adapt f := by
  refine ExceptT.ext (funext fun s => ?_)
  show (p.mapError f).alone.run.run s = (p.alone.adapt f).run.run s
  rw [run_adapt]
  induction p generalizing s with
  | done answer => cases answer <;> rfl
  | act mark effect next ih => exact ih s.versions _
  | ask key make next _ ih =>
    exact run_observing_bind.trans ((ih _ _).trans (by rw [alone, run_observing_bind]))
  | both left right makeLeft makeRight next _ _ ih =>
    exact run_observing_bind.trans ((ih _ _).trans (by rw [alone, run_observing_bind]))

end Process

namespace Resolver

-- ---------------------------------------------------------------------------
-- Turns
-- ---------------------------------------------------------------------------

/-- The last turn of making an environment. -/
def finishProcess (env : Environment) (upToDate : Bool) : EnvironmentProcess :=
  .step none (liftM (writeMetadata env upToDate)) fun _ => .done (.ok (.found env upToDate))

/-- The turns of making the jar of an environment, unless the jar is there and the inputs are up to
date. -/
def refreshProcess (r : Resolver) (env : Environment) (inputsUpToDate : Bool)
    (make : EnvironmentProcess → EnvironmentProcess) : EnvironmentProcess :=
  .step none (liftM (FileAction.isFile env.jar)) fun isThere =>
    let upToDate := !r.forceRefresh && inputsUpToDate && isThere
    if upToDate then finishProcess env upToDate else make (finishProcess env upToDate)

/-- The turns of making the jar of a side anew, and then of what is left to do. -/
def remakeSide (p : Platform) (side : Side) (version downloaded : String) (env : Environment)
    (bundle : Option Bundle) (rest : EnvironmentProcess) : EnvironmentProcess :=
  .step none (liftM (deleteDerived p version env.jar)) fun _ =>
  .step none (liftM (during p.id "transform jar"
    (liftM (makeSideJar side downloaded env.jar bundle)) : Action Unit)) fun _ => rest

/-- The turns of making the environment of a side. -/
def sideProcess (r : Resolver) (p : Platform) (side : Side) (version : String) :
    EnvironmentProcess :=
  .step none (during p.id "resolve version" (r.repository.descriptor version)) fun
    | .notFound => .done (.ok .notFound)
    | .found v _ =>
      match v.download? side.jarDownload with
      | none => .done (.ok .notFound)
      | some download =>
        .step (some (p, version)) (during p.id "download jar" (liftM (r.downloader.downloadValid
            download.url (downloadPath p version) .sha1 download.sha1))) fun
          | .notFound => .done (.ok .notFound)
          | .found downloaded upToDate =>
            .step none (during p.id "read bundler metadata" (liftM (Bundle.read downloaded)))
              fun bundle =>
            .step none (liftExcept (side.dependencies v bundle)) fun dependencies =>
              let env : Environment :=
                ⟨p.id, p, artifactPath r.sharedRoot p.id version, dependencies, v⟩
              r.refreshProcess env upToDate (remakeSide p side version downloaded env bundle)

/-- The turns of making the joined jar anew. -/
def remakeJoined (version : String) (client server env : Environment) (rest : EnvironmentProcess) :
    EnvironmentProcess :=
  .step none (liftM (deleteDerived .joined version env.jar)) fun _ =>
  .step none (liftM (during Platform.joined.id "merge jars"
    (liftM (Jar.merge client.jar server.jar env.jar)) : Action _)) fun _ => rest

/-- The turns of making the joined environment from those of the sides. -/
def joinProcess (r : Resolver) (version : String) :
    Lookup Environment × Lookup Environment → EnvironmentProcess
  | (.found client clientUpToDate, .found server serverUpToDate) =>
    let p := Platform.joined
    let dependencies := MavenCoordinate.sorted (client.dependencies ++ server.dependencies)
    let env : Environment :=
      ⟨p.id, p, artifactPath r.sharedRoot p.id version, dependencies, client.version⟩
    r.refreshProcess env (clientUpToDate && serverUpToDate) (remakeJoined version client server env)
  | _ => .done (.ok .notFound)

/-- The turns of making the joined environment. It asks for both sides at a time. -/
def joinedProcess (r : Resolver) (version : String) : EnvironmentProcess :=
  .both ⟨.client, version, none⟩ ⟨.server, version, none⟩ (r.sideProcess .client .client version)
    (r.sideProcess .server .server version) (.after (r.joinProcess version))

/-- The turns of making the environment of a platform. -/
def baseProcess (r : Resolver) (p : Platform) (version : String) : EnvironmentProcess :=
  match p.side? with
  | some side => r.sideProcess p side version
  | none => r.joinedProcess version

/-- The turns of preparing the stages of modifiers, one modifier after the other. -/
def prepareProcess (r : Resolver) (artifact : String) (base : Environment) :
    List Modifier → (List (List Transformer) → EnvironmentProcess) → EnvironmentProcess
  | [], next => next []
  | m :: more, next =>
    .step none (liftM (during artifact "prepare modifier" (m.transformers r.downloader base)))
      fun stages => r.prepareProcess artifact base more fun rest => next (stages :: rest)

/-- The turns of making a modified jar anew. -/
def remakeModified (r : Resolver) (artifact : String) (modifiers : List Modifier)
    (base env : Environment) (rest : EnvironmentProcess) : EnvironmentProcess :=
  r.prepareProcess artifact base modifiers fun stages =>
    .step none (liftM (during artifact "transform jar"
      (liftM (Jar.transform base.jar env.jar stages.flatten)) : Action _)) fun _ => rest

/-- The turns of making a modified environment from that of a platform. -/
def modifyProcess (r : Resolver) (artifact version : String) (modifiers : List Modifier) :
    Lookup Environment → EnvironmentProcess
  | .notFound => .done (.ok .notFound)
  | .found base upToDate =>
    let root := if Modifier.areLocal modifiers then r.localRoot else r.sharedRoot
    let env := { base with artifact := artifact, jar := artifactPath root artifact version }
    r.refreshProcess env upToDate (r.remakeModified artifact modifiers base env)

/-- The turns of making a modified environment. It asks for that of the platform. -/
def modifiedProcess (r : Resolver) (p : Platform) (artifact version : String)
    (modifiers : List Modifier) : EnvironmentProcess :=
  (Process.ask ⟨p, version, none⟩ (r.baseProcess p version)
    (.after (r.modifyProcess artifact version modifiers))).mapError
      (.during artifact "apply modifiers")

/-- What is asked of a resolver. -/
structure Query where
  platform : Platform
  version : String
  modifiers : List Modifier

/-- The key of a query and the work for it. Modifiers that do not go together, or have no digest,
are refused. -/
def question (r : Resolver) (q : Query) : VersionAction (EnvironmentKey × EnvironmentProcess) := do
  liftExcept (Modifier.validate q.modifiers)
  if q.modifiers.isEmpty then
    pure (⟨q.platform, q.version, none⟩, r.baseProcess q.platform q.version)
  else
    let artifact ← Modifier.decorate q.platform.id q.modifiers
    pure (⟨q.platform, q.version, some artifact⟩,
      r.modifiedProcess q.platform artifact q.version q.modifiers)

/-- The keys that a query may ask for: that of the platform, or that of the artifact which the
modifiers name in some state of the files. -/
inductive Query.Asks (q : Query) : EnvironmentKey → Prop
  | base : q.modifiers = [] → q.Asks ⟨q.platform, q.version, none⟩
  | modified {artifact s t} : q.modifiers ≠ [] →
      (Modifier.decorate q.platform.id q.modifiers).run.run s = (.ok artifact, t) →
      q.Asks ⟨q.platform, q.version, some artifact⟩

/-- What queries ask for. -/
def questions (r : Resolver) : Questions Query VersionState EnvironmentKey (Platform × String)
    (Lookup Environment) := fun q s => (r.question q).run.run s

/-- What comes of a question that is not refused. -/
theorem question_ok {r : Resolver} {q : Query} {s t : VersionState} {key : EnvironmentKey}
    {make : EnvironmentProcess} (h : (r.question q).run.run s = (.ok (key, make), t)) :
    q.Asks key ∧ ((make = r.baseProcess q.platform q.version ∧ key.artifact = none) ∨
      ∃ artifact, make = r.modifiedProcess q.platform artifact q.version q.modifiers ∧
        key.artifact = some artifact) := by
  obtain ⟨_, _, _, h⟩ := Running.bind_ok_iff.1 h
  split at h
  · rename_i hEmpty
    cases (Running.pure_iff.1 h).1
    exact ⟨.base (List.isEmpty_iff.1 hEmpty), .inl ⟨rfl, rfl⟩⟩
  · rename_i hModified
    obtain ⟨artifact, _, hLifted, h⟩ := Running.bind_ok_iff.1 h
    cases (Running.pure_iff.1 h).1
    obtain ⟨w, hWorld, -⟩ := Running.onPart_iff.1 hLifted
    obtain ⟨files, hName, -⟩ := Running.onPart_iff.1 hWorld
    exact ⟨.modified (fun hNil => hModified (List.isEmpty_iff.2 hNil)) hName,
      .inr ⟨artifact, rfl, rfl⟩⟩

/-- The answer to a query when nobody else asks meanwhile. -/
def answerAlone (r : Resolver) (q : Query) : ResolverAction (Lookup Environment) := do
  let asked ← r.question q
  environmentOnce asked.1 asked.2.alone

-- ---------------------------------------------------------------------------
-- Work that asks for nothing
-- ---------------------------------------------------------------------------

section Modest

open Process

variable {r : Resolver} {p : Platform} {side : Side} {version artifact downloaded : String}
  {env base client server : Environment} {bundle : Option Bundle} {inputs : Bool}
  {modifiers : List Modifier} {allowed : Platform × String → Prop} {β : Type}
  {x : VersionAction β} {next : β → EnvironmentProcess} {rest : EnvironmentProcess}

theorem modest_done {answer : Result (Lookup Environment)} :
    (.done answer : EnvironmentProcess).Modest allowed := True.intro

theorem modest_after (hNext : ∀ b, (next b).Modest allowed) (found : Result β) :
    (after next found).Modest allowed := by
  cases found with
  | error e => exact modest_done
  | ok b => exact hNext b

theorem modest_step (hNext : ∀ b, (next b).Modest allowed) : (step none x next).Modest allowed :=
  fun _ => modest_after hNext _

theorem modest_refreshProcess {make : EnvironmentProcess → EnvironmentProcess}
    (hMake : ∀ rest : EnvironmentProcess, rest.Modest allowed → (make rest).Modest allowed) :
    (r.refreshProcess env inputs make).Modest allowed := by
  have hFinish : ∀ upToDate, (finishProcess env upToDate).Modest allowed :=
    fun upToDate => modest_step fun _ => modest_done
  refine modest_step fun isThere => ?_
  dsimp only
  split
  · exact hFinish _
  · exact hMake _ (hFinish _)

theorem modest_remakeSide (hRest : rest.Modest allowed) :
    (remakeSide p side version downloaded env bundle rest).Modest allowed := by
  unfold remakeSide
  exact modest_step fun _ => modest_step fun _ => hRest

/-- The work for a side performs one download, that of its own jar. -/
theorem modest_sideProcess : (r.sideProcess p side version).Modest (· = (p, version)) := by
  unfold sideProcess
  refine modest_step fun found => ?_
  rcases found with _ | ⟨v, wasThere⟩
  · exact modest_done
  dsimp only
  split
  · exact modest_done
  · refine ⟨rfl, fun _ => modest_after (fun fetched => ?_) _⟩
    rcases fetched with _ | ⟨downloaded, upToDate⟩
    · exact modest_done
    · exact modest_step fun bundle => modest_step fun dependencies =>
        modest_refreshProcess fun _ => modest_remakeSide

theorem modest_remakeJoined (hRest : rest.Modest allowed) :
    (remakeJoined version client server env rest).Modest allowed := by
  unfold remakeJoined
  exact modest_step fun _ => modest_step fun _ => hRest

theorem modest_joinProcess {found : Lookup Environment × Lookup Environment} :
    (r.joinProcess version found).Modest allowed := by
  unfold joinProcess
  split
  · exact modest_refreshProcess fun _ => modest_remakeJoined
  · exact modest_done

theorem modest_prepareProcess {next : List (List Transformer) → EnvironmentProcess}
    (hNext : ∀ stages, (next stages).Modest allowed) :
    (r.prepareProcess artifact base modifiers next).Modest allowed := by
  induction modifiers generalizing next with
  | nil => exact hNext []
  | cons m more ih =>
    unfold prepareProcess
    exact modest_step fun stages => ih fun rest => hNext (stages :: rest)

theorem modest_remakeModified (hRest : rest.Modest allowed) :
    (r.remakeModified artifact modifiers base env rest).Modest allowed := by
  unfold remakeModified
  exact modest_prepareProcess fun _ => modest_step fun _ => hRest

theorem modest_modifyProcess {found : Lookup Environment} :
    (r.modifyProcess artifact version modifiers found).Modest allowed := by
  unfold modifyProcess
  split
  · exact modest_done
  · exact modest_refreshProcess fun _ => modest_remakeModified

end Modest

-- ---------------------------------------------------------------------------
-- Turns without anybody else
-- ---------------------------------------------------------------------------

section Alone

open Process

variable {r : Resolver} {p : Platform} {side : Side} {version artifact downloaded : String}
  {env base : Environment} {bundle : Option Bundle} {inputs : Bool} {modifiers : List Modifier}

theorem liftM_liftExcept {α : Type} {q : Result α} :
    (liftM (liftExcept q : VersionAction α) : ResolverAction α) = liftExcept q := by
  cases q <;> rfl

theorem alone_finishProcess {upToDate : Bool} : (finishProcess env upToDate).alone =
    (liftM (liftM (writeMetadata env upToDate) : VersionAction Unit) : ResolverAction Unit) >>=
      fun _ => pure (.found env upToDate) := alone_step

theorem alone_refreshProcess {make : EnvironmentProcess → EnvironmentProcess} {x : Action Unit}
    (hMake : ∀ rest, (make rest).alone =
      (liftM (liftM x : VersionAction Unit) : ResolverAction Unit) >>= fun _ => rest.alone) :
    (r.refreshProcess env inputs make).alone =
      liftM (liftM (r.refresh env inputs x) : VersionAction (Lookup Environment)) := by
  unfold refreshProcess refresh
  rw [alone_step, liftM_bind, liftM_bind]
  refine bind_congr fun isThere => ?_
  generalize (!r.forceRefresh && inputs && isThere) = upToDate
  cases upToDate with
  | false =>
    have hMade : (!false) = true := rfl
    refine (hMake _).trans ?_
    dsimp only
    rw [if_pos hMade, alone_finishProcess]
    simp only [liftM_bind, liftM_pure]
    rfl
  | true =>
    have hKept : ¬ (!true) = true := Bool.false_ne_true
    refine alone_finishProcess.trans ?_
    dsimp only
    rw [if_neg hKept]
    simp only [liftM_bind, liftM_pure]
    rfl

theorem alone_sideProcess :
    (r.sideProcess p side version).alone = liftM (r.sideEnvironment p side version) := by
  unfold sideProcess sideEnvironment
  rw [alone_step, liftM_bind]
  refine bind_congr fun found => ?_
  rcases found with _ | ⟨v, wasThere⟩
  · rfl
  dsimp only
  cases v.download? side.jarDownload with
  | none => rfl
  | some download =>
    dsimp only
    rw [alone_step, liftM_bind]
    refine bind_congr fun fetched => ?_
    rcases fetched with _ | ⟨downloaded, upToDate⟩
    · rfl
    dsimp only
    simp only [alone_step, liftM_bind]
    refine bind_congr fun bundle => ?_
    refine bind_congr fun dependencies => ?_
    refine alone_refreshProcess fun rest => ?_
    simp only [remakeSide, alone_step, liftM_bind, bind_assoc]
    rfl

theorem alone_joinProcess {client server : Lookup Environment} :
    (r.joinProcess version (client, server)).alone =
      liftM (liftM (r.joinedEnvironment version client server) :
        VersionAction (Lookup Environment)) := by
  rcases client with _ | ⟨client, ours⟩
  · rfl
  rcases server with _ | ⟨server, theirs⟩
  · rfl
  refine alone_refreshProcess fun rest => ?_
  simp only [remakeJoined, alone_step, liftM_bind, bind_assoc]
  rfl

theorem alone_baseProcess :
    environmentOnce ⟨p, version, none⟩ (r.baseProcess p version).alone =
      r.provideBase p version := by
  unfold provideBase baseProcess
  cases hSide : p.side? with
  | some side =>
    dsimp only
    rw [alone_sideProcess]
    rfl
  | none =>
    have hJoined : p = .joined := by
      cases p <;> first | rfl | cases hSide
    dsimp only
    rw [joinedProcess, alone_both, alone_sideProcess, alone_sideProcess, hJoined]
    simp only [alone_joinProcess]
    rfl

theorem alone_prepareProcess {next : List (List Transformer) → EnvironmentProcess} :
    (r.prepareProcess artifact base modifiers next).alone =
      (liftM (liftM (modifiers.mapM fun m =>
        during artifact "prepare modifier" (m.transformers r.downloader base)) :
          VersionAction (List (List Transformer))) : ResolverAction (List (List Transformer))) >>=
        fun stages => (next stages).alone := by
  induction modifiers generalizing next with
  | nil => rfl
  | cons m more ih =>
    rw [prepareProcess, alone_step, List.mapM_cons, liftM_bind, liftM_bind, bind_assoc]
    refine bind_congr fun stages => ?_
    rw [ih, liftM_bind, liftM_bind, bind_assoc]
    rfl

theorem alone_modifyProcess {base : Lookup Environment} :
    (r.modifyProcess artifact version modifiers base).alone =
      liftM (liftM (r.modifiedEnvironment artifact version modifiers base) :
        VersionAction (Lookup Environment)) := by
  rcases base with _ | ⟨base, upToDate⟩
  · rfl
  refine alone_refreshProcess fun rest => ?_
  rw [remakeModified, alone_prepareProcess, liftM_bind, liftM_bind, bind_assoc]
  refine bind_congr fun stages => ?_
  rw [alone_step, liftM_bind, liftM_bind, bind_assoc]
  rfl

/-- **Turns without anybody else** are what the resolver provides. -/
theorem answerAlone_eq (q : Query) :
    r.answerAlone q = r.provide q.platform q.version q.modifiers := by
  unfold answerAlone question provide
  rw [liftM_bind, bind_assoc, liftM_liftExcept]
  refine bind_congr fun _ => ?_
  cases hEmpty : q.modifiers.isEmpty with
  | true =>
    rw [if_pos rfl, if_pos rfl]
    exact alone_baseProcess
  | false =>
    rw [if_neg (by simp), if_neg (by simp), liftM_bind, bind_assoc]
    refine bind_congr fun artifact => ?_
    rw [liftM_pure, pure_bind, modifiedProcess, alone_mapError, alone_ask, alone_baseProcess]
    simp only [alone_modifyProcess]
    rfl

end Alone

end Resolver

end Jarsmith
