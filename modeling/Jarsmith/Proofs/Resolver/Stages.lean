import Jarsmith.Proofs.Downloader
import Jarsmith.Proofs.Resolver.Documents
import Jarsmith.Proofs.Resolver.Making
import Jarsmith.Proofs.Resolver.Modifiers

/-!
# Stages of providing an environment

When a jar is made anew and what stands in the cache behind that, and what providing an environment
touches on the way: the inputs of a side, the jar of a platform and the jar of an artifact.

* `Resolver.Published` — the jar of an environment and the module descriptor beside it are there.
* `Resolver.run_refresh` — a jar that is up to date is left alone, any other is made.
* `Resolver.refresh_of_published`, `Resolver.published_of_refresh` — what is published is left alone,
  and what was found is published.
* `Resolver.sideEnvironment_eq` — the environment of a side is that of its inputs, refreshed.
* `Resolver.frame_sideInputs`, `Resolver.frame_makeSide`, `Resolver.frame_joinedEnvironment`,
  `Resolver.frame_modifiedEnvironment` — the footprints of the stages.
-/

namespace Jarsmith.Resolver

open Running Store

variable {r : Resolver} {env env' : Environment} {inputs upToDate : Bool} {make : Action Unit}
  {w w' : World} {s t : Store} {touched dropped : List String → Prop}

/-- The jar of an environment and the module descriptor beside it are there. -/
structure Published (env : Environment) (s : Store) : Prop where
  jar : s.isFile env.jar = true
  metadata : ∃ directory, Path.parent? env.jar = some directory ∧
    s.isFile (Ivy.path directory env.version.id) = true

theorem Published.within (h : Published env s) (hWithin : Within touched dropped s t)
    (hJar : ¬ dropped (placeOf env.jar)) (hMetadata : ∀ p, HasSuffix "-vg2.xml" p → ¬ dropped p) :
    Published env t where
  jar := hWithin.isFile hJar h.jar
  metadata := let ⟨directory, hParent, hFile⟩ := h.metadata
    ⟨directory, hParent, hWithin.isFile (hMetadata _ hasSuffix_ivyPath) hFile⟩

/-- Behind a staged write its target is there. -/
theorem isFile_of_writeAtomically {α : Type} {a : α} {target : String}
    {make : String → FileAction α} (hMake : ∀ staged, FileAction.ChangesOnly staged (make staged))
    (h : (FileAction.writeAtomically target make).run.run s = (.ok a, t)) :
    t.isFile target = true := by
  obtain ⟨_, _, _, place, content, -, -, -, hLocate, hNode, -⟩ :=
    FileAction.writeAtomically_eq_ok (fun _ => hMake _) h
  exact isFile_of_content (content_eq_ok.2 ⟨place, hLocate, hNode⟩)

/-- A module descriptor that is there is left alone. -/
theorem writeMetadata_of_published (h : Published env s) :
    (writeMetadata env true).run.run s = (.ok (), s) := by
  obtain ⟨directory, hParent, hFile⟩ := h.metadata
  have hThere : (FileAction.isFile (Ivy.path directory env.version.id)).run.run s =
      (.ok true, s) := by rw [← hFile]; rfl
  have hWrite : (Ivy.writeIfNecessary directory env.artifact env.version env.dependencies
      true).run.run s = (.ok false, s) := by
    unfold Ivy.writeIfNecessary
    exact (bind_of_ok hThere).2 (pure_iff.2 ⟨rfl, rfl⟩)
  rw [writeMetadata, hParent]
  exact during_ok_iff.2 ((bind_of_ok hWrite).2 (pure_iff.2 ⟨rfl, rfl⟩))

/-- Behind metadata that was written, the module descriptor is there. -/
theorem published_of_writeMetadata {directory : String} (hProper : s.IsProper)
    (hParent : Path.parent? env.jar = some directory) (hJar : s.isFile env.jar = true)
    (h : (writeMetadata env upToDate).run.run s = (.ok (), t)) : Published env t := by
  have hWithin := frame_writeMetadata.run h hProper
  refine ⟨hWithin.isFile id hJar, directory, hParent, ?_⟩
  rw [writeMetadata, hParent] at h
  obtain ⟨wrote, _, hWrite, h⟩ := bind_ok_iff.1 (during_ok_iff.1 h)
  obtain ⟨-, rfl⟩ := pure_iff.1 h
  unfold Ivy.writeIfNecessary at hWrite
  have hThere : (FileAction.isFile (Ivy.path directory env.version.id)).run.run s =
      (.ok (s.isFile (Ivy.path directory env.version.id)), s) := rfl
  rw [bind_of_ok hThere] at hWrite
  split at hWrite
  · rename_i hUpToDate
    obtain ⟨-, rfl⟩ := pure_iff.1 hWrite
    exact (Bool.and_eq_true_iff.1 hUpToDate).2
  · obtain ⟨_, _, hStaged, h⟩ := bind_ok_iff.1 hWrite
    obtain ⟨-, rfl⟩ := pure_iff.1 h
    exact isFile_of_writeAtomically (fun _ => FileAction.ChangesOnly.write) hStaged

/-- **When a jar is made**: one that is there is left alone if its inputs are up to date and nothing
is forced; any other is made. The metadata is written behind it. -/
theorem run_refresh {q : Result (Lookup Environment)}
    (h : (r.refresh env inputs make).run.run w = (q, w')) :
    (r.forceRefresh = false ∧ inputs = true ∧ w.store.isFile env.jar = true ∧
      ∃ d t, (writeMetadata env true).run.run w.store = (d, t) ∧ { w with store := t } = w' ∧
        (d.map fun _ => .found env true) = q) ∨
    (∃ e, make.run.run w = (.error e, w') ∧ .error e = q) ∨
      ∃ w₁ d t, make.run.run w = (.ok (), w₁) ∧
        (writeMetadata env false).run.run w₁.store = (d, t) ∧ { w₁ with store := t } = w' ∧
          (d.map fun _ => .found env false) = q := by
  rw [refresh, Downloader.bind_isFile] at h
  have hRest : ∀ {upToDate w₁}, ((liftM (writeMetadata env upToDate) : Action Unit) >>= fun _ =>
      pure (.found env upToDate)).run.run w₁ = (q, w') → ∃ d t,
        (writeMetadata env upToDate).run.run w₁.store = (d, t) ∧ { w₁ with store := t } = w' ∧
          (d.map fun _ => .found env upToDate) = q := by
    intro upToDate w₁ h
    obtain ⟨e, hWrite, hq⟩ | ⟨_, _, hWrite, h⟩ := bind_iff.1 h
    · obtain ⟨t, hRun, rfl⟩ := files_iff.1 hWrite
      exact ⟨_, t, hRun, rfl, hq⟩
    · obtain ⟨t, hRun, rfl⟩ := files_iff.1 hWrite
      obtain ⟨hq, rfl⟩ := pure_iff.1 h
      exact ⟨_, t, hRun, rfl, hq⟩
  cases hUpToDate : !r.forceRefresh && inputs && w.store.isFile env.jar with
  | true =>
    rw [hUpToDate] at h
    simp only [Bool.and_eq_true, Bool.not_eq_true'] at hUpToDate
    exact .inl ⟨hUpToDate.1.1, hUpToDate.1.2, hUpToDate.2, hRest h⟩
  | false =>
    rw [hUpToDate] at h
    obtain ⟨e, hMake, hq⟩ | ⟨_, w₁, hMake, h⟩ := bind_iff.1 h
    · exact .inr (.inl ⟨e, hMake, hq⟩)
    · obtain ⟨d, t, hWrite, hw, hq⟩ := hRest h
      exact .inr (.inr ⟨w₁, d, t, hMake, hWrite, hw, hq⟩)

/-- Refreshing finds the environment that is refreshed. -/
theorem env_of_refresh
    (h : (r.refresh env inputs make).run.run w = (.ok (.found env' upToDate), w')) : env = env' := by
  obtain ⟨-, -, -, d, t, -, -, hq⟩ | ⟨_, -, hq⟩ | ⟨w₁, d, t, -, -, -, hq⟩ := run_refresh h
  · cases d <;> cases hq
    rfl
  · cases hq
  · cases d <;> cases hq
    rfl

/-- What is up to date had inputs that are, and at most its metadata is written. -/
theorem frame_refresh_upToDate
    (h : (r.refresh env inputs make).run.run w = (.ok (.found env' true), w')) :
    inputs = true ∧ World.Frame (HasSuffix "-vg2.xml") (fun _ => False) w w' := by
  obtain ⟨-, hInputs, -, d, t, hWrite, rfl, -⟩ | ⟨_, -, hq⟩ | ⟨w₁, d, t, -, -, -, hq⟩ :=
    run_refresh h
  · exact ⟨hInputs, rfl, frame_writeMetadata.run hWrite⟩
  · cases hq
  · cases d <;> cases hq

theorem refresh_of_published (hForce : r.forceRefresh = false) (h : Published env w.store) :
    (r.refresh env true make).run.run w = (.ok (.found env true), w) := by
  rw [refresh, Downloader.bind_isFile, hForce, h.jar]
  exact (bind_of_ok (files_iff.2 ⟨_, writeMetadata_of_published h, rfl⟩)).2 (pure_iff.2 ⟨rfl, rfl⟩)

/-- What refreshing touches besides what making touches. -/
theorem frame_refresh (hMake : Respects (World.Frame touched dropped) make)
    (hMetadata : ∀ p, HasSuffix "-vg2.xml" p → touched p) :
    Respects (World.Frame touched dropped) (r.refresh env inputs make) := by
  have hWrite : ∀ upToDate, Respects (World.Frame touched dropped)
      (liftM (writeMetadata env upToDate) : Action Unit) := fun upToDate =>
    (frame_writeMetadata.imp fun h => Store.Frame.mono h hMetadata nofun).files
  unfold refresh
  refine .bind FileAction.frame_isFile.files fun there => ?_
  cases !r.forceRefresh && inputs && there with
  | true => exact (hWrite _).bind fun _ => .pure
  | false => exact hMake.bind fun _ => (hWrite _).bind fun _ => .pure

/-- **What was found is published.** -/
theorem published_of_refresh {directory : String} (hProper : w.store.IsProper)
    (hParent : Path.parent? env.jar = some directory)
    (hMake : ∀ {w₁}, make.run.run w = (.ok (), w₁) →
      w₁.store.IsProper ∧ w₁.store.isFile env.jar = true)
    (h : (r.refresh env inputs make).run.run w = (.ok (.found env' upToDate), w')) :
    env' = env ∧ Published env' w'.store := by
  obtain ⟨-, -, hJar, d, t, hWrite, rfl, hq⟩ | ⟨_, -, hq⟩ | ⟨w₁, d, t, hRun, hWrite, rfl, hq⟩ :=
    run_refresh h
  · cases d with
    | error e => cases hq
    | ok _ =>
      cases hq
      exact ⟨rfl, published_of_writeMetadata hProper hParent hJar hWrite⟩
  · cases hq
  · cases d with
    | error e => cases hq
    | ok _ =>
      cases hq
      obtain ⟨hProper₁, hJar⟩ := hMake hRun
      exact ⟨rfl, published_of_writeMetadata hProper₁ hParent hJar hWrite⟩

end Jarsmith.Resolver

namespace Jarsmith.Resolver

open Downloader Running Store

variable {r : Resolver} {p p' : Platform} {side : Side} {root root' version version' : String}
  {artifact artifact' downloaded : String} {bundle : Option Bundle} {env client server : Environment}
  {modifiers : List Modifier} {s s' : VersionState} {w w' : World} {upToDate inputs : Bool}

-- ---------------------------------------------------------------------------
-- Inputs of a side
-- ---------------------------------------------------------------------------

/-- What the jar of a side is made from. -/
structure SideInputs where
  env : Environment
  downloaded : String
  bundle : Option Bundle

/-- The inputs of a side of a version with a descriptor, and whether the download was there. -/
def inputsOf (r : Resolver) (p : Platform) (side : Side) (version : String)
    (v : VersionDescriptor) : VersionAction (Lookup SideInputs) := do
  let some download := v.download? side.jarDownload | pure .notFound
  let .found downloaded upToDate ←
      during p.id "download jar"
        (r.downloader.downloadValid download.url (downloadPath p version) .sha1 download.sha1)
    | pure .notFound
  let bundle ← during p.id "read bundler metadata" (Bundle.read downloaded)
  let dependencies ← liftExcept (side.dependencies v bundle)
  pure (.found
    ⟨⟨p.id, p, artifactPath r.sharedRoot p.id version, dependencies, v⟩, downloaded, bundle⟩ upToDate)

/-- The inputs of a side. -/
def sideInputs (r : Resolver) (p : Platform) (side : Side) (version : String) :
    VersionAction (Lookup SideInputs) := do
  let .found v _ ← during p.id "resolve version" (r.repository.descriptor version)
    | pure .notFound
  r.inputsOf p side version v

/-- Makes the jar of a side anew. -/
def makeSide (p : Platform) (side : Side) (version : String) (inputs : SideInputs) :
    Action Unit := do
  deleteDerived p version inputs.env.jar
  during p.id "transform jar"
    (makeSideJar side inputs.downloaded inputs.env.jar inputs.bundle)

/-- Makes the joined jar anew. -/
def makeJoined (version client server jar : String) : Action Unit := do
  deleteDerived .joined version jar
  let _ ← during Platform.joined.id "merge jars" (Jar.merge client server jar)

/-- The joined environment of those of the sides. -/
def joinedFrom (r : Resolver) (version : String) (client server : Environment) : Environment :=
  ⟨Platform.joined.id, .joined, artifactPath r.sharedRoot Platform.joined.id version,
    MavenCoordinate.sorted (client.dependencies ++ server.dependencies), client.version⟩

theorem joinedFrom_jar {client server : Environment} :
    (r.joinedFrom version client server).jar =
      artifactPath r.sharedRoot Platform.joined.id version := by rw [joinedFrom]

theorem joinedEnvironment_found {client server : Environment} {ours theirs : Bool} :
    r.joinedEnvironment version (.found client ours) (.found server theirs) =
      r.refresh (r.joinedFrom version client server) (ours && theirs)
        (makeJoined version client.jar server.jar
          (artifactPath r.sharedRoot Platform.joined.id version)) := by
  simp only [joinedEnvironment, joinedFrom, makeJoined]

/-- The root below which what modifiers make is put. -/
def rootFor (r : Resolver) (modifiers : List Modifier) : String :=
  if Modifier.areLocal modifiers then r.localRoot else r.sharedRoot

/-- The environment with the name `artifact` that modifiers make of that of a platform. -/
def modifiedFrom (r : Resolver) (artifact version : String) (modifiers : List Modifier)
    (base : Environment) : Environment :=
  { base with artifact := artifact, jar := artifactPath (r.rootFor modifiers) artifact version }

theorem modifiedFrom_jar {base : Environment} :
    (r.modifiedFrom artifact version modifiers base).jar =
      artifactPath (r.rootFor modifiers) artifact version := by rw [modifiedFrom]

/-- The stages of each of some modifiers for the environment of a platform. -/
def prepare (r : Resolver) (artifact : String) (modifiers : List Modifier) (base : Environment) :
    Action (List (List Transformer)) :=
  modifiers.mapM fun m => during artifact "prepare modifier" (m.transformers r.downloader base)

/-- Makes the jar of an artifact anew by modifiers. -/
def makeModified (r : Resolver) (artifact : String) (modifiers : List Modifier) (base : Environment)
    (jar : String) : Action Unit := do
  let stages ← r.prepare artifact modifiers base
  let _ ← during artifact "transform jar" (Jar.transform base.jar jar stages.flatten)

theorem modifiedEnvironment_found {base : Environment} :
    r.modifiedEnvironment artifact version modifiers (.found base upToDate) =
      r.refresh (r.modifiedFrom artifact version modifiers base) upToDate
        (r.makeModified artifact modifiers base
          (artifactPath (r.rootFor modifiers) artifact version)) := by
  simp only [modifiedEnvironment, modifiedFrom, makeModified, rootFor, prepare]

/-- The environment of a side is that of its inputs, refreshed. -/
theorem sideEnvironment_eq : r.sideEnvironment p side version = (do
    match ← r.sideInputs p side version with
    | .notFound => pure .notFound
    | .found inputs upToDate =>
      r.refresh inputs.env upToDate (makeSide p side version inputs)) := by
  unfold sideEnvironment sideInputs
  rw [bind_assoc]
  refine bind_congr fun found => ?_
  rcases found with _ | ⟨v, wasThere⟩
  · rfl
  dsimp only
  unfold inputsOf
  cases v.download? side.jarDownload with
  | none => rfl
  | some download =>
    dsimp only
    rw [bind_assoc]
    refine bind_congr fun fetched => ?_
    rcases fetched with _ | ⟨downloaded, upToDate⟩
    · rfl
    · simp only [bind_assoc, pure_bind]
      rfl

/-- What the jar at a path says about itself. -/
def BundleAt (st : Store) (path : String) (bundle : Option Bundle) : Prop :=
  ∃ content entries, st.content path = .ok content ∧ content.entries? = some entries ∧
    Bundle.ofEntries path entries = .ok bundle

/-- Reading what a jar says about itself changes nothing. -/
theorem run_bundle {path : String} {st t : Store} :
    (Bundle.read path).run.run st = (.ok bundle, t) ↔ t = st ∧ BundleAt st path bundle := by
  constructor
  · intro h
    obtain ⟨entries, _, hEntries, h⟩ := bind_ok_iff.1 h
    obtain ⟨hBundle, rfl⟩ := FileAction.run_lift.1 h
    obtain ⟨rfl, hFound⟩ := FileAction.run_entries hEntries
    have hFound := hFound entries rfl
    unfold Store.entriesAt? at hFound
    split at hFound
    · rename_i content hContent
      exact ⟨rfl, content, entries, hContent, hFound, hBundle⟩
    · cases hFound
  · rintro ⟨rfl, content, entries, hContent, hEntries, hBundle⟩
    have hFound : t.entriesAt? path = some entries := by
      rw [Store.entriesAt?, hContent]
      exact hEntries
    exact (bind_of_ok (FileAction.run_entries_of_entriesAt? hFound)).2
      (FileAction.run_lift.2 ⟨hBundle, rfl⟩)

/-- How the inputs of a side are found. -/
theorem run_inputsOf {v : VersionDescriptor} {inputs : SideInputs}
    (h : (r.inputsOf p side version v).run.run s = (.ok (.found inputs upToDate), s')) :
    ∃ download dependencies w, v.download? side.jarDownload = some download ∧
      (r.downloader.downloadValid download.url (downloadPath p version) .sha1
        download.sha1).run.run s.world = (.ok (.found inputs.downloaded upToDate), w) ∧
      BundleAt w.store inputs.downloaded inputs.bundle ∧
      side.dependencies v inputs.bundle = .ok dependencies ∧
      inputs.env = ⟨p.id, p, artifactPath r.sharedRoot p.id version, dependencies, v⟩ ∧
      { s with world := w } = s' := by
  unfold inputsOf at h
  split at h
  · rename_i download hDownload
    obtain ⟨fetched, _, hFirst, h⟩ := bind_ok_iff.1 h
    obtain ⟨w, hFetch, rfl⟩ := world_iff.1 (during_ok_iff.1 hFirst)
    rcases fetched with _ | ⟨downloaded, wasThere⟩
    · cases (pure_iff.1 h).1
    obtain ⟨bundle, _, hStep, h⟩ := bind_ok_iff.1 h
    obtain ⟨_, hLifted, rfl⟩ := world_iff.1 (during_ok_iff.1 hStep)
    obtain ⟨_, hRead, rfl⟩ := files_iff.1 hLifted
    obtain ⟨rfl, hBundle⟩ := run_bundle.1 hRead
    obtain ⟨dependencies, _, hLift, h⟩ := bind_ok_iff.1 h
    obtain ⟨hDependencies, rfl⟩ := liftExcept_iff.1 hLift
    obtain ⟨hFound, rfl⟩ := pure_iff.1 h
    cases hFound
    exact ⟨download, dependencies, w, hDownload, hFetch, hBundle, hDependencies, rfl, rfl⟩
  · cases (pure_iff.1 h).1

theorem run_sideInputs {inputs : SideInputs}
    (h : (r.sideInputs p side version).run.run s = (.ok (.found inputs upToDate), s')) :
    ∃ v wasThere s₁, (r.repository.descriptor version).run.run s = (.ok (.found v wasThere), s₁) ∧
      (r.inputsOf p side version v).run.run s₁ = (.ok (.found inputs upToDate), s') := by
  obtain ⟨found, s₁, hDescriptor, h⟩ := bind_ok_iff.1 h
  rcases found with _ | ⟨v, wasThere⟩
  · cases (pure_iff.1 h).1
  · exact ⟨v, wasThere, s₁, during_ok_iff.1 hDescriptor, h⟩

/-- The jar of a side has its place. -/
theorem jar_of_sideInputs {inputs : SideInputs}
    (h : (r.sideInputs p side version).run.run s = (.ok (.found inputs upToDate), s')) :
    inputs.env.jar = artifactPath r.sharedRoot p.id version := by
  obtain ⟨v, _, s₁, -, h⟩ := run_sideInputs h
  obtain ⟨download, dependencies, w, -, -, -, -, hEnv, -⟩ := run_inputsOf h
  rw [hEnv]

/-- What the inputs of a side are, when they are found. -/
theorem found_sideInputs {inputs : SideInputs} (hCareful : r.downloader.Careful)
    (h : (r.sideInputs p side version).run.run s = (.ok (.found inputs upToDate), s')) :
    inputs.downloaded = Path.join r.sharedRoot (downloadPath p version) ∧
      BundleAt s'.world.store inputs.downloaded inputs.bundle ∧
      ∃ download, inputs.env.version.download? side.jarDownload = some download ∧
        HasDigest s'.world.store inputs.downloaded .sha1 download.sha1 := by
  obtain ⟨v, _, s₁, -, h⟩ := run_sideInputs h
  obtain ⟨download, dependencies, w, hDownload, hFetch, hBundle, -, hEnv, rfl⟩ := run_inputsOf h
  obtain ⟨hPath, hDigest⟩ := hCareful.valid_of_fetchValid hFetch
  exact ⟨hPath, hBundle, download, by rw [hEnv, hDownload], hPath ▸ hDigest⟩

/-- Whether an environment comes out. -/
def Finds (q : Result (Lookup Environment)) : Prop := ∃ env upToDate, q = .ok (.found env upToDate)

/-- How the environment of a side comes about: its inputs are not found, or its jar is refreshed. -/
theorem run_sideEnvironment {q : Result (Lookup Environment)}
    (h : (r.sideEnvironment p side version).run.run s = (q, s')) :
    (∃ q', (r.sideInputs p side version).run.run s = (q', s') ∧ ¬ Finds q) ∨
      ∃ inputs wasThere s₁ w,
        (r.sideInputs p side version).run.run s = (.ok (.found inputs wasThere), s₁) ∧
        (r.refresh inputs.env wasThere (makeSide p side version inputs)).run.run s₁.world = (q, w) ∧
        { s₁ with world := w } = s' := by
  rw [sideEnvironment_eq] at h
  obtain ⟨e, hFails, rfl⟩ | ⟨found, s₁, hFound, h⟩ := bind_iff.1 h
  · exact .inl ⟨_, hFails, fun ⟨_, _, hq⟩ => nomatch hq⟩
  rcases found with _ | ⟨inputs, wasThere⟩
  · obtain ⟨rfl, rfl⟩ := pure_iff.1 h
    exact .inl ⟨_, hFound, fun ⟨_, _, hq⟩ => nomatch hq⟩
  · obtain ⟨w, hRefresh, rfl⟩ := world_iff.1 h
    exact .inr ⟨inputs, wasThere, s₁, w, hFound, hRefresh, rfl⟩

-- ---------------------------------------------------------------------------
-- Footprints of the stages
-- ---------------------------------------------------------------------------

/-- The places of what the jar of a side is made from. -/
def inputOf (root : String) (p : Platform) (version : String) (q : List String) : Prop :=
  VersionRepository.isDocument root version q ∨ q = downloadPlace root p version

/-- The places that are touched when the jar of a platform is made. -/
def madeFor (root : String) (p : Platform) (version : String) (q : List String) : Prop :=
  q = jarPlace root p.id version ∨ derivedFrom root p version q ∨ HasSuffix ".tmp" q ∨
    HasSuffix "-vg2.xml" q

/-- The places at which files are deleted when the jar of a platform is made. -/
def clearedFor (root : String) (p : Platform) (version : String) (q : List String) : Prop :=
  derivedFrom root p version q ∨ HasSuffix ".tmp" q

/-- The places that are touched when the jar of an artifact is made by modifiers. -/
def modifiedAs (root artifact version : String) (q : List String) : Prop :=
  q = jarPlace root artifact version ∨ HasSuffix "-vg2.xml" q ∨ HasSuffix "-mappings.txt" q

theorem frame_bundle {touched dropped : List String → Prop} {path : String} :
    Respects (Store.Frame touched dropped) (Bundle.read path) :=
  FileAction.frame_entries.bind fun _ => FileAction.frame_lift

theorem frame_inputsOf (hCareful : r.downloader.Careful) (hVersion : Path.IsPlain version)
    {v : VersionDescriptor} : Respects (VersionState.Frame (· = downloadPlace r.sharedRoot p version)
      (· = downloadPlace r.sharedRoot p version)) (r.inputsOf p side version v) := by
  have hDownload : ∀ q, q = placeOf (Path.join r.downloader.root (downloadPath p version)) →
      q = downloadPlace r.sharedRoot p version := fun q hq => hq.trans (placeOf_downloadPath hVersion)
  unfold inputsOf
  cases v.download? side.jarDownload with
  | none => exact .pure
  | some download =>
    refine .bind (((hCareful.frame_fetchValid _ _ _ _).imp fun h =>
      h.mono hDownload hDownload).world.during) fun fetched => ?_
    rcases fetched with _ | ⟨downloaded, upToDate⟩
    · exact .pure
    · exact .bind frame_bundle.files.world.during fun _ => .bind .liftExcept fun _ => .pure

theorem frame_sideInputs (hCareful : r.downloader.Careful) (hVersion : Path.IsPlain version) :
    Respects (VersionState.Frame (inputOf r.sharedRoot p version) (inputOf r.sharedRoot p version))
      (r.sideInputs p side version) := by
  have hDescriptor := VersionRepository.frame_descriptor (r := r.repository) hCareful hVersion
  refine .bind (hDescriptor.during.imp fun h => h.mono (fun _ => .inl) fun _ => .inl) fun found => ?_
  rcases found with _ | ⟨v, wasThere⟩
  · exact .pure
  · exact (frame_inputsOf hCareful hVersion).imp fun h => h.mono (fun _ => .inr) fun _ => .inr

/-- Inputs that are up to date were there; at most documents are fetched. -/
theorem frame_sideInputs_upToDate {inputs : SideInputs} (hCareful : r.downloader.Careful)
    (hVersion : Path.IsPlain version)
    (h : (r.sideInputs p side version).run.run s = (.ok (.found inputs true), s')) :
    VersionState.Frame (VersionRepository.isDocument r.sharedRoot version)
      (VersionRepository.isDocument r.sharedRoot version) s s' := by
  obtain ⟨v, _, s₁, hDescriptor, h⟩ := run_sideInputs h
  obtain ⟨download, dependencies, w, -, hFetch, -, -, -, rfl⟩ := run_inputsOf h
  obtain rfl := hCareful.eq_of_upToDate hFetch
  exact (VersionRepository.frame_descriptor (r := r.repository) hCareful hVersion).run hDescriptor

theorem frame_deleteDerived_made (hVersion : Path.IsPlain version) :
    Respects (World.Frame (madeFor root p version) (clearedFor root p version))
      (liftM (deleteDerived p version (artifactPath root p.id version)) : Action Unit) :=
  .files ((frame_deleteDerived hVersion).imp
    fun h => h.mono (fun _ hq => .inr (.inl hq)) fun _ => .inl)

theorem frame_makeSide {inputs : SideInputs} (hVersion : Path.IsPlain version)
    (hJar : inputs.env.jar = artifactPath root p.id version) :
    Respects (World.Frame (madeFor root p version) (clearedFor root p version))
      (makeSide p side version inputs) := by
  have hPlace : placeOf inputs.env.jar = jarPlace root p.id version :=
    hJar ▸ placeOf_artifactPath isPlain_id hVersion
  refine .bind (hJar ▸ frame_deleteDerived_made hVersion) fun _ => .during (.files ?_)
  refine frame_makeSideJar.imp fun h => h.mono ?_ fun _ => .inr
  exact fun _ hq => hq.imp (fun h => h.trans hPlace) fun h => .inr (.inl h)

theorem frame_makeJoined {client server : String} (hVersion : Path.IsPlain version) :
    Respects (World.Frame (madeFor root .joined version) (clearedFor root .joined version))
      (makeJoined version client server (artifactPath root Platform.joined.id version)) := by
  refine .bind (frame_deleteDerived_made hVersion) fun _ =>
    .bind (.during (.files (frame_merge.imp fun h => h.mono ?_ nofun))) fun _ => .pure
  exact fun _ hq => .inl (hq.trans (placeOf_artifactPath isPlain_id hVersion))

theorem frame_joinedEnvironment (hVersion : Path.IsPlain version)
    {client server : Lookup Environment} :
    Respects (World.Frame (madeFor r.sharedRoot .joined version)
      (clearedFor r.sharedRoot .joined version)) (r.joinedEnvironment version client server) := by
  rcases client with _ | ⟨client, clientUpToDate⟩
  · exact .pure
  rcases server with _ | ⟨server, serverUpToDate⟩
  · exact .pure
  · rw [joinedEnvironment_found]
    exact frame_refresh (frame_makeJoined hVersion) fun _ hq => .inr (.inr (.inr hq))

theorem frame_prepare (hCareful : r.downloader.Careful)
    (hConsiderate : ∀ m ∈ modifiers, m.Considerate) {base : Environment} :
    Respects (World.Frame (HasSuffix "-mappings.txt") (HasSuffix "-mappings.txt"))
      (r.prepare artifact modifiers base) :=
  .mapM fun m hMem => ((hConsiderate m hMem).transformers hCareful base).during

theorem frame_makeModified (hCareful : r.downloader.Careful)
    (hConsiderate : ∀ m ∈ modifiers, m.Considerate) (hArtifact : Path.IsPlain artifact)
    (hVersion : Path.IsPlain version) {base : Environment} :
    Respects (World.Frame (modifiedAs root artifact version) (HasSuffix "-mappings.txt"))
      (r.makeModified artifact modifiers base (artifactPath root artifact version)) := by
  refine .bind ((frame_prepare hCareful hConsiderate).imp fun h =>
    h.mono (fun _ hq => .inr (.inr hq)) fun _ => id) fun stages => ?_
  refine .bind (.during (.files (frame_transform.imp fun h => h.mono ?_ nofun))) fun _ => .pure
  exact fun _ hq => .inl (hq.trans (placeOf_artifactPath hArtifact hVersion))

theorem frame_modifiedEnvironment (hCareful : r.downloader.Careful)
    (hConsiderate : ∀ m ∈ modifiers, m.Considerate) (hArtifact : Path.IsPlain artifact)
    (hVersion : Path.IsPlain version) {base : Lookup Environment} :
    Respects (World.Frame (modifiedAs (r.rootFor modifiers) artifact version)
      (HasSuffix "-mappings.txt")) (r.modifiedEnvironment artifact version modifiers base) := by
  rcases base with _ | ⟨base, upToDate⟩
  · exact .pure
  · rw [modifiedEnvironment_found]
    exact frame_refresh (frame_makeModified hCareful hConsiderate hArtifact hVersion)
      fun _ hq => .inr (.inl hq)

-- ---------------------------------------------------------------------------
-- Jars among the footprints
-- ---------------------------------------------------------------------------

theorem not_hasSuffix_jarPlace {suffix : String} {c : Char}
    (hLast : suffix.toList.getLast? = some c) (hNe : c ≠ 'r') :
    ¬ HasSuffix suffix (jarPlace root artifact version) :=
  hasSuffix_jarPlace.not_hasSuffix rfl hLast hNe.symm

/-- Making the jar of a platform touches no other jar of an artifact. -/
theorem eq_of_madeFor (h : madeFor root p version (jarPlace root' artifact version')) :
    jarPlace root' artifact version' = jarPlace root p.id version := by
  obtain h | h | h | h := h
  · exact h
  · exact absurd h not_derivedFrom_jarPlace
  · exact absurd h (not_hasSuffix_jarPlace rfl (by decide))
  · exact absurd h (not_hasSuffix_jarPlace rfl (by decide))

/-- No jar of an artifact is deleted when the jar of a platform is made. -/
theorem not_clearedFor_jarPlace : ¬ clearedFor root p version (jarPlace root' artifact version') :=
  fun h => h.elim not_derivedFrom_jarPlace (not_hasSuffix_jarPlace rfl (by decide))

theorem eq_of_modifiedAs (h : modifiedAs root artifact version (jarPlace root' artifact' version')) :
    jarPlace root' artifact' version' = jarPlace root artifact version := by
  obtain h | h | h := h
  · exact h
  · exact absurd h (not_hasSuffix_jarPlace rfl (by decide))
  · exact absurd h (not_hasSuffix_jarPlace rfl (by decide))

theorem not_isDocument_jarPlace :
    ¬ VersionRepository.isDocument root version (jarPlace root' artifact version') := by
  have hManifest : HasSuffix ".json" (manifestPlace root) := hasSuffix_manifestPlace
  have hDescriptor : HasSuffix ".json" (descriptorPlace root version) := hasSuffix_descriptorPlace
  rintro (h | h)
  · exact not_hasSuffix_jarPlace rfl (by decide) (h ▸ hManifest)
  · exact not_hasSuffix_jarPlace rfl (by decide) (h ▸ hDescriptor)

theorem eq_of_inputOf (h : inputOf root p version (jarPlace root' artifact version')) :
    jarPlace root' artifact version' = downloadPlace root p version :=
  h.resolve_left not_isDocument_jarPlace

-- ---------------------------------------------------------------------------
-- What is made
-- ---------------------------------------------------------------------------

/-- A file at a jar of an artifact is still read behind the deletion of jars beside another one. -/
theorem content_of_deleteDerived {path jar : String} {content : Content} {st t : Store}
    (hProper : st.IsProper) (hVersion : Path.IsPlain version)
    (hPlace : placeOf path = jarPlace root' artifact version')
    (hContent : st.content path = .ok content) (hJar : jar = artifactPath root p.id version)
    {q : Result Unit} (h : (deleteDerived p version jar).run.run st = (q, t)) :
    t.IsProper ∧ t.content path = .ok content := by
  subst hJar
  have hWithin := (frame_deleteDerived hVersion).run h hProper
  refine ⟨hWithin.proper, content_of_same hWithin.directories (hWithin.elsewhere _ ?_) hContent⟩
  rw [hPlace]
  exact not_derivedFrom_jarPlace

/-- The jar of a side is made from its download. -/
theorem content_of_makeSide {inputs : SideInputs} {download : Content} (hProper : w.store.IsProper)
    (hVersion : Path.IsPlain version) (hDownload : w.store.content inputs.downloaded = .ok download)
    (hPlace : placeOf inputs.downloaded = downloadPlace root p version)
    (hJar : inputs.env.jar = artifactPath root p.id version)
    (h : (makeSide p side version inputs).run.run w = (.ok (), w')) :
    ∃ entries, madeEntries side inputs.bundle download = some entries ∧
      w'.store.content inputs.env.jar = .ok (System.calm.archive entries) := by
  obtain ⟨_, w₁, hFirst, hSecond⟩ := bind_ok_iff.1 h
  obtain ⟨t, hDelete, rfl⟩ := files_iff.1 hFirst
  obtain ⟨u, hMake, rfl⟩ := files_iff.1 (during_ok_iff.1 hSecond)
  obtain ⟨hProper, hDownload⟩ :=
    content_of_deleteDerived hProper hVersion hPlace hDownload hJar hDelete
  refine content_of_makeSideJar hProper hDownload ?_ ?_ hMake
  · rw [hPlace]
    exact not_hasSuffix_jarPlace rfl (by decide)
  · rw [hJar, placeOf_artifactPath isPlain_id hVersion]
    exact not_hasSuffix_jarPlace rfl (by decide)

/-- A jar of a side that cannot be made stays. -/
theorem fileAt?_of_makeSide {inputs : SideInputs} {e : Error} (hProper : w.store.IsProper)
    (hVersion : Path.IsPlain version) (hJar : inputs.env.jar = artifactPath root p.id version)
    (h : (makeSide p side version inputs).run.run w = (.error e, w')) :
    w'.store.fileAt? (jarPlace root p.id version) = w.store.fileAt? (jarPlace root p.id version) := by
  have hDeleted : ∀ {q : Result Unit} {t}, (deleteDerived p version inputs.env.jar).run.run w.store =
      (q, t) → t.IsProper ∧
        t.fileAt? (jarPlace root p.id version) = w.store.fileAt? (jarPlace root p.id version) := by
    intro q t hDelete
    have hWithin := (frame_deleteDerived hVersion).run (hJar ▸ hDelete) hProper
    exact ⟨hWithin.proper, hWithin.elsewhere _ not_derivedFrom_jarPlace⟩
  obtain ⟨e, hFirst, -⟩ | ⟨_, w₁, hFirst, hSecond⟩ := bind_iff.1 h
  · obtain ⟨t, hDelete, rfl⟩ := files_iff.1 hFirst
    exact (hDeleted hDelete).2
  · obtain ⟨t, hDelete, rfl⟩ := files_iff.1 hFirst
    obtain ⟨q, hLifted, hq⟩ := during_iff.1 hSecond
    obtain ⟨u, hMake, rfl⟩ := files_iff.1 hLifted
    obtain ⟨hProper₁, hSame⟩ := hDeleted hDelete
    have hPlace : placeOf inputs.env.jar = jarPlace root p.id version :=
      hJar ▸ placeOf_artifactPath isPlain_id hVersion
    cases q with
    | ok _ => cases hq
    | error e =>
      have hStays := fileAt?_of_makeSideJar hProper₁
        (hPlace ▸ not_hasSuffix_jarPlace rfl (by decide)) hMake
      rw [hPlace] at hStays
      exact hStays.trans hSame

/-- The joined jar is made from the jars of the sides. -/
theorem content_of_makeJoined {client server : String} {ours theirs : Content}
    (hProper : w.store.IsProper) (hVersion : Path.IsPlain version)
    (hClient : w.store.content client = .ok ours) (hServer : w.store.content server = .ok theirs)
    (hClientPlace : placeOf client = jarPlace root' artifact version')
    (hServerPlace : placeOf server = jarPlace root' artifact' version')
    (h : (makeJoined version client server
      (artifactPath root Platform.joined.id version)).run.run w = (.ok (), w')) :
    ∃ first second entries, ours.entries? = some first ∧ theirs.entries? = some second ∧
      Jar.mergeEntries client first second = .ok entries ∧
      w'.store.content (artifactPath root Platform.joined.id version) =
        .ok (System.calm.archive entries) := by
  obtain ⟨_, w₁, hFirst, hRest⟩ := bind_ok_iff.1 h
  obtain ⟨t, hDelete, rfl⟩ := files_iff.1 hFirst
  obtain ⟨counts, w₂, hSecond, hEnd⟩ := bind_ok_iff.1 hRest
  obtain ⟨-, rfl⟩ := pure_iff.1 hEnd
  obtain ⟨u, hMerge, rfl⟩ := files_iff.1 (during_ok_iff.1 hSecond)
  obtain ⟨-, hOurs⟩ := content_of_deleteDerived hProper hVersion hClientPlace hClient rfl hDelete
  obtain ⟨-, hTheirs⟩ := content_of_deleteDerived hProper hVersion hServerPlace hServer rfl hDelete
  obtain ⟨place, entries, ⟨first, hFirst, second, hSecond, hEntries, -⟩, hLocate, hNode, -⟩ :=
    Jar.allOrNothing_merge.succeeded hMerge
  rw [Store.entriesAt?, hOurs] at hFirst
  rw [Store.entriesAt?, hTheirs] at hSecond
  exact ⟨first, second, entries, hFirst, hSecond, hEntries,
    content_eq_ok.2 ⟨place, hLocate, hNode⟩⟩

/-- A joined jar that cannot be made stays, as the other jars of artifacts do. -/
theorem fileAt?_of_makeJoined {client server : String} {e : Error} (hProper : w.store.IsProper)
    (hVersion : Path.IsPlain version)
    (h : (makeJoined version client server
      (artifactPath root Platform.joined.id version)).run.run w = (.error e, w')) :
    w'.store.fileAt? (jarPlace root' artifact version') =
      w.store.fileAt? (jarPlace root' artifact version') := by
  have hDeleted : ∀ {q : Result Unit} {t},
      (deleteDerived .joined version (artifactPath root Platform.joined.id version)).run.run w.store =
        (q, t) → t.fileAt? (jarPlace root' artifact version') =
          w.store.fileAt? (jarPlace root' artifact version') := fun hDelete =>
    ((frame_deleteDerived hVersion).run hDelete hProper).elsewhere _ not_derivedFrom_jarPlace
  obtain ⟨e, hFirst, -⟩ | ⟨_, w₁, hFirst, hRest⟩ := bind_iff.1 h
  · obtain ⟨t, hDelete, rfl⟩ := files_iff.1 hFirst
    exact hDeleted hDelete
  obtain ⟨t, hDelete, rfl⟩ := files_iff.1 hFirst
  obtain ⟨e, hSecond, -⟩ | ⟨counts, w₂, hSecond, hEnd⟩ := bind_iff.1 hRest
  · obtain ⟨q, hLifted, hq⟩ := during_iff.1 hSecond
    obtain ⟨u, hMerge, rfl⟩ := files_iff.1 hLifted
    cases q with
    | ok _ => cases hq
    | error e =>
      exact (Jar.allOrNothing_merge.whole System.whole_calm hMerge _).trans (hDeleted hDelete)
  · cases (pure_iff.1 hEnd).1

/-- The jar of an artifact is made from that of a platform, by stages that the modifiers prepare. -/
theorem content_of_makeModified {base : Environment} {jar : String} {content : Content}
    (hCareful : r.downloader.Careful) (hConsiderate : ∀ m ∈ modifiers, m.Considerate)
    (hProper : w.store.IsProper) (hBase : w.store.content base.jar = .ok content)
    (hPlace : placeOf base.jar = jarPlace root' artifact' version')
    (h : (r.makeModified artifact modifiers base jar).run.run w = (.ok (), w')) :
    ∃ stages w₁ entries written,
      (r.prepare artifact modifiers base).run.run w = (.ok stages, w₁) ∧
      content.entries? = some entries ∧
      Jar.transformEntries base.jar stages.flatten entries = .ok written ∧
      w'.store.content jar = .ok (System.calm.archive written) := by
  obtain ⟨stages, w₁, hPrepare, hRest⟩ := bind_ok_iff.1 h
  obtain ⟨count, w₂, hSecond, hEnd⟩ := bind_ok_iff.1 hRest
  obtain ⟨-, rfl⟩ := pure_iff.1 hEnd
  obtain ⟨u, hTransform, rfl⟩ := files_iff.1 (during_ok_iff.1 hSecond)
  have hWithin := ((frame_prepare hCareful hConsiderate).run hPrepare).2 hProper
  have hStill : w₁.store.content base.jar = .ok content := by
    refine content_of_same hWithin.directories (hWithin.elsewhere _ ?_) hBase
    rw [hPlace]
    exact not_hasSuffix_jarPlace rfl (by decide)
  obtain ⟨entries, written, hEntries, hWritten, hFile⟩ :=
    content_of_transform hWithin.proper hStill hTransform
  exact ⟨stages, w₁, entries, written, hPrepare, hEntries, hWritten, hFile⟩

/-- Modifiers that cannot be applied leave all jars of artifacts. -/
theorem fileAt?_of_makeModified {base : Environment} {jar : String} {e : Error}
    (hCareful : r.downloader.Careful) (hConsiderate : ∀ m ∈ modifiers, m.Considerate)
    (hProper : w.store.IsProper)
    (h : (r.makeModified artifact modifiers base jar).run.run w = (.error e, w')) :
    w'.store.fileAt? (jarPlace root' artifact' version') =
      w.store.fileAt? (jarPlace root' artifact' version') := by
  have hPrepared : ∀ {q w₁}, (r.prepare artifact modifiers base).run.run w = (q, w₁) →
      w₁.store.fileAt? (jarPlace root' artifact' version') =
        w.store.fileAt? (jarPlace root' artifact' version') := fun hPrepare =>
    (((frame_prepare hCareful hConsiderate).run hPrepare).2 hProper).elsewhere _
      (not_hasSuffix_jarPlace rfl (by decide))
  obtain ⟨e, hPrepare, -⟩ | ⟨stages, w₁, hPrepare, hRest⟩ := bind_iff.1 h
  · exact hPrepared hPrepare
  obtain ⟨e, hSecond, -⟩ | ⟨count, w₂, hSecond, hEnd⟩ := bind_iff.1 hRest
  · obtain ⟨q, hLifted, hq⟩ := during_iff.1 hSecond
    obtain ⟨u, hTransform, rfl⟩ := files_iff.1 hLifted
    cases q with
    | ok _ => cases hq
    | error e =>
      exact (Jar.allOrNothing_transform.whole System.whole_calm hTransform _).trans
        (hPrepared hPrepare)
  · cases (pure_iff.1 hEnd).1

-- ---------------------------------------------------------------------------
-- What is found
-- ---------------------------------------------------------------------------

/-- The joined environment that is found is published. -/
theorem published_of_joined {ours theirs : Bool} (hProper : w.store.IsProper)
    (hVersion : Path.IsPlain version) (hClient : w.store.isFile client.jar = true)
    (hServer : w.store.isFile server.jar = true)
    (hClientPlace : placeOf client.jar = jarPlace root' artifact version')
    (hServerPlace : placeOf server.jar = jarPlace root' artifact' version')
    (h : (r.joinedEnvironment version (.found client ours) (.found server theirs)).run.run w =
      (.ok (.found env upToDate), w')) :
    env = r.joinedFrom version client server ∧ Published env w'.store := by
  obtain ⟨directory, hParent, -⟩ :=
    exists_parent_artifactPath r.sharedRoot (isPlain_id (p := .joined)) hVersion
  have hParent : Path.parent? (r.joinedFrom version client server).jar = some directory := by
    rw [joinedFrom_jar, hParent]
  rw [joinedEnvironment_found] at h
  obtain ⟨first, hFirst⟩ := exists_content_of_isFile hClient
  obtain ⟨second, hSecond⟩ := exists_content_of_isFile hServer
  refine published_of_refresh hProper hParent (fun {w₁} hMake => ?_) h
  obtain ⟨_, _, _, -, -, -, hFile⟩ :=
    content_of_makeJoined hProper hVersion hFirst hSecond hClientPlace hServerPlace hMake
  rw [joinedFrom_jar]
  exact ⟨(((frame_makeJoined hVersion).run hMake).2 hProper).proper, isFile_of_content hFile⟩

/-- The environment that modifiers make is published when it is found. -/
theorem published_of_modified {base : Environment} (hCareful : r.downloader.Careful)
    (hConsiderate : ∀ m ∈ modifiers, m.Considerate) (hProper : w.store.IsProper)
    (hArtifact : Path.IsPlain artifact) (hVersion : Path.IsPlain version)
    (hBase : w.store.isFile base.jar = true)
    (hPlace : placeOf base.jar = jarPlace root' artifact' version')
    (h : (r.modifiedEnvironment artifact version modifiers (.found base inputs)).run.run w =
      (.ok (.found env upToDate), w')) :
    env = r.modifiedFrom artifact version modifiers base ∧ Published env w'.store := by
  obtain ⟨directory, hParent, -⟩ :=
    exists_parent_artifactPath (r.rootFor modifiers) hArtifact hVersion
  have hParent : Path.parent? (r.modifiedFrom artifact version modifiers base).jar =
      some directory := by
    rw [modifiedFrom_jar, hParent]
  rw [modifiedEnvironment_found] at h
  obtain ⟨content, hContent⟩ := exists_content_of_isFile hBase
  refine published_of_refresh hProper hParent (fun {w₁} hMake => ?_) h
  obtain ⟨_, _, _, _, -, -, -, hFile⟩ :=
    content_of_makeModified hCareful hConsiderate hProper hContent hPlace hMake
  have hFrame := (frame_makeModified hCareful hConsiderate hArtifact hVersion).run hMake
  rw [modifiedFrom_jar]
  exact ⟨(hFrame.2 hProper).proper, isFile_of_content hFile⟩

end Jarsmith.Resolver
