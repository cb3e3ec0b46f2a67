import Jarsmith.Proofs.Resolver.Basis
import Jarsmith.Proofs.Resolver.Cached

/-!
# Asking again

An environment that was found is found again as long as its basis holds, up to date and without any
change of a file.

* `Resolver.FoundSide`, `Resolver.FoundJoined`, `Resolver.Found` — what is in the cache when an
  environment was found.
* `Resolver.Found.frame` — it stays there whatever else is asked.
* `Resolver.Found.run_again` — while it is there, the environment is found up to date.
* `Resolver.found_of_provide` — it is there when the environment was found.
-/

namespace Jarsmith

namespace Resolver

open Downloader Running Store

variable {b : Basis} {r : Resolver} {p : Platform} {side : Side} {env : Environment}
  {version artifact root : String} {modifiers : List Modifier} {w w' : World} {s s' : VersionState}
  {upToDate : Bool} {touched dropped : List String → Prop}

-- ---------------------------------------------------------------------------
-- What was found
-- ---------------------------------------------------------------------------

/-- The environment of a side was found: its jar and module descriptor are in the cache, and its
download says about itself what the dependencies were read from. -/
structure FoundSide (b : Basis) (r : Resolver) (p : Platform) (env : Environment) (s : Store) :
    Prop where
  mem : p ∈ b.platforms
  reads : ∃ side bundle, p.side? = some side ∧
    BundleAt s (Path.join r.sharedRoot (downloadPath p b.version)) bundle ∧
    side.dependencies b.descriptor bundle = .ok env.dependencies
  eq : env = ⟨p.id, p, artifactPath r.sharedRoot p.id b.version, env.dependencies, b.descriptor⟩
  published : Published env s

/-- The joined environment was found. -/
structure FoundJoined (b : Basis) (r : Resolver) (env : Environment) (s : Store) : Prop where
  sides : ∃ client server, FoundSide b r .client client s ∧ FoundSide b r .server server s ∧
    env = r.joinedFrom b.version client server
  published : Published env s

/-- The environment of a platform was found. -/
def FoundBase (b : Basis) (r : Resolver) : Platform → Environment → Store → Prop
  | .joined => FoundJoined b r
  | p => FoundSide b r p

/-- The environment with the name `artifact` was found that modifiers make of that of a platform. -/
structure FoundModified (b : Basis) (r : Resolver) (p : Platform) (modifiers : List Modifier)
    (env : Environment) (s : Store) : Prop where
  base : ∃ base, FoundBase b r p base s ∧
    env = r.modifiedFrom env.artifact b.version modifiers base
  plain : Path.IsPlain env.artifact
  apart : ∀ p, env.artifact ≠ downloadArtifact p
  published : Published env s

/-- The environment of a request was found. -/
def Found (b : Basis) (r : Resolver) (p : Platform) (modifiers : List Modifier) :
    Environment → Store → Prop :=
  if modifiers.isEmpty then FoundBase b r p else FoundModified b r p modifiers

-- ---------------------------------------------------------------------------
-- It stays
-- ---------------------------------------------------------------------------

theorem not_removable_jarPlace (hArtifact : ∀ p, artifact ≠ downloadArtifact p) :
    ¬ Basis.removable (jarPlace root artifact version) := fun h =>
  let ⟨p, hp⟩ := h.2 _ _ _ rfl
  hArtifact p hp

theorem Published.frame (h : Published env w.store) (hProper : w.store.IsProper)
    (hFrame : b.WorldFrame root w w') {root' : String}
    (hJar : env.jar = artifactPath root' artifact b.version) (hPlain : Path.IsPlain artifact)
    (hArtifact : ∀ p, artifact ≠ downloadArtifact p) : Published env w'.store := by
  refine h.within (hFrame.2 hProper) ?_ fun p hXml hRemovable => hRemovable.1 hXml
  rw [hJar, placeOf_artifactPath hPlain b.plain]
  exact not_removable_jarPlace hArtifact

theorem BundleAt.frame {path : String} {bundle : Option Bundle} (h : BundleAt w.store path bundle)
    (hProper : w.store.IsProper) (hFrame : b.WorldFrame root w w')
    (hPath : b.protects root (placeOf path)) : BundleAt w'.store path bundle :=
  have hWithin := hFrame.2 hProper
  let ⟨content, entries, hContent, hEntries, hBundle⟩ := h
  ⟨content, entries, content_of_same hWithin.directories
    (hWithin.elsewhere _ fun hNot => hNot hPath) hContent, hEntries, hBundle⟩

theorem FoundSide.jar {st : Store} (h : FoundSide b r p env st) :
    env.jar = artifactPath r.sharedRoot p.id b.version := by
  rw [h.eq]

/-- The place of the jar of a side. -/
theorem FoundSide.place {st : Store} (h : FoundSide b r p env st) :
    placeOf env.jar = jarPlace r.sharedRoot p.id b.version := by
  rw [h.jar]
  exact placeOf_artifactPath isPlain_id b.plain

theorem FoundSide.frame (h : FoundSide b r p env w.store) (hProper : w.store.IsProper)
    (hFrame : b.WorldFrame r.sharedRoot w w') : FoundSide b r p env w'.store where
  mem := h.mem
  eq := h.eq
  published := h.published.frame hProper hFrame h.jar isPlain_id
    fun _ => downloadArtifact_ne_id.symm
  reads := by
    obtain ⟨side, bundle, hSide, hBundle, hDependencies⟩ := h.reads
    exact ⟨side, bundle, hSide, hBundle.frame hProper hFrame
      (.inr ⟨p, h.mem, placeOf_downloadPath b.plain⟩), hDependencies⟩

theorem FoundJoined.frame (h : FoundJoined b r env w.store) (hProper : w.store.IsProper)
    (hFrame : b.WorldFrame r.sharedRoot w w') : FoundJoined b r env w'.store := by
  obtain ⟨client, server, hClient, hServer, hEnv⟩ := h.sides
  refine ⟨⟨client, server, hClient.frame hProper hFrame, hServer.frame hProper hFrame, hEnv⟩, ?_⟩
  exact h.published.frame hProper hFrame (hEnv ▸ joinedFrom_jar) isPlain_id
    fun _ => downloadArtifact_ne_id.symm

theorem FoundBase.frame (h : FoundBase b r p env w.store) (hProper : w.store.IsProper)
    (hFrame : b.WorldFrame r.sharedRoot w w') : FoundBase b r p env w'.store := by
  cases p with
  | client => exact FoundSide.frame h hProper hFrame
  | server => exact FoundSide.frame h hProper hFrame
  | joined => exact FoundJoined.frame h hProper hFrame

theorem FoundModified.frame (h : FoundModified b r p modifiers env w.store)
    (hProper : w.store.IsProper) (hFrame : b.WorldFrame r.sharedRoot w w') :
    FoundModified b r p modifiers env w'.store := by
  obtain ⟨base, hBase, hEnv⟩ := h.base
  exact ⟨⟨base, hBase.frame hProper hFrame, hEnv⟩, h.plain, h.apart,
    h.published.frame hProper hFrame ((congrArg Environment.jar hEnv).trans modifiedFrom_jar)
      h.plain h.apart⟩

/-- **What was found stays** behind anything that keeps its basis. -/
theorem Found.frame (h : Found b r p modifiers env w.store) (hProper : w.store.IsProper)
    (hFrame : b.WorldFrame r.sharedRoot w w') : Found b r p modifiers env w'.store := by
  unfold Found at h ⊢
  split
  · rename_i hEmpty
    rw [if_pos hEmpty] at h
    exact h.frame hProper hFrame
  · rename_i hSome
    rw [if_neg hSome] at h
    exact h.frame hProper hFrame

-- ---------------------------------------------------------------------------
-- It is found again
-- ---------------------------------------------------------------------------

theorem FoundSide.run_again (hSteady : r.downloader.Steady) (hForce : r.forceRefresh = false)
    (hHolds : b.Holds r s) (h : FoundSide b r p env s.world.store) (hSide : p.side? = some side) :
    ∃ s', (r.sideEnvironment p side b.version).run.run s = (.ok (.found env true), s') ∧
      b.Idle s s' := by
  obtain ⟨_, s₁, hDescriptor, hIdle⟩ := hHolds.run_descriptor hSteady
  have hHolds₁ := hHolds.idle hIdle
  have h₁ := h.frame hHolds.proper (Basis.worldFrame_of_idle hIdle.1)
  obtain ⟨side', bundle, hSide', hBundle, hDependencies⟩ := h₁.reads
  obtain rfl := Option.some.inj (hSide.symm.trans hSide')
  obtain ⟨side', download, hSide', hDownload, hDigest⟩ := hHolds₁.downloads p h.mem
  obtain rfl := Option.some.inj (hSide.symm.trans hSide')
  have hFetch : (r.downloader.downloadValid download.url (downloadPath p b.version) .sha1
      download.sha1).run.run s₁.world =
        (.ok (.found (Path.join r.sharedRoot (downloadPath p b.version)) true), s₁.world) :=
    hSteady.fetchValid_of_there hDigest
  have hInputs : (r.inputsOf p side b.version b.descriptor).run.run s₁ = (.ok (.found
      ⟨env, Path.join r.sharedRoot (downloadPath p b.version), bundle⟩ true), s₁) := by
    unfold inputsOf
    rw [hDownload]
    refine (bind_of_ok (during_ok_iff.2 (world_iff.2 ⟨_, hFetch, rfl⟩))).2 ?_
    refine (bind_of_ok (during_ok_iff.2 (world_iff.2 ⟨_, files_iff.2 ⟨_,
      run_bundle.2 ⟨rfl, hBundle⟩, rfl⟩, rfl⟩))).2 ?_
    refine (bind_of_ok (liftExcept_iff.2 ⟨hDependencies, rfl⟩)).2 (pure_iff.2 ⟨?_, rfl⟩)
    rw [← h.eq]
  refine ⟨s₁, ?_, hIdle⟩
  rw [sideEnvironment_eq]
  refine (bind_of_ok ((bind_of_ok (during_ok_iff.2 hDescriptor)).2 hInputs)).2 ?_
  exact world_iff.2 ⟨_, refresh_of_published hForce h₁.published, rfl⟩

theorem FoundJoined.run_again (hSteady : r.downloader.Steady) (hForce : r.forceRefresh = false)
    (hHolds : b.Holds r s) (h : FoundJoined b r env s.world.store) :
    ∃ s', (r.baseEnvironment .joined b.version).run.run s = (.ok (.found env true), s') ∧
      b.Idle s s' := by
  obtain ⟨client, server, hClient, hServer, hEnv⟩ := h.sides
  obtain ⟨s₁, hRunClient, hIdle₁⟩ := hClient.run_again hSteady hForce hHolds rfl
  have hHolds₁ := hHolds.idle hIdle₁
  have hFrame₁ : b.WorldFrame r.sharedRoot s.world s₁.world := Basis.worldFrame_of_idle hIdle₁.1
  obtain ⟨s₂, hRunServer, hIdle₂⟩ :=
    (hServer.frame hHolds.proper hFrame₁).run_again hSteady hForce hHolds₁ rfl
  have hFrame₂ : b.WorldFrame r.sharedRoot s₁.world s₂.world := Basis.worldFrame_of_idle hIdle₂.1
  have h₂ := (h.frame hHolds.proper hFrame₁).frame hHolds₁.proper hFrame₂
  refine ⟨s₂, ?_, hIdle₁.trans hIdle₂⟩
  rw [baseEnvironment_joined]
  refine (bind_of_ok hRunClient).2 ((bind_of_ok hRunServer).2 (world_iff.2 ⟨_, ?_, rfl⟩))
  rw [joinedEnvironment_found, ← hEnv]
  exact refresh_of_published hForce h₂.published

theorem FoundBase.run_again (hSteady : r.downloader.Steady) (hForce : r.forceRefresh = false)
    (hHolds : b.Holds r s) (h : FoundBase b r p env s.world.store) :
    ∃ s', (r.baseEnvironment p b.version).run.run s = (.ok (.found env true), s') ∧
      b.Idle s s' := by
  cases p with
  | client => exact FoundSide.run_again hSteady hForce hHolds h rfl
  | server => exact FoundSide.run_again hSteady hForce hHolds h rfl
  | joined => exact FoundJoined.run_again hSteady hForce hHolds h

/-- **What was found is found again**, up to date and without a change of any file, if the modifiers
still name the same artifact. -/
theorem Found.run_again (hSteady : r.downloader.Steady) (hForce : r.forceRefresh = false)
    (hValid : Modifier.validate modifiers = .ok ()) (hConsiderate : ∀ m ∈ modifiers, m.Considerate)
    (hHolds : b.Holds r s) (h : Found b r p modifiers env s.world.store)
    (hNamed : modifiers ≠ [] →
      ∃ t, (Modifier.decorate p.id modifiers).run.run s.world.store = (.ok env.artifact, t)) :
    ∃ s', (r.requestEnvironment p b.version modifiers).run.run s = (.ok (.found env true), s') ∧
      b.Idle s s' := by
  unfold requestEnvironment
  unfold Found at h
  simp only [bind_of_ok (liftExcept_iff.2 ⟨hValid, rfl⟩)]
  split
  · rename_i hEmpty
    rw [if_pos hEmpty] at h
    exact h.run_again hSteady hForce hHolds
  · rename_i hSome
    rw [if_neg hSome] at h
    obtain ⟨t, hName⟩ := hNamed fun hNil => hSome (hNil ▸ rfl)
    have hIdle₁ : b.Idle s { s with world := { s.world with store := t } } :=
      ⟨⟨rfl, (Modifier.frame_decorate hConsiderate).run hName⟩, hHolds.agrees⟩
    have hHolds₁ := hHolds.idle hIdle₁
    have h₁ := FoundModified.frame h hHolds.proper (Basis.worldFrame_of_idle hIdle₁.1)
    obtain ⟨base, hBase, hEnv⟩ := h₁.base
    obtain ⟨s₂, hRunBase, hIdle₂⟩ := hBase.run_again hSteady hForce hHolds₁
    have h₂ := FoundModified.frame h₁ hHolds₁.proper (Basis.worldFrame_of_idle hIdle₂.1)
    refine ⟨s₂, ?_, hIdle₁.trans hIdle₂⟩
    refine (bind_of_ok (world_iff.2 ⟨_, files_iff.2 ⟨_, hName, rfl⟩, rfl⟩)).2 ?_
    refine during_ok_iff.2 ((bind_of_ok hRunBase).2 (world_iff.2 ⟨_, ?_, rfl⟩))
    rw [modifiedEnvironment_found, ← hEnv]
    exact refresh_of_published hForce h₂.published

-- ---------------------------------------------------------------------------
-- It was found
-- ---------------------------------------------------------------------------

/-- The basis with one more platform. -/
def Basis.add (b : Basis) (p : Platform) : Basis := { b with platforms := p :: b.platforms }

theorem FoundSide.add {p' : Platform} {st : Store} (h : FoundSide b r p env st) :
    FoundSide (b.add p') r p env st where
  mem := List.mem_cons_of_mem _ h.mem
  reads := h.reads
  eq := h.eq
  published := h.published

/-- The inputs of a side that were found belong to a basis. -/
theorem holds_of_inputs (hSteady : r.downloader.Steady) (hHolds : b.Holds r s)
    (hSide : p.side? = some side) {inputs : SideInputs}
    (hInputs : (r.inputsOf p side b.version b.descriptor).run.run s =
      (.ok (.found inputs upToDate), s')) :
    (b.add p).Holds r s' ∧
      inputs.downloaded = Path.join r.sharedRoot (downloadPath p b.version) ∧
      BundleAt s'.world.store inputs.downloaded inputs.bundle ∧
      side.dependencies b.descriptor inputs.bundle = .ok inputs.env.dependencies ∧
      inputs.env = ⟨p.id, p, artifactPath r.sharedRoot p.id b.version, inputs.env.dependencies,
        b.descriptor⟩ := by
  obtain ⟨hFrame, hAgrees⟩ :=
    (Basis.frame_inputsOf hSteady b.plain hSide fun _ => rfl).run hInputs hHolds
  have hHolds₁ := hHolds.of_frame hFrame hAgrees
  obtain ⟨download, dependencies, w, hDownload, hFetch, hBundle, hDependencies, hEnv, rfl⟩ :=
    run_inputsOf hInputs
  obtain ⟨hPath, hDigest⟩ := hSteady.valid_of_fetchValid hFetch
  refine ⟨⟨hHolds₁.proper, hHolds₁.known, hHolds₁.agrees, fun p' hMem => ?_⟩, hPath, hBundle, ?_⟩
  · obtain rfl | hMem := List.mem_cons.1 hMem
    · exact ⟨side, download, hSide, hDownload, hDigest⟩
    · exact hHolds₁.downloads p' hMem
  · rw [hEnv]
    exact ⟨hDependencies, rfl⟩

/-- **The environment of a side that was found stands on a basis.** -/
theorem foundSide_of_inputs (hSteady : r.downloader.Steady) (hHolds : b.Holds r s)
    (hSide : p.side? = some side) {inputs : SideInputs} {wasThere : Bool} {s₁ : VersionState}
    (hInputs : (r.inputsOf p side b.version b.descriptor).run.run s =
      (.ok (.found inputs wasThere), s₁))
    (hRefresh : (r.refresh inputs.env wasThere (makeSide p side b.version inputs)).run.run
      s₁.world = (.ok (.found env upToDate), w')) :
    (b.add p).Holds r { s₁ with world := w' } ∧ FoundSide (b.add p) r p env w'.store := by
  obtain ⟨hHolds₁, hPath, hBundle, hDependencies, hEnv⟩ := holds_of_inputs hSteady hHolds hSide hInputs
  have hProper := hHolds₁.proper
  have hPlace : placeOf inputs.downloaded = downloadPlace r.sharedRoot p b.version :=
    hPath ▸ placeOf_downloadPath b.plain
  have hJar : inputs.env.jar = artifactPath r.sharedRoot p.id b.version := by rw [hEnv]
  have hMade : Respects (World.Frame (madeFor r.sharedRoot p b.version)
      (clearedFor r.sharedRoot p b.version)) (makeSide p side b.version inputs) :=
    frame_makeSide b.plain hJar
  have hFrame : (b.add p).WorldFrame r.sharedRoot s₁.world w' := Basis.worldFrame_of_made
    ((frame_refresh hMade fun _ hq => .inr (.inr (.inr hq))).run hRefresh)
  -- the jar that is made is there
  obtain ⟨directory, hParent, -⟩ :=
    exists_parent_artifactPath r.sharedRoot (isPlain_id (p := p)) b.plain
  have hThere : ∀ {w₁}, (makeSide p side b.version inputs).run.run s₁.world = (.ok (), w₁) →
      w₁.store.IsProper ∧ w₁.store.isFile inputs.env.jar = true := by
    intro w₁ hMake
    obtain ⟨content, -, hContent, -⟩ := hBundle
    obtain ⟨entries, -, hFile⟩ := content_of_makeSide hProper b.plain hContent hPlace hJar hMake
    exact ⟨((hMade.run hMake).2 hProper).proper, isFile_of_content hFile⟩
  obtain ⟨rfl, hPublished⟩ := published_of_refresh hProper (hJar ▸ hParent) hThere hRefresh
  refine ⟨hHolds₁.of_frame hFrame hHolds₁.agrees, List.mem_cons_self, ?_, hEnv, hPublished⟩
  refine ⟨side, inputs.bundle, hSide, ?_, hDependencies⟩
  have hStill := hBundle.frame hProper hFrame (.inr ⟨p, List.mem_cons_self, hPlace⟩)
  rwa [hPath] at hStill

/-- A side that is asked for while a basis holds. -/
theorem foundSide_of_run (hSteady : r.downloader.Steady) (hHolds : b.Holds r s)
    (hSide : p.side? = some side)
    (h : (r.sideEnvironment p side b.version).run.run s = (.ok (.found env upToDate), s')) :
    (b.add p).Holds r s' ∧ FoundSide (b.add p) r p env s'.world.store := by
  rw [sideEnvironment_eq] at h
  obtain ⟨found, s₂, hFound, h⟩ := bind_ok_iff.1 h
  rcases found with _ | ⟨inputs, wasThere⟩
  · cases (pure_iff.1 h).1
  obtain ⟨v, _, s₁, hDescriptor, hInputs⟩ := run_sideInputs hFound
  obtain ⟨hFrame, hAgrees, hSame⟩ := Basis.run_descriptor hSteady b.plain hHolds hDescriptor
  obtain rfl := hSame v _ rfl rfl
  obtain ⟨w, hRefresh, rfl⟩ := world_iff.1 h
  exact foundSide_of_inputs hSteady (hHolds.of_frame hFrame hAgrees) hSide hInputs hRefresh

/-- A side that is asked for first makes a basis. -/
theorem foundSide_of_empty (hSteady : r.downloader.Steady) (hProper : s.world.store.IsProper)
    (hEmpty : s.cache = .empty) (hVersion : Path.IsPlain version) (hSide : p.side? = some side)
    (h : (r.sideEnvironment p side version).run.run s = (.ok (.found env upToDate), s')) :
    ∃ b : Basis, b.version = version ∧ b.Holds r s' ∧ FoundSide b r p env s'.world.store := by
  rw [sideEnvironment_eq] at h
  obtain ⟨found, s₂, hFound, h⟩ := bind_ok_iff.1 h
  rcases found with _ | ⟨inputs, wasThere⟩
  · cases (pure_iff.1 h).1
  obtain ⟨v, _, s₁, hDescriptor, hInputs⟩ := run_sideInputs hFound
  obtain ⟨m, hKnown, hAgrees⟩ :=
    VersionRepository.known_of_descriptor hSteady.toCareful hProper hVersion hEmpty hDescriptor
  have hWithin := ((VersionRepository.frame_descriptor (r := r.repository) hSteady.toCareful
    hVersion).run hDescriptor).2 hProper
  let b : Basis := ⟨m, version, v, [], hVersion⟩
  have hHolds : b.Holds r s₁ := ⟨hWithin.proper, hKnown, hAgrees, nofun⟩
  obtain ⟨w, hRefresh, rfl⟩ := world_iff.1 h
  exact ⟨b.add p, rfl, foundSide_of_inputs hSteady hHolds hSide hInputs hRefresh⟩

theorem foundJoined_of_run (hSteady : r.downloader.Steady) (hProper : s.world.store.IsProper)
    (hEmpty : s.cache = .empty) (hVersion : Path.IsPlain version)
    (h : (r.baseEnvironment .joined version).run.run s = (.ok (.found env upToDate), s')) :
    ∃ b : Basis, b.version = version ∧ b.Holds r s' ∧ FoundJoined b r env s'.world.store := by
  rw [baseEnvironment_joined] at h
  obtain ⟨foundClient, s₁, hRunClient, h⟩ := bind_ok_iff.1 h
  obtain ⟨foundServer, s₂, hRunServer, h⟩ := bind_ok_iff.1 h
  obtain ⟨w, hJoined, rfl⟩ := world_iff.1 h
  rcases foundClient with _ | ⟨client, clientUpToDate⟩
  · cases (pure_iff.1 hJoined).1
  rcases foundServer with _ | ⟨server, serverUpToDate⟩
  · cases (pure_iff.1 hJoined).1
  obtain ⟨b, rfl, hHolds₁, hClient⟩ :=
    foundSide_of_empty hSteady hProper hEmpty hVersion rfl hRunClient
  obtain ⟨hFrame, -⟩ :=
    (Basis.frame_sideEnvironment hSteady rfl hVersion rfl).run hRunServer hHolds₁
  have hClient₂ := hClient.frame hHolds₁.proper hFrame
  obtain ⟨hHolds₂, hServer⟩ := foundSide_of_run hSteady hHolds₁ rfl hRunServer
  have hFrame₃ : (b.add .server).WorldFrame r.sharedRoot s₂.world w :=
    Basis.worldFrame_of_made ((frame_joinedEnvironment hVersion).run hJoined)
  refine ⟨b.add .server, rfl, hHolds₂.of_frame hFrame₃ hHolds₂.agrees, ?_⟩
  have hClient₃ := hClient₂.add.frame hHolds₂.proper hFrame₃
  have hServer₃ := hServer.frame hHolds₂.proper hFrame₃
  obtain ⟨hEnv, hPublished⟩ := published_of_joined hHolds₂.proper hVersion hClient₂.published.jar
    hServer.published.jar hClient.place hServer.place hJoined
  exact ⟨⟨client, server, hClient₃, hServer₃, hEnv⟩, hPublished⟩

theorem foundBase_of_run (hSteady : r.downloader.Steady) (hProper : s.world.store.IsProper)
    (hEmpty : s.cache = .empty) (hVersion : Path.IsPlain version)
    (h : (r.baseEnvironment p version).run.run s = (.ok (.found env upToDate), s')) :
    ∃ b : Basis, b.version = version ∧ b.Holds r s' ∧ FoundBase b r p env s'.world.store := by
  cases p with
  | client => exact foundSide_of_empty hSteady hProper hEmpty hVersion rfl h
  | server => exact foundSide_of_empty hSteady hProper hEmpty hVersion rfl h
  | joined => exact foundJoined_of_run hSteady hProper hEmpty hVersion h

/-- The jar of a platform that was found is there. -/
theorem FoundBase.there {st : Store} (h : FoundBase b r p env st) :
    placeOf env.jar = jarPlace r.sharedRoot p.id b.version ∧ st.isFile env.jar = true := by
  cases p with
  | client => exact ⟨FoundSide.place h, h.published.jar⟩
  | server => exact ⟨FoundSide.place h, h.published.jar⟩
  | joined =>
    obtain ⟨client, server, -, -, hEnv⟩ := h.sides
    refine ⟨?_, h.published.jar⟩
    rw [hEnv, joinedFrom_jar]
    exact placeOf_artifactPath isPlain_id b.plain

/-- **An environment that is found stands on a basis.** -/
theorem found_of_run (hSteady : r.downloader.Steady) (hProper : s.world.store.IsProper)
    (hEmpty : s.cache = .empty) (hVersion : Path.IsPlain version)
    (hOrderly : Modifier.Orderly p modifiers)
    (h : (r.requestEnvironment p version modifiers).run.run s = (.ok (.found env upToDate), s')) :
    Modifier.validate modifiers = .ok () ∧
      ∃ b : Basis, b.version = version ∧ b.Holds r s' ∧
        Found b r p modifiers env s'.world.store := by
  obtain ⟨_, s₁, hLift, h⟩ := bind_ok_iff.1 h
  obtain ⟨hValid, rfl⟩ := liftExcept_iff.1 hLift
  refine ⟨hValid, ?_⟩
  unfold Found
  split at h
  · rename_i hNil
    simp only [if_pos hNil]
    exact foundBase_of_run hSteady hProper hEmpty hVersion h
  · rename_i hSome
    simp only [if_neg hSome]
    obtain ⟨artifact, s₂, hDecorate, h⟩ := bind_ok_iff.1 h
    obtain ⟨w, hLifted, rfl⟩ := world_iff.1 hDecorate
    obtain ⟨t, hName, rfl⟩ := files_iff.1 hLifted
    obtain ⟨base, s₃, hBase, h⟩ := bind_ok_iff.1 (during_ok_iff.1 h)
    obtain ⟨w, hModified, rfl⟩ := world_iff.1 h
    rcases base with _ | ⟨base, wasThere⟩
    · cases (pure_iff.1 hModified).1
    have hProper₂ := ((Modifier.frame_decorate hOrderly.considerate).run hName hProper).proper
    obtain ⟨b, rfl, hHolds, hFound⟩ :=
      foundBase_of_run (s := ⟨{ s.world with store := t }, s.cache⟩) hSteady hProper₂ hEmpty hVersion
        hBase
    obtain ⟨hPlace, hJar⟩ := hFound.there
    have hPlain := hOrderly.plain hName
    have hApart := hOrderly.apart hName
    have hFrame : b.WorldFrame r.sharedRoot s₃.world w := Basis.worldFrame_of_modified hApart
      ((frame_modifiedEnvironment hSteady.toCareful hOrderly.considerate hPlain hVersion).run
        hModified)
    obtain ⟨rfl, hPublished⟩ := published_of_modified hSteady.toCareful hOrderly.considerate
      hHolds.proper hPlain hVersion hJar hPlace hModified
    exact ⟨b, rfl, hHolds.of_frame hFrame hHolds.agrees,
      ⟨base, hFound.frame hHolds.proper hFrame, rfl⟩, hPlain, hApart, hPublished⟩

end Resolver

-- ---------------------------------------------------------------------------
-- Resolutions
-- ---------------------------------------------------------------------------

namespace Resolution

open Resolver Running Store

variable {q : Resolution} {later : List Resolution} {w w₁ : World} {env : Environment}
  {upToDate : Bool}

/-- A resolution that keeps to the files of its own version and artifact, with the documents and
downloads of a repository. -/
structure Tidy (repository : VersionRepository) (q : Resolution) : Prop where
  repository : q.resolver.repository = repository
  version : Path.IsPlain q.version
  orderly : Modifier.Orderly q.platform q.modifiers

/-- One resolution keeps a basis. -/
theorem Tidy.frame {b : Basis} {r : Resolver} (hSteady : r.downloader.Steady)
    (hTidy : q.Tidy r.repository) (hHolds : b.Holds r ⟨w, .empty⟩) :
    b.WorldFrame r.sharedRoot w (q.run w).2 ∧ b.Holds r ⟨(q.run w).2, .empty⟩ := by
  obtain ⟨s, hRun, hWorld⟩ := run_iff.1 (Prod.eta (q.run w)).symm
  obtain ⟨hFrame, -⟩ := (Basis.frame_requestEnvironment hSteady hTidy.repository hTidy.version
    hTidy.orderly).run hRun hHolds
  rw [hWorld] at hFrame
  exact ⟨hFrame, hHolds.of_frame hFrame VersionRepository.agrees_empty⟩

/-- Any number of resolutions keep a basis. -/
theorem frame_worldAfter {b : Basis} {r : Resolver} (hSteady : r.downloader.Steady)
    (hLater : ∀ q ∈ later, q.Tidy r.repository) (hHolds : b.Holds r ⟨w, .empty⟩) :
    b.WorldFrame r.sharedRoot w (worldAfter later w) ∧ b.Holds r ⟨worldAfter later w, .empty⟩ := by
  induction later generalizing w with
  | nil => exact ⟨refl_of _ w, hHolds⟩
  | cons q more ih =>
    obtain ⟨hTidy, hMore⟩ := List.forall_mem_cons.1 hLater
    obtain ⟨hFirst, hHolds₁⟩ := hTidy.frame hSteady hHolds
    obtain ⟨hRest, hHolds₂⟩ := ih hMore hHolds₁
    exact ⟨trans_of (b.WorldFrame r.sharedRoot) hFirst hRest, hHolds₂⟩

/-- **Resolution is idempotent**: an environment that was found is found again behind any number of
other resolutions, whatever came out of these. It is then up to date, and no file changes. -/
theorem idempotent (hSteady : q.resolver.downloader.Steady)
    (hForce : q.resolver.forceRefresh = false) (hTidy : q.Tidy q.resolver.repository)
    (hProper : w.store.IsProper) (hFound : q.run w = (.ok (.found env upToDate), w₁))
    (hLater : ∀ o ∈ later, o.Tidy q.resolver.repository)
    (hNamed : q.modifiers ≠ [] → ∃ t, (Modifier.decorate q.platform.id q.modifiers).run.run
      (worldAfter later w₁).store = (.ok env.artifact, t)) :
    ∃ w₂, q.run (worldAfter later w₁) = (.ok (.found env true), w₂) ∧
      SameFiles (worldAfter later w₁).store w₂.store := by
  obtain ⟨s, hRun, rfl⟩ := run_iff.1 hFound
  obtain ⟨hValid, b, hVersion, hHolds, hThere⟩ :=
    found_of_run hSteady hProper rfl hTidy.version hTidy.orderly hRun
  have hHolds₁ : b.Holds q.resolver ⟨s.world, .empty⟩ :=
    hHolds.of_frame (refl_of _ s.world) VersionRepository.agrees_empty
  obtain ⟨hFrame, hHolds₂⟩ := frame_worldAfter hSteady hLater hHolds₁
  obtain ⟨s₂, hAgain, hIdle⟩ := Found.run_again hSteady hForce hValid hTidy.orderly.considerate
    hHolds₂ (hThere.frame hHolds.proper hFrame) hNamed
  rw [hVersion] at hAgain
  exact ⟨s₂.world, run_iff.2 ⟨s₂, hAgain, rfl⟩, (hIdle.1.2 hHolds₂.proper).sameFiles⟩

-- ---------------------------------------------------------------------------
-- The example
-- ---------------------------------------------------------------------------

/-- The client in a version, asked of a resolver that takes what is in the cache. -/
def ofExample (version : String) : Resolution := ⟨exampleResolver, .client, version, []⟩

theorem tidy_ofExample (p : Platform) (forceRefresh : Bool) :
    Tidy exampleResolver.repository
      ⟨{ exampleResolver with forceRefresh := forceRefresh }, p, "1", []⟩ :=
  ⟨rfl, show Path.IsPlain "1" by decide, Modifier.orderly_nil⟩

theorem isProper_exampleFiles : exampleFiles.IsProper := isProper_of_entries (by decide +kernel)

theorem cachedSide_exampleFiles :
    CachedSide "shared" .client .client "1" exampleDescriptor none exampleFiles :=
  cachedSide_client (by decide +kernel) (by decide +kernel) (by decide +kernel) (by decide +kernel)

theorem published_exampleFiles : Published (exampleClient "1") exampleFiles :=
  ⟨by decide +kernel, _, rfl, by decide +kernel⟩

/-- The client is found in the cache, whatever is upstream. -/
theorem run_ofExample {remote : Option (OrderedMap String RemoteAnswer)} :
    (ofExample "1").run ⟨exampleFiles, remote, []⟩ =
      (.ok (.found (exampleClient "1") true), ⟨exampleFiles, remote, []⟩) :=
  run_published rfl rfl rfl rfl cachedSide_exampleFiles dependencies_example published_exampleFiles

/-- The client is found again behind a forced resolution of it and one of both sides, though these
delete and make jars, and ask in vain for what is not there. -/
theorem idempotent_forcedAndJoined : ∃ w, (ofExample "1").run (worldAfter
      [⟨{ exampleResolver with forceRefresh := true }, .client, "1", []⟩,
        ⟨exampleResolver, .joined, "1", []⟩] exampleWorld) =
      (.ok (.found (exampleClient "1") true), w) ∧
    SameFiles (worldAfter [⟨{ exampleResolver with forceRefresh := true }, .client, "1", []⟩,
        ⟨exampleResolver, .joined, "1", []⟩] exampleWorld).store w.store := by
  refine idempotent (Downloader.steady_direct _) rfl (tidy_ofExample _ _) isProper_exampleFiles
    run_ofExample ?_ fun hSome => absurd rfl hSome
  exact List.forall_mem_cons.2 ⟨tidy_ofExample _ _, List.forall_mem_singleton.2 (tidy_ofExample _ _)⟩

/-- What is left to do for the client. -/
def refreshClient (version : String) : Action (Lookup Environment) :=
  exampleResolver.refresh (exampleClient version) true (makeSide .client .client version
    ⟨exampleClient version, Path.join "shared" (downloadPath .client version), none⟩)

theorem run_ofExample_cached {version : String}
    (h : CachedSide "shared" .client .client version exampleDescriptor none w.store) :
    (ofExample version).run w = (refreshClient version).run.run w :=
  (run_cached (q := ofExample version) rfl rfl rfl h dependencies_example
    (Prod.mk.eta (p := (refreshClient version).run.run w)).symm).trans Prod.mk.eta

/-- The world behind a resolution of a version that is called like the directory it stands in. -/
def worldAfterDot : World := ((refreshClient ".").run.run exampleWorld).2

/-- Jars of versions without a directory of their own stand in one directory, and each is deleted
when the other one is made. -/
theorem worldAfterDot_files :
    worldAfterDot.store.content (Path.join "shared" VersionRepository.manifestPath) =
        .ok (.ofText exampleManifestText) ∧
      worldAfterDot.store.content (Path.join "shared" (VersionRepository.descriptorPath "")) =
        .ok (.ofText exampleDescriptorText) ∧
      worldAfterDot.store.content (Path.join "shared" (downloadPath .client "")) =
        .ok (.archive []) ∧
      worldAfterDot.store.isFile (exampleClient "").jar = false := by
  decide +kernel

/-- Resolution is not idempotent for versions of any name. -/
theorem not_idempotent : ¬ ∀ {q : Resolution} {later : List Resolution} {w w₁ : World}
    {env : Environment} {upToDate : Bool}, q.resolver.downloader.Steady →
    q.resolver.forceRefresh = false → w.store.IsProper →
    (∀ o ∈ q :: later, o.resolver.repository = q.resolver.repository ∧
      Modifier.Orderly o.platform o.modifiers) →
    q.run w = (.ok (.found env upToDate), w₁) →
    (q.modifiers ≠ [] → ∃ t, (Modifier.decorate q.platform.id q.modifiers).run.run
      (worldAfter later w₁).store = (.ok env.artifact, t)) →
    ∃ w₂, q.run (worldAfter later w₁) = (.ok (.found env true), w₂) ∧
      SameFiles (worldAfter later w₁).store w₂.store := by
  intro hIdempotent
  have hFirst : (ofExample "").run exampleWorld =
      (.ok (.found (exampleClient "") true), exampleWorld) :=
    run_published rfl rfl rfl rfl (cachedSide_client (by decide +kernel) (by decide +kernel)
      (by decide +kernel) (by decide +kernel)) dependencies_example
      ⟨by decide +kernel, _, rfl, by decide +kernel⟩
  obtain ⟨w₂, hAgain, -⟩ := @hIdempotent _ [ofExample "."] _ _ _ _ (Downloader.steady_direct _) rfl
    isProper_exampleFiles (by
      intro o hMem
      obtain rfl | hMem := List.mem_cons.1 hMem
      · exact ⟨rfl, Modifier.orderly_nil⟩
      · obtain rfl := List.mem_singleton.1 hMem
        exact ⟨rfl, Modifier.orderly_nil⟩) hFirst fun hSome => absurd rfl hSome
  have hSecond : (ofExample ".").run exampleWorld = (refreshClient ".").run.run exampleWorld :=
    run_ofExample_cached (cachedSide_client (by decide +kernel) (by decide +kernel)
      (by decide +kernel) (by decide +kernel))
  have hWorld : worldAfter [ofExample "."] exampleWorld = worldAfterDot := by
    rw [worldAfter, List.foldl_cons, List.foldl_nil, hSecond, worldAfterDot]
  obtain ⟨hManifest, hDescriptor, hDownload, hGone⟩ := worldAfterDot_files
  rw [hWorld, run_ofExample_cached (cachedSide_client hManifest (by decide +kernel) hDescriptor
    hDownload)] at hAgain
  -- what is found up to date was there
  obtain ⟨-, -, hThere, -⟩ | ⟨_, -, hq⟩ | ⟨_, d, _, -, -, -, hq⟩ := run_refresh hAgain
  · cases hGone.symm.trans hThere
  · cases hq
  · cases d <;> cases hq

end Resolution

end Jarsmith
