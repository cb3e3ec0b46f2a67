import Jarsmith.Proofs.Resolver.Fresh
import Jarsmith.Proofs.Resolver.Products

/-!
# What resolvers do to products

What becomes of the jar of a side, of the joined jar and of a modified jar when any environment is
asked for, of whatever platform and version and by whatever modifiers.

* `Product.Settles` — the product is served, or nothing is found.
* `Product.settles_side`, `Product.settles_joined`, `Product.settles_modified` — who asks for a
  product settles it.
* `Product.settles_request` — whatever is asked for settles the jar of a side.
* `Product.renews_request_joined`, `Product.renews_request_modified` — whatever is asked for leaves
  the other jars or makes them anew.
* `Resolver.frame_request_upToDate` — who finds something up to date changes no jar.
-/

namespace Jarsmith

open Downloader Running Store Resolver

variable {r : Resolver} {p p' : Platform} {side side' : Side} {version version' artifact : String}
  {modifiers : List Modifier} {env : Environment} {upToDate : Bool} {s s' : VersionState}
  {w w' : World} {q : Result (Lookup Environment)}

namespace Resolver

-- ---------------------------------------------------------------------------
-- Footprints of environments
-- ---------------------------------------------------------------------------

/-- The environment of a side touches its inputs and what is made from these. -/
theorem frame_side (hCareful : r.downloader.Careful) (hVersion : Path.IsPlain version) :
    Respects (VersionState.Frame
        (fun place => inputOf r.sharedRoot p version place ∨ madeFor r.sharedRoot p version place)
        fun place => inputOf r.sharedRoot p version place ∨ clearedFor r.sharedRoot p version place)
      (r.sideEnvironment p side version) where
  run {s q s'} h := by
    have hInputs : ∀ {q' s₁}, (r.sideInputs p side version).run.run s = (q', s₁) → VersionState.Frame
        (fun place => inputOf r.sharedRoot p version place ∨ madeFor r.sharedRoot p version place)
        (fun place => inputOf r.sharedRoot p version place ∨ clearedFor r.sharedRoot p version place)
        s s₁ := fun hRun =>
      ((frame_sideInputs hCareful hVersion).run hRun).mono (fun _ => .inl) fun _ => .inl
    obtain ⟨_, hRun, -⟩ | ⟨inputs, wasThere, s₁, w, hRun, hRefresh, rfl⟩ := run_sideEnvironment h
    · exact hInputs hRun
    · have hMade := (frame_refresh (frame_makeSide hVersion (jar_of_sideInputs hRun))
        fun _ hq => .inr (.inr (.inr hq))).run hRefresh
      exact trans_of (World.Frame _ _) (hInputs hRun) (hMade.mono (fun _ => .inr) fun _ => .inr)

/-- The jar of a side that is found is there. -/
theorem found_side (hCareful : r.downloader.Careful) (hVersion : Path.IsPlain version)
    (hProper : s.world.store.IsProper)
    (h : (r.sideEnvironment p side version).run.run s = (.ok (.found env upToDate), s')) :
    env.jar = artifactPath r.sharedRoot p.id version ∧
      s'.world.store.isFile env.jar = true := by
  obtain ⟨_, -, hNot⟩ | ⟨inputs, wasThere, s₁, w, hRun, hRefresh, rfl⟩ := run_sideEnvironment h
  · exact absurd ⟨env, upToDate, rfl⟩ hNot
  obtain ⟨hPath, ⟨content, -, hContent, -⟩, -⟩ := found_sideInputs hCareful hRun
  have hJar := jar_of_sideInputs hRun
  have hProper₁ := (((frame_sideInputs hCareful hVersion).run hRun).2 hProper).proper
  obtain ⟨directory, hParent, -⟩ :=
    exists_parent_artifactPath r.sharedRoot (isPlain_id (p := p)) hVersion
  obtain ⟨rfl, hPublished⟩ := published_of_refresh hProper₁ (hJar ▸ hParent) (fun {w₁} hMake => by
    obtain ⟨entries, -, hFile⟩ := content_of_makeSide hProper₁ hVersion hContent
      (hPath ▸ placeOf_downloadPath hVersion) hJar hMake
    exact ⟨(((frame_makeSide hVersion hJar).run hMake).2 hProper₁).proper, isFile_of_content hFile⟩)
    hRefresh
  exact ⟨hJar, hPublished.jar⟩

/-- The download of a side that is found is the one that its descriptor names. -/
theorem digest_side (hCareful : r.downloader.Careful) (hVersion : Path.IsPlain version)
    (hProper : s.world.store.IsProper)
    (h : (r.sideEnvironment p side version).run.run s = (.ok (.found env upToDate), s')) :
    ∃ download, env.version.download? side.jarDownload = some download ∧
      HasDigest s'.world.store (Path.join r.sharedRoot (downloadPath p version)) .sha1
        download.sha1 := by
  obtain ⟨_, -, hNot⟩ | ⟨inputs, wasThere, s₁, w, hRun, hRefresh, rfl⟩ := run_sideEnvironment h
  · exact absurd ⟨env, upToDate, rfl⟩ hNot
  obtain ⟨hPath, -, download, hDownload, content, hContent, hValid⟩ := found_sideInputs hCareful hRun
  have hProper₁ := (((frame_sideInputs hCareful hVersion).run hRun).2 hProper).proper
  have hWithin := ((frame_refresh (frame_makeSide hVersion (jar_of_sideInputs hRun))
    fun _ hq => .inr (.inr (.inr hq))).run hRefresh).2 hProper₁
  have hApart : ¬ madeFor r.sharedRoot p version (placeOf inputs.downloaded) := by
    rw [hPath, placeOf_downloadPath hVersion]
    exact Product.not_madeFor_downloadPlace
  refine ⟨download, (env_of_refresh hRefresh) ▸ hDownload, content, ?_, hValid⟩
  exact hPath ▸ content_of_same hWithin.directories (hWithin.elsewhere _ hApart) hContent

/-- Places of no jars. -/
def noJar (place : List String) : Prop := ¬ HasSuffix ".jar" place

theorem noJar_of_suffix {suffix : String} {c : Char} {place : List String}
    (h : HasSuffix suffix place) (hLast : suffix.toList.getLast? = some c) (hNe : c ≠ 'r') :
    noJar place := h.not_hasSuffix hLast rfl hNe

theorem noJar_of_document {root : String} {place : List String}
    (h : VersionRepository.isDocument root version place) : noJar place := by
  obtain rfl | rfl := h
  · exact noJar_of_suffix hasSuffix_manifestPlace rfl (by decide)
  · exact noJar_of_suffix hasSuffix_descriptorPlace rfl (by decide)

/-- A side that is up to date changes no jar. -/
theorem frame_side_upToDate (hCareful : r.downloader.Careful) (hVersion : Path.IsPlain version)
    (h : (r.sideEnvironment p side version).run.run s = (.ok (.found env true), s')) :
    VersionState.Frame noJar noJar s s' := by
  obtain ⟨_, -, hNot⟩ | ⟨inputs, wasThere, s₁, w, hRun, hRefresh, rfl⟩ := run_sideEnvironment h
  · exact absurd ⟨env, true, rfl⟩ hNot
  obtain ⟨rfl, hWritten⟩ := frame_refresh_upToDate hRefresh
  exact trans_of (World.Frame noJar noJar)
    ((frame_sideInputs_upToDate hCareful hVersion hRun).mono (fun _ => noJar_of_document)
      fun _ => noJar_of_document)
    (hWritten.mono (fun _ hq => noJar_of_suffix hq rfl (by decide)) nofun)

theorem not_finds_error {e : Error} : ¬ Finds (.error e) := fun ⟨_, _, hq⟩ => nomatch hq

theorem finds_ok {found : Lookup Environment} :
    Finds (.ok found) ↔ ∃ env upToDate, found = .found env upToDate := by
  simp only [Finds, Except.ok.injEq]

theorem finds_mapError {f : Error → Error} : Finds (q.mapError f) ↔ Finds q := by
  cases q with
  | error e => exact iff_of_false not_finds_error not_finds_error
  | ok found => exact Iff.rfl

/-- Only what both sides are found for is joined. -/
theorem finds_of_joined {client server : Lookup Environment} (hFinds : Finds q)
    (h : (r.joinedEnvironment version client server).run.run w = (q, w')) :
    Finds (.ok client) ∧ Finds (.ok server) := by
  obtain ⟨_, _, rfl⟩ := hFinds
  rcases client with _ | ⟨client, ours⟩
  · cases (pure_iff.1 h).1
  rcases server with _ | ⟨server, theirs⟩
  · cases (pure_iff.1 h).1
  · exact ⟨⟨_, _, rfl⟩, _, _, rfl⟩

/-- Only what is found is modified. -/
theorem finds_of_modified {base : Lookup Environment} (hFinds : Finds q)
    (h : (r.modifiedEnvironment artifact version modifiers base).run.run w = (q, w')) :
    Finds (.ok base) := by
  obtain ⟨_, _, rfl⟩ := hFinds
  rcases base with _ | ⟨base, wasThere⟩
  · cases (pure_iff.1 h).1
  · exact ⟨_, _, rfl⟩

/-- The steps of asking for the environment of both sides. -/
theorem run_baseJoined
    (h : (r.baseEnvironment .joined version).run.run s = (q, s')) :
    ∃ q₁ s₁, (r.sideEnvironment .client .client version).run.run s = (q₁, s₁) ∧
      ((¬ Finds q ∧ s₁ = s') ∨
        ∃ q₂ s₂, (r.sideEnvironment .server .server version).run.run s₁ = (q₂, s₂) ∧
          ((¬ Finds q ∧ s₂ = s') ∨
            ∃ client server w, q₁ = .ok client ∧ q₂ = .ok server ∧
              (r.joinedEnvironment version client server).run.run s₂.world = (q, w) ∧
                { s₂ with world := w } = s')) := by
  rw [baseEnvironment_joined] at h
  obtain ⟨e, hClient, rfl⟩ | ⟨client, s₁, hClient, h⟩ := bind_iff.1 h
  · exact ⟨_, _, hClient, .inl ⟨not_finds_error, rfl⟩⟩
  obtain ⟨e, hServer, rfl⟩ | ⟨server, s₂, hServer, h⟩ := bind_iff.1 h
  · exact ⟨_, _, hClient, .inr ⟨_, _, hServer, .inl ⟨not_finds_error, rfl⟩⟩⟩
  obtain ⟨w, hJoined, rfl⟩ := world_iff.1 h
  exact ⟨_, _, hClient, .inr ⟨_, _, hServer, .inr ⟨client, server, w, rfl, rfl, hJoined, rfl⟩⟩⟩

/-- The steps of asking for a modified environment: naming the artifact only looks, behind that the
base is asked for and modified. -/
theorem run_requestModified (hSome : modifiers ≠ [])
    (h : (r.requestEnvironment p version modifiers).run.run s = (q, s')) :
    (¬ Finds q ∧ ∃ t, s' = { s with world := { s.world with store := t } } ∧
      (t = s.world.store ∨ ∃ q', (Modifier.decorate p.id modifiers).run.run s.world.store = (q', t))) ∨
      ∃ artifact t q₁ s₁, (Modifier.decorate p.id modifiers).run.run s.world.store =
          (.ok artifact, t) ∧
        (r.baseEnvironment p version).run.run { s with world := { s.world with store := t } } =
          (q₁, s₁) ∧
        ((¬ Finds q ∧ s₁ = s') ∨
          ∃ base q₂ w, q₁ = .ok base ∧
            (r.modifiedEnvironment artifact version modifiers base).run.run s₁.world = (q₂, w) ∧
              { s₁ with world := w } = s' ∧
                q = q₂.mapError (.during artifact "apply modifiers")) := by
  unfold requestEnvironment at h
  obtain ⟨e, hInvalid, rfl⟩ | ⟨_, _, hValid, h⟩ := bind_iff.1 h
  · obtain ⟨-, rfl⟩ := liftExcept_iff.1 hInvalid
    exact .inl ⟨not_finds_error, s.world.store, rfl, .inl rfl⟩
  obtain ⟨-, rfl⟩ := liftExcept_iff.1 hValid
  rw [if_neg fun hEmpty => hSome (List.isEmpty_iff.1 hEmpty)] at h
  obtain ⟨e, hNameless, rfl⟩ | ⟨artifact, _, hNamed, h⟩ := bind_iff.1 h
  · obtain ⟨_, hLifted, rfl⟩ := world_iff.1 hNameless
    obtain ⟨t, hName, rfl⟩ := files_iff.1 hLifted
    exact .inl ⟨not_finds_error, t, rfl, .inr ⟨_, hName⟩⟩
  obtain ⟨_, hLifted, rfl⟩ := world_iff.1 hNamed
  obtain ⟨t, hName, rfl⟩ := files_iff.1 hLifted
  obtain ⟨q₂, hRun, rfl⟩ := during_iff.1 h
  obtain ⟨e, hBase, rfl⟩ | ⟨base, s₁, hBase, hRun⟩ := bind_iff.1 hRun
  · exact .inr ⟨artifact, t, _, _, hName, hBase,
      .inl ⟨fun hFinds => not_finds_error (finds_mapError.1 hFinds), rfl⟩⟩
  obtain ⟨w, hModified, rfl⟩ := world_iff.1 hRun
  exact .inr ⟨artifact, t, _, s₁, hName, hBase, .inr ⟨base, q₂, w, rfl, hModified, rfl, rfl⟩⟩

/-- A jar of an artifact that is neither touched for a side nor its download stays there. -/
theorem isFile_of_side {path root' : String} (hCareful : r.downloader.Careful)
    (hVersion : Path.IsPlain version) (hProper : s.world.store.IsProper)
    (hPlace : placeOf path = jarPlace root' p'.id version')
    (hFile : s.world.store.isFile path = true)
    (h : (r.sideEnvironment p side version).run.run s = (q, s')) :
    s'.world.store.isFile path = true := by
  refine (((frame_side hCareful hVersion).run h).2 hProper).isFile ?_ hFile
  rw [hPlace]
  rintro (hInput | hCleared)
  · exact downloadArtifact_ne_id (jarPlace_inj (eq_of_inputOf hInput)).2.1.symm
  · exact not_clearedFor_jarPlace hCleared

/-- The jars of both sides, when they are found one after the other. -/
theorem found_sides {client server : Environment} {ours theirs : Bool} {s₁ s₂ : VersionState}
    (hCareful : r.downloader.Careful) (hVersion : Path.IsPlain version)
    (hProper : s.world.store.IsProper)
    (hClient : (r.sideEnvironment .client .client version).run.run s =
      (.ok (.found client ours), s₁))
    (hServer : (r.sideEnvironment .server .server version).run.run s₁ =
      (.ok (.found server theirs), s₂)) :
    client.jar = artifactPath r.sharedRoot Platform.client.id version ∧
      server.jar = artifactPath r.sharedRoot Platform.server.id version ∧
      s₂.world.store.isFile client.jar = true ∧ s₂.world.store.isFile server.jar = true := by
  have hProper₁ := (((frame_side hCareful hVersion).run hClient).2 hProper).proper
  obtain ⟨hClientJar, hClientThere⟩ := found_side hCareful hVersion hProper hClient
  obtain ⟨hServerJar, hServerThere⟩ := found_side hCareful hVersion hProper₁ hServer
  refine ⟨hClientJar, hServerJar, ?_, hServerThere⟩
  exact isFile_of_side hCareful hVersion hProper₁
    (hClientJar ▸ placeOf_artifactPath isPlain_id hVersion) hClientThere hServer

/-- The jar of a platform that is found is there. -/
theorem found_base (hCareful : r.downloader.Careful) (hVersion : Path.IsPlain version)
    (hProper : s.world.store.IsProper)
    (h : (r.baseEnvironment p version).run.run s = (.ok (.found env upToDate), s')) :
    env.jar = artifactPath r.sharedRoot p.id version ∧ s'.world.store.isFile env.jar = true := by
  cases p with
  | client =>
    rw [baseEnvironment_of_side (p := .client) rfl] at h
    exact found_side hCareful hVersion hProper h
  | server =>
    rw [baseEnvironment_of_side (p := .server) rfl] at h
    exact found_side hCareful hVersion hProper h
  | joined =>
    rw [baseEnvironment_joined] at h
    obtain ⟨foundClient, s₁, hRunClient, hRest⟩ := bind_ok_iff.1 h
    obtain ⟨foundServer, s₂, hRunServer, hLast⟩ := bind_ok_iff.1 hRest
    obtain ⟨w, hJoined, rfl⟩ := world_iff.1 hLast
    obtain ⟨hClient, hServer⟩ := finds_of_joined ⟨env, upToDate, rfl⟩ hJoined
    obtain ⟨client, ours, rfl⟩ := finds_ok.1 hClient
    obtain ⟨server, theirs, rfl⟩ := finds_ok.1 hServer
    obtain ⟨hClientJar, hServerJar, hClientThere, hServerThere⟩ :=
      found_sides hCareful hVersion hProper hRunClient hRunServer
    have hProper₂ := (((frame_side hCareful hVersion).run hRunServer).2
      (((frame_side hCareful hVersion).run hRunClient).2 hProper).proper).proper
    obtain ⟨rfl, hPublished⟩ := published_of_joined hProper₂ hVersion hClientThere hServerThere
      (hClientJar ▸ placeOf_artifactPath isPlain_id hVersion)
      (hServerJar ▸ placeOf_artifactPath isPlain_id hVersion) hJoined
    exact ⟨joinedFrom_jar, hPublished.jar⟩

theorem frame_base (hCareful : r.downloader.Careful) (hVersion : Path.IsPlain version) :
    Respects (VersionState.Frame (fun _ => True) fun _ => True) (r.baseEnvironment p version) := by
  have hSide : ∀ {p side}, Respects (VersionState.Frame (fun _ => True) fun _ => True)
      (r.sideEnvironment p side version) := (frame_side hCareful hVersion).imp fun h =>
    h.mono (fun _ _ => trivial) fun _ _ => trivial
  have hJoined : ∀ {client server}, Respects (VersionState.Frame (fun _ => True) fun _ => True)
      (liftM (r.joinedEnvironment version client server) : VersionAction (Lookup Environment)) :=
    ((frame_joinedEnvironment hVersion).imp fun h =>
      World.Frame.mono h (fun _ _ => trivial) fun _ _ => trivial).world
  cases p with
  | client =>
    rw [baseEnvironment_of_side (p := .client) rfl]
    exact hSide
  | server =>
    rw [baseEnvironment_of_side (p := .server) rfl]
    exact hSide
  | joined =>
    rw [baseEnvironment_joined]
    exact hSide.bind fun _ => hSide.bind fun _ => hJoined

/-- A platform that is up to date changes no jar. -/
theorem frame_base_upToDate (hCareful : r.downloader.Careful) (hVersion : Path.IsPlain version)
    (h : (r.baseEnvironment p version).run.run s = (.ok (.found env true), s')) :
    VersionState.Frame noJar noJar s s' := by
  cases p with
  | client =>
    rw [baseEnvironment_of_side (p := .client) rfl] at h
    exact frame_side_upToDate hCareful hVersion h
  | server =>
    rw [baseEnvironment_of_side (p := .server) rfl] at h
    exact frame_side_upToDate hCareful hVersion h
  | joined =>
    rw [baseEnvironment_joined] at h
    obtain ⟨foundClient, s₁, hRunClient, hRest⟩ := bind_ok_iff.1 h
    obtain ⟨foundServer, s₂, hRunServer, hLast⟩ := bind_ok_iff.1 hRest
    obtain ⟨w, hJoined, rfl⟩ := world_iff.1 hLast
    obtain ⟨hClient, hServer⟩ := finds_of_joined ⟨env, true, rfl⟩ hJoined
    obtain ⟨client, ours, rfl⟩ := finds_ok.1 hClient
    obtain ⟨server, theirs, rfl⟩ := finds_ok.1 hServer
    rw [joinedEnvironment_found] at hJoined
    obtain ⟨hInputs, hWritten⟩ := frame_refresh_upToDate hJoined
    obtain ⟨rfl, rfl⟩ := Bool.and_eq_true_iff.1 hInputs
    have hEnd : VersionState.Frame noJar noJar s₂ { s₂ with world := w } :=
      hWritten.mono (fun _ hq => noJar_of_suffix hq rfl (by decide)) nofun
    exact trans_of (VersionState.Frame noJar noJar) (frame_side_upToDate hCareful hVersion hRunClient)
      (trans_of (VersionState.Frame noJar noJar) (frame_side_upToDate hCareful hVersion hRunServer)
        hEnd)

/-- The steps behind a modified environment that is found. -/
theorem found_modified (hSome : modifiers ≠ [])
    (h : (r.requestEnvironment p version modifiers).run.run s = (.ok (.found env upToDate), s')) :
    ∃ artifact t base wasThere s₁ w, (Modifier.decorate p.id modifiers).run.run s.world.store =
        (.ok artifact, t) ∧
      (r.baseEnvironment p version).run.run { s with world := { s.world with store := t } } =
        (.ok (.found base wasThere), s₁) ∧
      (r.modifiedEnvironment artifact version modifiers (.found base wasThere)).run.run s₁.world =
        (.ok (.found env upToDate), w) ∧ { s₁ with world := w } = s' := by
  obtain ⟨hNot, -⟩ | ⟨artifact, t, q₁, s₁, hName, hBase, hRest⟩ := run_requestModified hSome h
  · exact absurd ⟨env, upToDate, rfl⟩ hNot
  obtain ⟨hNot, -⟩ | ⟨base, q₂, w, rfl, hModified, rfl, hq⟩ := hRest
  · exact absurd ⟨env, upToDate, rfl⟩ hNot
  obtain rfl : q₂ = .ok (.found env upToDate) := by
    cases q₂ with
    | error e => cases hq
    | ok found => exact hq.symm
  obtain ⟨base, wasThere, rfl⟩ := finds_ok.1 (finds_of_modified ⟨env, upToDate, rfl⟩ hModified)
  exact ⟨artifact, t, base, wasThere, s₁, w, hName, hBase, hModified, rfl⟩

/-- Naming an artifact changes no jar. -/
theorem frame_decorate_noJar (hOrderly : Modifier.Orderly p modifiers) {t : Store}
    {q : Result String} (h : (Modifier.decorate p.id modifiers).run.run s.world.store = (q, t)) :
    VersionState.Frame noJar noJar s { s with world := { s.world with store := t } } :=
  ⟨rfl, ((Modifier.frame_decorate hOrderly.considerate).run h).mono nofun nofun⟩

/-- The modified jar that is found is there, and tells the name of the artifact. -/
theorem found_request (hCareful : r.downloader.Careful) (hVersion : Path.IsPlain version)
    (hOrderly : Modifier.Orderly p modifiers) (hSome : modifiers ≠ [])
    (hProper : s.world.store.IsProper)
    (h : (r.requestEnvironment p version modifiers).run.run s = (.ok (.found env upToDate), s')) :
    env.jar = artifactPath (r.rootFor modifiers) env.artifact version ∧
      s'.world.store.isFile env.jar = true ∧
      ∃ files, (Modifier.decorate p.id modifiers).run.run s.world.store =
        (.ok env.artifact, files) := by
  obtain ⟨artifact, t, base, wasThere, s₁, w, hName, hBase, hModified, rfl⟩ := found_modified hSome h
  have hProper₁ := ((frame_decorate_noJar hOrderly hName).2 hProper).proper
  obtain ⟨hJar, hThere⟩ := found_base hCareful hVersion
    (s := { s with world := { s.world with store := t } }) hProper₁ hBase
  have hProper₂ := (((frame_base hCareful hVersion).run hBase).2 hProper₁).proper
  obtain ⟨rfl, hPublished⟩ := published_of_modified hCareful hOrderly.considerate hProper₂
    (hOrderly.plain hName) hVersion hThere (hJar ▸ placeOf_artifactPath isPlain_id hVersion) hModified
  exact ⟨modifiedFrom_jar, hPublished.jar, t, hName⟩

/-- **Who finds something up to date changes no jar.** -/
theorem frame_request_upToDate (hCareful : r.downloader.Careful) (hVersion : Path.IsPlain version)
    (hOrderly : Modifier.Orderly p modifiers)
    (h : (r.requestEnvironment p version modifiers).run.run s = (.ok (.found env true), s')) :
    VersionState.Frame noJar noJar s s' := by
  by_cases hSome : modifiers = []
  · subst hSome
    rw [requestEnvironment_nil] at h
    exact frame_base_upToDate hCareful hVersion h
  obtain ⟨artifact, t, base, wasThere, s₁, w, hName, hBase, hModified, rfl⟩ := found_modified hSome h
  rw [modifiedEnvironment_found] at hModified
  obtain ⟨rfl, hWritten⟩ := frame_refresh_upToDate hModified
  have hEnd : VersionState.Frame noJar noJar s₁ { s₁ with world := w } :=
    hWritten.mono (fun _ hq => noJar_of_suffix hq rfl (by decide)) nofun
  exact trans_of (VersionState.Frame noJar noJar) (frame_decorate_noJar hOrderly hName)
    (trans_of (VersionState.Frame noJar noJar) (frame_base_upToDate hCareful hVersion hBase) hEnd)

end Resolver

namespace Product

variable {P : Product} {st t u : Store} {root shared : String}

-- ---------------------------------------------------------------------------
-- Settling
-- ---------------------------------------------------------------------------

/-- The product is served, or nothing is found and the target stays. -/
def Settles (P : Product) (q : Result (Lookup Environment)) (s t : Store) : Prop :=
  s.IsProper → t.IsProper ∧ ((∀ place ∈ P.places, t.fileAt? place = s.fileAt? place) ∨ P.IsFresh t ∨
    (¬ Finds q ∧ t.fileAt? P.target = s.fileAt? P.target))

theorem Settles.renews (h : P.Settles q st t) : P.Renews st t := fun hProper =>
  have ⟨hProper', hSettled⟩ := h hProper
  ⟨hProper', hSettled.elim (fun hSame => .inl (hSame _ List.mem_cons_self))
    fun hRest => hRest.elim .inr fun ⟨_, hKept⟩ => .inl hKept⟩

theorem Settles.serves (h : P.Settles q st t) (hFinds : Finds q) : P.Serves st t := fun hProper =>
  have ⟨hProper', hSettled⟩ := h hProper
  ⟨hProper', hSettled.imp id fun hRest => hRest.resolve_right fun ⟨hNot, _⟩ => hNot hFinds⟩

theorem Rests.settles (h : P.Rests st t) : P.Settles q st t := by
  intro hProper
  obtain ⟨hProper', hSame⟩ := h hProper
  exact ⟨hProper', .inl hSame⟩

theorem Keeps.settles (h : P.Keeps st t) (hNot : ¬ Finds q) : P.Settles q st t := by
  intro hProper
  obtain ⟨hProper', hKept⟩ := h hProper
  exact ⟨hProper', .inr (.inr ⟨hNot, hKept⟩)⟩

/-- What rests is settled by what comes behind. -/
theorem Settles.of_rests (h : P.Rests st t) (h' : P.Settles q t u) : P.Settles q st u := by
  intro hProper
  obtain ⟨hProper₁, hSame⟩ := h hProper
  obtain ⟨hProper₂, hSame' | hFresh | ⟨hNot, hKept⟩⟩ := h' hProper₁
  · exact ⟨hProper₂, .inl fun place hMem => (hSame' place hMem).trans (hSame place hMem)⟩
  · exact ⟨hProper₂, .inr (.inl hFresh)⟩
  · exact ⟨hProper₂, .inr (.inr ⟨hNot, hKept.trans (hSame _ List.mem_cons_self)⟩)⟩

/-- What is settled stays settled as long as it rests. -/
theorem Settles.rests {q' : Result (Lookup Environment)} (h : P.Settles q st t) (h' : P.Rests t u)
    (hFinds : Finds q' → Finds q) : P.Settles q' st u := by
  intro hProper
  obtain ⟨hProper₁, hSettled⟩ := h hProper
  obtain ⟨hProper₂, hSame⟩ := h' hProper₁
  obtain hSame' | hFresh | ⟨hNot, hKept⟩ := hSettled
  · exact ⟨hProper₂, .inl fun place hMem => (hSame place hMem).trans (hSame' place hMem)⟩
  · exact ⟨hProper₂, .inr (.inl (hFresh.congr hSame))⟩
  · exact ⟨hProper₂, .inr (.inr ⟨fun h => hNot (hFinds h), (hSame _ List.mem_cons_self).trans hKept⟩)⟩

/-- Refreshing settles a product if the inputs are only up to date when it rests before. -/
theorem settles_of_refresh {inputs : Bool} (hBefore : P.Keeps st t)
    (hUpToDate : inputs = true → P.Rests st t)
    (hRefresh : t.IsProper → u.IsProper ∧ (P.IsFresh u ∨
      ((∀ place ∈ P.places, u.fileAt? place = t.fileAt? place) ∧
        (inputs = true ∨ ∃ e, q = .error e)))) : P.Settles q st u := by
  intro hProper
  obtain ⟨hProper₁, hKept⟩ := hBefore hProper
  obtain ⟨hProper₂, hFresh | ⟨hSame, hInputs | ⟨e, rfl⟩⟩⟩ := hRefresh hProper₁
  · exact ⟨hProper₂, .inr (.inl hFresh)⟩
  · have hSame' := (hUpToDate hInputs hProper).2
    exact ⟨hProper₂, .inl fun place hMem => (hSame place hMem).trans (hSame' place hMem)⟩
  · exact ⟨hProper₂, .inr (.inr ⟨not_finds_error, (hSame _ List.mem_cons_self).trans hKept⟩)⟩

/-- What changes no jar leaves products alone. -/
theorem rests_of_noJar {dropped : List String → Prop} (h : Store.Frame noJar dropped st t)
    (hJars : ∀ place ∈ P.places, HasSuffix ".jar" place) : P.Rests st t :=
  rests_of_frame h fun place hMem hNot => hNot (hJars place hMem)

-- ---------------------------------------------------------------------------
-- The jar of a side
-- ---------------------------------------------------------------------------

theorem not_inputOf_jarPlace_id {root' : String} :
    ¬ inputOf root p version (jarPlace root' p'.id version') := fun h =>
  downloadArtifact_ne_id (jarPlace_inj (eq_of_inputOf h)).2.1.symm

/-- Who asks for a side settles its jar. -/
theorem settles_side (hCareful : r.downloader.Careful) (hVersion : Path.IsPlain version)
    (h : (r.sideEnvironment p side version).run.run s = (q, s')) :
    (ofSide r.sharedRoot p side version).Settles q s.world.store s'.world.store := by
  have hKeeps : ∀ {q' s₁}, (r.sideInputs p side version).run.run s = (q', s₁) →
      (ofSide r.sharedRoot p side version).Keeps s.world.store s₁.world.store := fun hRun =>
    keeps_of_frame ((frame_sideInputs hCareful hVersion).run hRun).2 not_inputOf_jarPlace_id
  obtain ⟨_, hRun, hNot⟩ | ⟨inputs, wasThere, s₁, w, hRun, hRefresh, rfl⟩ := run_sideEnvironment h
  · exact (hKeeps hRun).settles hNot
  obtain ⟨hPath, hBundle, -⟩ := found_sideInputs hCareful hRun
  refine settles_of_refresh (hKeeps hRun) (fun hUpToDate => ?_)
    (fresh_or_rests_ofSide hVersion (jar_of_sideInputs hRun) hPath hBundle hRefresh)
  subst hUpToDate
  have hDocuments := (frame_sideInputs_upToDate hCareful hVersion hRun).2
  exact rests_of_noJar (hDocuments.mono (fun _ => noJar_of_document) fun _ => id) hasSuffix_ofSide

/-- Who asks for another side or version leaves it alone. -/
theorem rests_side (hCareful : r.downloader.Careful) (hVersion : Path.IsPlain version')
    (hOther : p' = p → version' ≠ version)
    (h : (r.sideEnvironment p' side' version').run.run s = (q, s')) :
    (ofSide r.sharedRoot p side version).Rests s.world.store s'.world.store := by
  refine rests_of_frame ((frame_side hCareful hVersion).run h).2
    (List.forall_mem_cons.2 ⟨?_, List.forall_mem_singleton.2 ?_⟩)
  · rintro (hInput | hMade)
    · exact not_inputOf_jarPlace_id hInput
    · obtain ⟨-, hId, hSame⟩ := jarPlace_inj (eq_of_madeFor hMade)
      exact hOther (id_inj.1 hId).symm hSame.symm
  · rintro (hInput | hMade)
    · obtain ⟨-, hArtifact, hSame⟩ := jarPlace_inj (eq_of_inputOf hInput)
      exact hOther (downloadArtifact_inj.1 hArtifact).symm hSame.symm
    · exact not_madeFor_downloadPlace hMade

theorem rests_joinedEnvironment (hSide : p ≠ .joined) (hVersion : Path.IsPlain version')
    {client server : Lookup Environment}
    (h : (r.joinedEnvironment version' client server).run.run w = (q, w')) :
    (ofSide r.sharedRoot p side version).Rests w.store w'.store := by
  refine rests_of_frame ((frame_joinedEnvironment hVersion).run h).2
    (List.forall_mem_cons.2 ⟨fun hMade => ?_, List.forall_mem_singleton.2 not_madeFor_downloadPlace⟩)
  exact hSide (id_inj.1 (jarPlace_inj (eq_of_madeFor hMade)).2.1)

/-- Who asks for any side leaves it alone or settles it. -/
theorem settles_anySide (hSide : p.side? = some side) (hCareful : r.downloader.Careful)
    (hVersion : Path.IsPlain version') (hSide' : p'.side? = some side')
    (h : (r.sideEnvironment p' side' version').run.run s = (q, s')) :
    (ofSide r.sharedRoot p side version).Settles q s.world.store s'.world.store := by
  by_cases hSame : p' = p ∧ version' = version
  · obtain ⟨rfl, rfl⟩ := hSame
    obtain rfl := Option.some.inj (hSide.symm.trans hSide')
    exact settles_side hCareful hVersion h
  · exact (rests_side hCareful hVersion (not_and.1 hSame) h).settles

theorem settles_base (hSide : p.side? = some side) (hCareful : r.downloader.Careful)
    (hVersion : Path.IsPlain version')
    (h : (r.baseEnvironment p' version').run.run s = (q, s')) :
    (ofSide r.sharedRoot p side version).Settles q s.world.store s'.world.store := by
  have hNotJoined : p ≠ .joined := by
    rintro rfl
    cases hSide
  cases p' with
  | client =>
    rw [baseEnvironment_of_side (p := .client) rfl] at h
    exact settles_anySide hSide hCareful hVersion rfl h
  | server =>
    rw [baseEnvironment_of_side (p := .server) rfl] at h
    exact settles_anySide hSide hCareful hVersion rfl h
  | joined =>
    obtain ⟨q₁, s₁, hClient, hRest⟩ := run_baseJoined h
    have hFirst : (ofSide r.sharedRoot p side version).Settles q₁ s.world.store s₁.world.store :=
      settles_anySide hSide hCareful hVersion rfl hClient
    obtain ⟨hNot, rfl⟩ | ⟨q₂, s₂, hServer, hRest⟩ := hRest
    · exact hFirst.rests (refl_of _ _) fun hFinds => absurd hFinds hNot
    have hSecond : (ofSide r.sharedRoot p side version).Settles q₂ s₁.world.store s₂.world.store :=
      settles_anySide hSide hCareful hVersion rfl hServer
    -- at most one of the two sides is the one in question
    by_cases hp : p = .client
    · have hServerRests : (ofSide r.sharedRoot p side version).Rests s₁.world.store s₂.world.store :=
        rests_side hCareful hVersion (fun hSame => by rw [hp] at hSame; cases hSame) hServer
      obtain ⟨hNot, rfl⟩ | ⟨client, server, w, rfl, rfl, hJoined, rfl⟩ := hRest
      · exact hFirst.rests hServerRests fun hFinds => absurd hFinds hNot
      · exact hFirst.rests
          (trans_of _ hServerRests (rests_joinedEnvironment hNotJoined hVersion hJoined))
          fun hFinds => (finds_of_joined hFinds hJoined).1
    · have hClientRests : (ofSide r.sharedRoot p side version).Rests s.world.store s₁.world.store :=
        rests_side hCareful hVersion (fun hSame => absurd hSame.symm hp) hClient
      obtain ⟨hNot, rfl⟩ | ⟨client, server, w, rfl, rfl, hJoined, rfl⟩ := hRest
      · exact .of_rests hClientRests (hSecond.rests (refl_of _ _) fun hFinds => absurd hFinds hNot)
      · refine .of_rests hClientRests (hSecond.rests ?_ fun hFinds => (finds_of_joined hFinds hJoined).2)
        exact rests_joinedEnvironment hNotJoined hVersion hJoined

/-- Naming an artifact leaves all products alone. -/
theorem rests_decorate (hConsiderate : ∀ m ∈ modifiers, m.Considerate) {files files' : Store}
    {base : String} {q : Result String}
    (h : (Modifier.decorate base modifiers).run.run files = (q, files')) : P.Rests files files' :=
  rests_of_frame ((Modifier.frame_decorate hConsiderate).run h) fun _ _ => id

/-- Modifying a jar leaves the jars of sides alone. -/
theorem rests_modifiedEnvironment (hCareful : r.downloader.Careful)
    (hOrderly : Modifier.Orderly p' modifiers) (hSome : modifiers ≠ [])
    (hVersion : Path.IsPlain version')
    {files files' : Store}
    (hName : (Modifier.decorate p'.id modifiers).run.run files = (.ok artifact, files'))
    {base : Lookup Environment}
    (h : (r.modifiedEnvironment artifact version' modifiers base).run.run w = (q, w')) :
    (ofSide root p side version).Rests w.store w'.store := by
  refine rests_of_frame ((frame_modifiedEnvironment hCareful hOrderly.considerate
    (hOrderly.plain hName) hVersion).run h).2
      (List.forall_mem_cons.2 ⟨fun hMade => ?_, List.forall_mem_singleton.2 fun hMade => ?_⟩)
  · exact Modifier.decorate_ne_id hSome hName (jarPlace_inj (eq_of_modifiedAs hMade)).2.1.symm
  · exact hOrderly.apart hName _ (jarPlace_inj (eq_of_modifiedAs hMade)).2.1.symm

/-- **Whatever is asked for settles the jar of a side**: it is left alone or made anew, unless nothing
is found. -/
theorem settles_request (hSide : p.side? = some side) (hCareful : r.downloader.Careful)
    (hVersion : Path.IsPlain version') (hOrderly : Modifier.Orderly p' modifiers)
    (h : (r.requestEnvironment p' version' modifiers).run.run s = (q, s')) :
    (ofSide r.sharedRoot p side version).Settles q s.world.store s'.world.store := by
  by_cases hSome : modifiers = []
  · subst hSome
    rw [requestEnvironment_nil] at h
    exact settles_base hSide hCareful hVersion h
  obtain ⟨-, t, rfl, rfl | ⟨_, hName⟩⟩ | ⟨artifact, t, q₁, s₁, hName, hBase, hRest⟩ :=
    run_requestModified hSome h
  · exact Rests.settles (refl_of _ _)
  · exact (rests_decorate hOrderly.considerate hName).settles
  have hBase : (ofSide r.sharedRoot p side version).Settles q₁ t s₁.world.store :=
    settles_base hSide hCareful hVersion hBase
  refine .of_rests (rests_decorate hOrderly.considerate hName) ?_
  obtain ⟨hNot, rfl⟩ | ⟨base, q₂, w, rfl, hModified, rfl, rfl⟩ := hRest
  · exact hBase.rests (refl_of _ _) fun hFinds => absurd hFinds hNot
  · exact hBase.rests (rests_modifiedEnvironment hCareful hOrderly hSome hVersion hName hModified)
      fun hFinds => finds_of_modified (finds_mapError.1 hFinds) hModified

-- ---------------------------------------------------------------------------
-- Jars that are kept
-- ---------------------------------------------------------------------------

/-- Asking for a side touches no jar of an artifact but the download and the jar of the side. -/
theorem keeps_side (hCareful : r.downloader.Careful) (hVersion : Path.IsPlain version')
    (hTarget : P.target = jarPlace root artifact version)
    (hDownload : ∀ p, artifact ≠ downloadArtifact p) (hOther : version' = version → artifact ≠ p.id)
    (h : (r.sideEnvironment p side version').run.run s = (q, s')) :
    P.Keeps s.world.store s'.world.store := by
  refine keeps_of_frame ((frame_side hCareful hVersion).run h).2 ?_
  rw [hTarget]
  rintro (hInput | hMade)
  · exact hDownload p (jarPlace_inj (eq_of_inputOf hInput)).2.1
  · obtain ⟨-, hArtifact, hSame⟩ := jarPlace_inj (eq_of_madeFor hMade)
    exact hOther hSame.symm hArtifact

/-- Asking for a platform touches no jars of artifacts but the downloads and jars of platforms. -/
theorem keeps_base (hCareful : r.downloader.Careful) (hVersion : Path.IsPlain version')
    (hTarget : P.target = jarPlace root artifact version)
    (hDownload : ∀ p, artifact ≠ downloadArtifact p)
    (hOther : version' = version → ∀ p : Platform, artifact ≠ p.id)
    (h : (r.baseEnvironment p version').run.run s = (q, s')) :
    P.Keeps s.world.store s'.world.store := by
  have hSide : ∀ {p side s q s'}, (r.sideEnvironment p side version').run.run s = (q, s') →
      P.Keeps s.world.store s'.world.store :=
    keeps_side hCareful hVersion hTarget hDownload fun hSame => hOther hSame _
  cases p with
  | client =>
    rw [baseEnvironment_of_side (p := .client) rfl] at h
    exact hSide h
  | server =>
    rw [baseEnvironment_of_side (p := .server) rfl] at h
    exact hSide h
  | joined =>
    obtain ⟨q₁, s₁, hClient, hRest⟩ := run_baseJoined h
    obtain ⟨-, rfl⟩ | ⟨q₂, s₂, hServer, hRest⟩ := hRest
    · exact hSide hClient
    have hSides := trans_of P.Keeps (hSide hClient) (hSide hServer)
    obtain ⟨-, rfl⟩ | ⟨client, server, w, -, -, hJoined, rfl⟩ := hRest
    · exact hSides
    refine trans_of P.Keeps hSides
      (keeps_of_frame ((frame_joinedEnvironment hVersion).run hJoined).2 ?_)
    rw [hTarget]
    intro hMade
    obtain ⟨-, hArtifact, hSame⟩ := jarPlace_inj (eq_of_madeFor hMade)
    exact hOther hSame.symm .joined hArtifact

-- ---------------------------------------------------------------------------
-- The joined jar
-- ---------------------------------------------------------------------------

/-- Asking for a side keeps the joined jar. -/
theorem joined_keeps_side (hCareful : r.downloader.Careful) (hVersion : Path.IsPlain version')
    (hSide : p ≠ .joined) (h : (r.sideEnvironment p side version').run.run s = (q, s')) :
    (joined root version).Keeps s.world.store s'.world.store :=
  keeps_side hCareful hVersion rfl (fun _ => downloadArtifact_ne_id.symm)
    (fun _ hSame => hSide (id_inj.1 hSame).symm) h

/-- Who asks for both sides settles the joined jar. -/
theorem settles_joined (hCareful : r.downloader.Careful) (hVersion : Path.IsPlain version)
    (h : (r.baseEnvironment .joined version).run.run s = (q, s')) :
    (joined r.sharedRoot version).Settles q s.world.store s'.world.store := by
  obtain ⟨q₁, s₁, hClient, hRest⟩ := run_baseJoined h
  have hFirst : (joined r.sharedRoot version).Keeps s.world.store s₁.world.store :=
    joined_keeps_side (p := .client) hCareful hVersion nofun hClient
  obtain ⟨hNot, rfl⟩ | ⟨q₂, s₂, hServer, hRest⟩ := hRest
  · exact hFirst.settles hNot
  have hSecond : (joined r.sharedRoot version).Keeps s₁.world.store s₂.world.store :=
    joined_keeps_side (p := .server) hCareful hVersion nofun hServer
  have hKeeps := trans_of (joined r.sharedRoot version).Keeps hFirst hSecond
  obtain ⟨hNot, rfl⟩ | ⟨foundClient, foundServer, w, rfl, rfl, hJoined, rfl⟩ := hRest
  · exact hKeeps.settles hNot
  by_cases hFinds : Finds (.ok foundClient) ∧ Finds (.ok foundServer)
  · obtain ⟨client, ours, rfl⟩ := finds_ok.1 hFinds.1
    obtain ⟨server, theirs, rfl⟩ := finds_ok.1 hFinds.2
    intro hProper
    obtain ⟨hClientJar, hServerJar, hClientThere, hServerThere⟩ :=
      found_sides hCareful hVersion hProper hClient hServer
    refine settles_of_refresh hKeeps (fun hUpToDate => ?_) (fresh_or_rests_joined hVersion hClientJar
      hServerJar hClientThere hServerThere hJoined) hProper
    obtain ⟨rfl, rfl⟩ := Bool.and_eq_true_iff.1 hUpToDate
    exact trans_of (joined r.sharedRoot version).Rests
      (rests_of_noJar (frame_side_upToDate hCareful hVersion hClient).2 hasSuffix_joined)
      (rests_of_noJar (frame_side_upToDate hCareful hVersion hServer).2 hasSuffix_joined)
  · -- one of the sides was not found, so nothing is joined
    have hWorld : w = s₂.world := by
      rcases foundClient with _ | ⟨client, ours⟩
      · exact (pure_iff.1 hJoined).2.symm
      rcases foundServer with _ | ⟨server, theirs⟩
      · exact (pure_iff.1 hJoined).2.symm
      · exact absurd ⟨⟨_, _, rfl⟩, _, _, rfl⟩ hFinds
    subst hWorld
    exact hKeeps.settles fun h => hFinds (finds_of_joined h hJoined)

/-- Who asks for a platform leaves the joined jar or makes it anew. -/
theorem renews_base_joined (hCareful : r.downloader.Careful) (hVersion : Path.IsPlain version')
    (h : (r.baseEnvironment p version').run.run s = (q, s')) :
    (joined r.sharedRoot version).Renews s.world.store s'.world.store := by
  by_cases hOwn : p = .joined ∧ version' = version
  · obtain ⟨rfl, rfl⟩ := hOwn
    exact (settles_joined hCareful hVersion h).renews
  by_cases hSame : version' = version
  · have hSide : p ≠ .joined := fun hp => hOwn ⟨hp, hSame⟩
    cases p with
    | client =>
      rw [baseEnvironment_of_side (p := .client) rfl] at h
      exact (joined_keeps_side hCareful hVersion hSide h).renewed
    | server =>
      rw [baseEnvironment_of_side (p := .server) rfl] at h
      exact (joined_keeps_side hCareful hVersion hSide h).renewed
    | joined => exact absurd rfl hSide
  · exact (keeps_base hCareful hVersion rfl (fun _ => downloadArtifact_ne_id.symm)
      (fun h => absurd h hSame) h).renewed

/-- **Whatever is asked for leaves the joined jar or makes it anew.** -/
theorem renews_request_joined (hCareful : r.downloader.Careful) (hVersion : Path.IsPlain version')
    (hOrderly : Modifier.Orderly p modifiers)
    (h : (r.requestEnvironment p version' modifiers).run.run s = (q, s')) :
    (joined r.sharedRoot version).Renews s.world.store s'.world.store := by
  by_cases hSome : modifiers = []
  · subst hSome
    rw [requestEnvironment_nil] at h
    exact renews_base_joined hCareful hVersion h
  obtain ⟨-, t, rfl, rfl | ⟨_, hName⟩⟩ | ⟨artifact, t, q₁, s₁, hName, hBase, hRest⟩ :=
    run_requestModified hSome h
  · exact (refl_of (joined r.sharedRoot version).Keeps _).renewed
  · exact (rests_decorate hOrderly.considerate hName).keeps.renewed
  have hRenews : (joined r.sharedRoot version).Renews t s₁.world.store :=
    renews_base_joined hCareful hVersion hBase
  refine (rests_decorate hOrderly.considerate hName).keeps.renews ?_
  obtain ⟨-, rfl⟩ | ⟨base, q₂, w, rfl, hModified, rfl, rfl⟩ := hRest
  · exact hRenews
  refine hRenews.rests (rests_of_frame ((frame_modifiedEnvironment hCareful hOrderly.considerate
    (hOrderly.plain hName) hVersion).run hModified).2 ?_)
  have hApart : ∀ p : Platform, ¬ modifiedAs (r.rootFor modifiers) artifact version'
      (jarPlace r.sharedRoot p.id version) := fun p hMade =>
    Modifier.decorate_ne_id hSome hName (jarPlace_inj (eq_of_modifiedAs hMade)).2.1.symm
  exact List.forall_mem_cons.2 ⟨hApart .joined, List.forall_mem_cons.2 ⟨hApart .client,
    List.forall_mem_singleton.2 (hApart .server)⟩⟩

/-- Who finds the joined jar serves it. -/
theorem serves_request_joined (hCareful : r.downloader.Careful) (hVersion : Path.IsPlain version')
    (hOrderly : Modifier.Orderly p modifiers) (hProper : s.world.store.IsProper)
    (h : (r.requestEnvironment p version' modifiers).run.run s = (.ok (.found env upToDate), s'))
    (hJar : placeOf env.jar = (joined r.sharedRoot version).target) :
    (joined r.sharedRoot version).Serves s.world.store s'.world.store := by
  by_cases hSome : modifiers = []
  · subst hSome
    rw [requestEnvironment_nil] at h
    obtain ⟨hPath, -⟩ := found_base hCareful hVersion hProper h
    rw [hPath, placeOf_artifactPath isPlain_id hVersion] at hJar
    obtain ⟨-, hId, rfl⟩ := jarPlace_inj hJar
    obtain rfl := id_inj.1 hId
    exact (settles_joined hCareful hVersion h).serves ⟨env, upToDate, rfl⟩
  · obtain ⟨hPath, -, files, hName⟩ := found_request hCareful hVersion hOrderly hSome hProper h
    rw [hPath, placeOf_artifactPath (hOrderly.plain hName) hVersion] at hJar
    exact absurd (jarPlace_inj hJar).2.1 (Modifier.decorate_ne_id hSome hName)

-- ---------------------------------------------------------------------------
-- Modified jars
-- ---------------------------------------------------------------------------

theorem modified_congr {root' : String}
    (h : jarPlace root artifact version = jarPlace root' artifact version) :
    modified root shared artifact p version = modified root' shared artifact p version := by
  rw [modified, h, ← modified]

/-- Who modifies the jar of a platform settles the jar of the artifact. -/
theorem settles_modified (hCareful : r.downloader.Careful) (hVersion : Path.IsPlain version)
    (hOrderly : Modifier.Orderly p modifiers) (hSome : modifiers ≠ []) {files files' : Store}
    (hName : (Modifier.decorate p.id modifiers).run.run files = (.ok artifact, files'))
    {found : Lookup Environment}
    (hBase : (r.baseEnvironment p version).run.run s = (.ok found, s'))
    (hModified : (r.modifiedEnvironment artifact version modifiers found).run.run s'.world = (q, w)) :
    (modified (r.rootFor modifiers) r.sharedRoot artifact p version).Settles q s.world.store
      w.store := by
  have hKeeps : (modified (r.rootFor modifiers) r.sharedRoot artifact p version).Keeps
      s.world.store s'.world.store :=
    keeps_base hCareful hVersion rfl (hOrderly.apart hName)
      (fun _ _ => Modifier.decorate_ne_id hSome hName) hBase
  rcases found with _ | ⟨base, wasThere⟩
  · obtain ⟨rfl, rfl⟩ := pure_iff.1 hModified
    exact hKeeps.settles fun ⟨_, _, hq⟩ => nomatch hq
  intro hProper
  obtain ⟨hJar, hThere⟩ := found_base hCareful hVersion hProper hBase
  refine settles_of_refresh hKeeps (fun hUpToDate => ?_) (fresh_or_rests_modified hCareful hOrderly
    hSome hVersion hName hJar hThere hModified) hProper
  subst hUpToDate
  exact rests_of_noJar (frame_base_upToDate hCareful hVersion hBase).2 hasSuffix_modified

/-- **Whatever is asked for leaves a modified jar or makes it anew**, if modifiers named it. -/
theorem renews_request_modified {named : List Modifier} {files files' : Store}
    (hCareful : r.downloader.Careful) (hNamedOrderly : Modifier.Orderly p named)
    (hNamedSome : named ≠ [])
    (hNamed : (Modifier.decorate p.id named).run.run files = (.ok artifact, files'))
    (hVersion : Path.IsPlain version') (hOrderly : Modifier.Orderly p' modifiers)
    (h : (r.requestEnvironment p' version' modifiers).run.run s = (q, s')) :
    (modified root r.sharedRoot artifact p version).Renews s.world.store s'.world.store := by
  have hBaseKeeps : ∀ {s q s'}, (r.baseEnvironment p' version').run.run s = (q, s') →
      (modified root r.sharedRoot artifact p version).Keeps s.world.store s'.world.store :=
    keeps_base hCareful hVersion rfl (hNamedOrderly.apart hNamed)
      (fun _ _ => Modifier.decorate_ne_id hNamedSome hNamed)
  by_cases hSome : modifiers = []
  · subst hSome
    rw [requestEnvironment_nil] at h
    exact (hBaseKeeps h).renewed
  obtain ⟨-, t, rfl, rfl | ⟨_, hName⟩⟩ | ⟨artifact', t, q₁, s₁, hName, hBase, hRest⟩ :=
    run_requestModified hSome h
  · exact (refl_of (modified root r.sharedRoot artifact p version).Keeps _).renewed
  · exact (rests_decorate hOrderly.considerate hName).keeps.renewed
  refine (rests_decorate hOrderly.considerate hName).keeps.renews ?_
  obtain ⟨-, rfl⟩ | ⟨base, q₂, w, rfl, hModified, rfl, rfl⟩ := hRest
  · exact (hBaseKeeps hBase).renewed
  by_cases hTarget : jarPlace root artifact version =
      jarPlace (r.rootFor modifiers) artifact' version'
  · -- the artifact tells the platform, so this makes the same product
    obtain ⟨-, rfl, rfl⟩ := jarPlace_inj hTarget
    obtain rfl := Modifier.id_of_decorate hNamedSome hSome hNamed hName
    rw [modified_congr hTarget]
    exact (settles_modified hCareful hVersion hOrderly hSome hName hBase hModified).renews
  · refine (trans_of (modified root r.sharedRoot artifact p version).Keeps (hBaseKeeps hBase)
      (keeps_of_frame ((frame_modifiedEnvironment hCareful hOrderly.considerate
        (hOrderly.plain hName) hVersion).run hModified).2 fun hMade => ?_)).renewed
    exact hTarget (eq_of_modifiedAs hMade)

/-- Who finds a modified jar serves it. -/
theorem serves_request_modified {named : List Modifier} {files files' : Store}
    (hCareful : r.downloader.Careful) (hNamedSome : named ≠ [])
    (hNamed : (Modifier.decorate p.id named).run.run files = (.ok artifact, files'))
    (hVersion : Path.IsPlain version') (hOrderly : Modifier.Orderly p' modifiers)
    (hProper : s.world.store.IsProper)
    (h : (r.requestEnvironment p' version' modifiers).run.run s = (.ok (.found env upToDate), s'))
    (hJar : placeOf env.jar = (modified root r.sharedRoot artifact p version).target) :
    (modified root r.sharedRoot artifact p version).Serves s.world.store s'.world.store := by
  by_cases hSome : modifiers = []
  · subst hSome
    rw [requestEnvironment_nil] at h
    obtain ⟨hPath, -⟩ := found_base hCareful hVersion hProper h
    rw [hPath, placeOf_artifactPath isPlain_id hVersion] at hJar
    exact absurd (jarPlace_inj hJar).2.1.symm (Modifier.decorate_ne_id hNamedSome hNamed)
  obtain ⟨hPath, -, named', hName'⟩ := found_request hCareful hVersion hOrderly hSome hProper h
  obtain ⟨artifact', t, base, wasThere, s₁, w, hName, hBase, hModified, rfl⟩ := found_modified hSome h
  obtain ⟨hSame, -⟩ := Prod.mk.inj (hName'.symm.trans hName)
  obtain rfl := Except.ok.inj hSame
  rw [hPath, placeOf_artifactPath (hOrderly.plain hName) hVersion] at hJar
  obtain ⟨-, rfl, rfl⟩ := jarPlace_inj hJar
  obtain rfl := Modifier.id_of_decorate hSome hNamedSome hName hNamed
  rw [modified_congr hJar.symm]
  have hServes := (settles_modified hCareful hVersion hOrderly hSome hName hBase hModified).serves
    ⟨env, upToDate, rfl⟩
  exact trans_of (modified (r.rootFor modifiers) r.sharedRoot env.artifact p' version').Serves
    (rests_decorate hOrderly.considerate hName).serves hServes

end Product

end Jarsmith
