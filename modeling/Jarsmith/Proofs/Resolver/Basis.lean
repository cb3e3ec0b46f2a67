import Jarsmith.Proofs.Resolver.Fresh
import Jarsmith.Proofs.Resolver.Stages

/-!
# What environments rest on

The environment of a request rests on the documents about its version and on the downloads of its
sides. Whatever else is asked of resolvers with the same repository leaves both as they are, and
deletes no jar of an artifact.

* `Resolver.Basis` — a version with its descriptor, and the platforms whose downloads are there.
* `Resolver.Basis.Frame` — what keeps a basis; an asking for any environment does
  (`Resolver.Basis.frame_requestEnvironment`).
-/

namespace Jarsmith.Resolver

open Downloader Running Store

variable {α : Type} {touched dropped : List String → Prop} {q : List String} {p p' : Platform}
  {side : Side} {version version' artifact root : String} {modifiers : List Modifier}
  {w w' : World} {s s' : VersionState} {r r' : Resolver}

-- ---------------------------------------------------------------------------
-- Bases
-- ---------------------------------------------------------------------------

/-- A version with its descriptor, and platforms whose downloads matter. -/
structure Basis where
  manifest : VersionManifest
  version : String
  descriptor : VersionDescriptor
  platforms : List Platform
  plain : Path.IsPlain version

namespace Basis

variable {b : Basis}

/-- The places of the documents and downloads of a basis. -/
def protects (b : Basis) (root : String) (q : List String) : Prop :=
  VersionRepository.isDocument root b.version q ∨
    ∃ p ∈ b.platforms, q = downloadPlace root p b.version

/-- The download of a platform is there as the descriptor names it. -/
def HasDownload (b : Basis) (root : String) (p : Platform) (s : Store) : Prop :=
  ∃ side download, p.side? = some side ∧ b.descriptor.download? side.jarDownload = some download ∧
    HasDigest s (Path.join root (downloadPath p b.version)) .sha1 download.sha1

/-- The documents and downloads of a basis are in the cache, and what is known agrees with them. -/
structure Holds (b : Basis) (r : Resolver) (s : VersionState) : Prop where
  proper : s.world.store.IsProper
  known : r.repository.Known b.manifest b.version b.descriptor s.world
  agrees : VersionRepository.Agrees b.manifest b.version b.descriptor s.cache
  downloads : ∀ p ∈ b.platforms, b.HasDownload r.sharedRoot p s.world.store

/-- Where files may be deleted: not at module descriptors, and not at jars of artifacts that are no
downloads. -/
def removable (q : List String) : Prop :=
  ¬ HasSuffix "-vg2.xml" q ∧
    ∀ root artifact version, q = jarPlace root artifact version → ∃ p, artifact = downloadArtifact p

/-- What keeps a basis, the jars of artifacts and module descriptors. -/
def WorldFrame (b : Basis) (root : String) : World → World → Prop :=
  World.Frame (fun q => ¬ b.protects root q) removable

instance : IsPreorder World (b.WorldFrame root) :=
  inferInstanceAs (IsPreorder World (World.Frame _ _))

/-- What happens to a state in which a basis holds: the basis is kept. -/
def Frame (b : Basis) (r : Resolver) (s s' : VersionState) : Prop :=
  b.Holds r s → b.WorldFrame r.sharedRoot s.world s'.world ∧
    VersionRepository.Agrees b.manifest b.version b.descriptor s'.cache

theorem hasDigest_of_frame {path digest : String} {a : HashAlgorithm}
    (hFrame : World.Frame touched dropped w w') (hProper : w.store.IsProper)
    (hPlace : ¬ touched (placeOf path)) (h : HasDigest w.store path a digest) :
    HasDigest w'.store path a digest :=
  have hWithin := hFrame.2 hProper
  let ⟨content, hContent, hValid⟩ := h
  ⟨content, content_of_same hWithin.directories (hWithin.elsewhere _ hPlace) hContent, hValid⟩

theorem Holds.of_frame (h : b.Holds r s) (hFrame : b.WorldFrame r.sharedRoot s.world s'.world)
    (hAgrees : VersionRepository.Agrees b.manifest b.version b.descriptor s'.cache) :
    b.Holds r s' where
  proper := (hFrame.2 h.proper).proper
  agrees := hAgrees
  known := h.known.frame b.plain hFrame h.proper (fun hNot => hNot (.inl (.inl rfl)))
    fun hNot => hNot (.inl (.inr rfl))
  downloads p hMem := by
    obtain ⟨side, download, hSide, hDownload, hDigest⟩ := h.downloads p hMem
    refine ⟨side, download, hSide, hDownload, hasDigest_of_frame hFrame h.proper ?_ hDigest⟩
    exact fun hNot => hNot (.inr ⟨p, hMem, placeOf_downloadPath b.plain⟩)

instance : IsPreorder VersionState (b.Frame r) where
  refl _ h := ⟨refl_of _ _, h.agrees⟩
  trans _ _ _ h h' hHolds :=
    have hFirst := h hHolds
    have hSecond := h' (hHolds.of_frame hFirst.1 hFirst.2)
    ⟨trans_of (b.WorldFrame r.sharedRoot) hFirst.1 hSecond.1, hSecond.2⟩

/-- A computation on the world that touches nothing of a basis keeps it. -/
theorem frame_world {x : Action α} (hx : Respects (b.WorldFrame r.sharedRoot) x) :
    Respects (b.Frame r) (liftM x : VersionAction α) where
  run h hHolds := by
    obtain ⟨w, hRun, rfl⟩ := world_iff.1 h
    exact ⟨hx.run hRun, hHolds.agrees⟩

/-- Nothing happens: every file stays, and what is known still agrees. -/
def Idle (b : Basis) (s s' : VersionState) : Prop :=
  VersionState.Frame (fun _ => False) (fun _ => False) s s' ∧
    VersionRepository.Agrees b.manifest b.version b.descriptor s'.cache

theorem worldFrame_of_idle (h : World.Frame (fun _ => False) (fun _ => False) w w') :
    b.WorldFrame root w w' :=
  World.Frame.mono h nofun nofun

theorem Idle.trans {s₁ : VersionState} (h : b.Idle s s₁) (h' : b.Idle s₁ s') : b.Idle s s' :=
  ⟨trans_of (VersionState.Frame _ _) h.1 h'.1, h'.2⟩

theorem Holds.idle (h : b.Holds r s) (hIdle : b.Idle s s') : b.Holds r s' :=
  h.of_frame (worldFrame_of_idle hIdle.1) hIdle.2

/-- The descriptor of a basis is found again. -/
theorem Holds.run_descriptor (hSteady : r.downloader.Steady) (h : b.Holds r s) :
    ∃ upToDate s', (r.repository.descriptor b.version).run.run s =
      (.ok (.found b.descriptor upToDate), s') ∧ b.Idle s s' :=
  h.known.run_descriptor hSteady h.proper b.plain h.agrees

-- ---------------------------------------------------------------------------
-- Inputs of sides
-- ---------------------------------------------------------------------------

theorem removable_document (h : VersionRepository.isDocument root version q) : removable q := by
  have hJson : HasSuffix ".json" q := by
    obtain rfl | rfl := h
    · exact hasSuffix_manifestPlace
    · exact hasSuffix_descriptorPlace
  refine ⟨hJson.not_hasSuffix rfl rfl (by decide), ?_⟩
  rintro root' artifact version' rfl
  exact absurd hJson (not_hasSuffix_jarPlace rfl (by decide))

theorem removable_downloadPlace : removable (downloadPlace root p version) := by
  refine ⟨not_hasSuffix_jarPlace rfl (by decide), fun root' artifact version' hSame => ⟨p, ?_⟩⟩
  exact (jarPlace_inj hSame).2.1.symm

/-- A descriptor that is asked for is that of the basis, or one of another version. -/
theorem run_descriptor (hSteady : r.downloader.Steady) (hVersion : Path.IsPlain version')
    (hHolds : b.Holds r s) {found : Result (Lookup VersionDescriptor)}
    (h : (r.repository.descriptor version').run.run s = (found, s')) :
    b.WorldFrame r.sharedRoot s.world s'.world ∧
      VersionRepository.Agrees b.manifest b.version b.descriptor s'.cache ∧
        ∀ v upToDate, found = .ok (.found v upToDate) → version' = b.version → v = b.descriptor := by
  by_cases hSame : version' = b.version
  · subst hSame
    obtain ⟨upToDate, s₁, hRun, hIdle⟩ := hHolds.run_descriptor hSteady
    obtain ⟨rfl, rfl⟩ := Prod.mk.inj (hRun.symm.trans h)
    refine ⟨worldFrame_of_idle hIdle.1, hIdle.2, fun v upToDate hFound _ => ?_⟩
    cases hFound
    rfl
  · obtain ⟨hFrame, hAgrees⟩ :=
      hHolds.known.frame_other hSteady hHolds.proper hVersion hSame hHolds.agrees h
    refine ⟨World.Frame.mono hFrame ?_ ?_, hAgrees, fun _ _ _ hVersion => absurd hVersion hSame⟩
    · rintro q rfl ((hManifest | hDescriptor) | ⟨p, -, hDownload⟩)
      · exact manifestPlace_ne_descriptorPlace hManifest.symm
      · exact hSame (descriptorPlace_inj.1 hDescriptor)
      · exact not_hasSuffix_jarPlace (c := 'n') rfl (by decide)
          (hDownload ▸ hasSuffix_descriptorPlace : HasSuffix ".json" (downloadPlace _ p _))
    · exact fun q hq => removable_document (.inr hq)

/-- A download is left alone if it is one of the basis, and touches nothing of it otherwise. -/
theorem frame_download (hSteady : r.downloader.Steady) (hVersion : Path.IsPlain version')
    (hSide : p'.side? = some side) {v : VersionDescriptor} {download : Download}
    (hSame : version' = b.version → v = b.descriptor)
    (hDownload : v.download? side.jarDownload = some download) :
    Respects (b.Frame r) (liftM (r.downloader.downloadValid download.url (downloadPath p' version')
      .sha1 download.sha1) : VersionAction (Lookup String)) where
  run {s found s'} h hHolds := by
    obtain ⟨w, hRun, rfl⟩ := world_iff.1 h
    refine ⟨?_, hHolds.agrees⟩
    by_cases hGuarded : version' = b.version ∧ p' ∈ b.platforms
    · obtain ⟨hSameVersion, hMem⟩ := hGuarded
      obtain ⟨side', download', hSide', hDownload', hDigest⟩ := hHolds.downloads p' hMem
      obtain rfl := Option.some.inj (hSide.symm.trans hSide')
      rw [← hSame hSameVersion, hDownload] at hDownload'
      obtain rfl := Option.some.inj hDownload'
      rw [← hSameVersion] at hDigest
      have hThere : (r.downloader.downloadValid download.url (downloadPath p' version') .sha1
          download.sha1).run.run s.world =
            (.ok (.found (Path.join r.sharedRoot (downloadPath p' version')) true), s.world) :=
        hSteady.fetchValid_of_there hDigest
      obtain ⟨-, rfl⟩ := Prod.mk.inj (hThere.symm.trans hRun)
      exact refl_of (b.WorldFrame r.sharedRoot) s.world
    · have hFetch : World.Frame (· = placeOf (Path.join r.sharedRoot (downloadPath p' version')))
          (· = placeOf (Path.join r.sharedRoot (downloadPath p' version'))) s.world w :=
        (hSteady.frame_fetchValid download.url _ .sha1 download.sha1).run hRun
      rw [placeOf_downloadPath hVersion] at hFetch
      refine World.Frame.mono hFetch ?_ fun q hq => hq ▸ removable_downloadPlace
      rintro q rfl (hDocument | ⟨p, hMem, hPlace⟩)
      · exact not_isDocument_jarPlace hDocument
      · obtain ⟨-, hArtifact, hSameVersion⟩ := jarPlace_inj hPlace
        exact hGuarded ⟨hSameVersion, downloadArtifact_inj.1 hArtifact ▸ hMem⟩

theorem frame_inputsOf (hSteady : r.downloader.Steady) (hVersion : Path.IsPlain version')
    (hSide : p'.side? = some side) {v : VersionDescriptor}
    (hSame : version' = b.version → v = b.descriptor) :
    Respects (b.Frame r) (r.inputsOf p' side version' v) := by
  unfold inputsOf
  cases hDownload : v.download? side.jarDownload with
  | none => exact .pure
  | some download =>
    refine .bind (frame_download hSteady hVersion hSide hSame hDownload).during fun fetched => ?_
    rcases fetched with _ | ⟨downloaded, upToDate⟩
    · exact .pure
    · exact .bind (frame_world frame_bundle.files).during fun _ => .bind .liftExcept fun _ => .pure

/-- The inputs of sides only depend on the repository. -/
theorem sideInputs_congr (hRepository : r'.repository = r.repository) :
    r'.sideInputs p side version = r.sideInputs p side version := by
  have hDownloader : r'.downloader = r.downloader := congrArg (·.downloader) hRepository
  unfold sideInputs inputsOf sharedRoot
  rw [hRepository, hDownloader]

/-- Getting the inputs of any side keeps a basis. -/
theorem frame_sideInputs (hSteady : r.downloader.Steady) (hVersion : Path.IsPlain version')
    (hSide : p'.side? = some side) : Respects (b.Frame r) (r.sideInputs p' side version') where
  run {s q s'} h hHolds := by
    obtain ⟨e, hFirst, -⟩ | ⟨found, s₁, hFirst, h⟩ := bind_iff.1 h
    · obtain ⟨_, hDescriptor, -⟩ := during_iff.1 hFirst
      obtain ⟨hFrame, hAgrees, -⟩ := run_descriptor hSteady hVersion hHolds hDescriptor
      exact ⟨hFrame, hAgrees⟩
    obtain ⟨hFrame, hAgrees, hSame⟩ :=
      run_descriptor hSteady hVersion hHolds (during_ok_iff.1 hFirst)
    have hFirstStep : b.Frame r s s₁ := fun _ => ⟨hFrame, hAgrees⟩
    rcases found with _ | ⟨v, wasThere⟩
    · obtain ⟨-, rfl⟩ := pure_iff.1 h
      exact hFirstStep hHolds
    · have hRest := frame_inputsOf hSteady hVersion hSide (hSame v wasThere rfl)
      exact trans_of (b.Frame r) hFirstStep (hRest.run h) hHolds

-- ---------------------------------------------------------------------------
-- Whole environments
-- ---------------------------------------------------------------------------

/-- Files that end in other ways are not those of a basis. -/
theorem not_protects {suffix : String} {c : Char} (hSuffix : HasSuffix suffix q)
    (hLast : suffix.toList.getLast? = some c) (hJson : c ≠ 'n') (hJar : c ≠ 'r') :
    ¬ b.protects root q := by
  rintro ((rfl | rfl) | ⟨p, -, rfl⟩)
  · exact hSuffix.not_hasSuffix hLast rfl hJson hasSuffix_manifestPlace
  · exact hSuffix.not_hasSuffix hLast rfl hJson hasSuffix_descriptorPlace
  · exact hSuffix.not_hasSuffix hLast rfl hJar hasSuffix_jarPlace

theorem not_protects_jarPlace {root' : String} (hArtifact : ∀ p, artifact ≠ downloadArtifact p) :
    ¬ b.protects root (jarPlace root' artifact version) := by
  rintro (hDocument | ⟨p, -, hPlace⟩)
  · exact not_isDocument_jarPlace hDocument
  · exact hArtifact p (jarPlace_inj hPlace).2.1

theorem removable_of_suffix {suffix : String} {c : Char} (hSuffix : HasSuffix suffix q)
    (hLast : suffix.toList.getLast? = some c) (hXml : c ≠ 'l') (hJar : c ≠ 'r') : removable q :=
  ⟨hSuffix.not_hasSuffix hLast rfl hXml, by
    rintro root artifact version rfl
    exact absurd hSuffix (not_hasSuffix_jarPlace hLast hJar)⟩

/-- Making the jar of a platform keeps a basis. -/
theorem worldFrame_of_made
    (h : World.Frame (madeFor root p version) (clearedFor root p version) w w') :
    b.WorldFrame root w w' := by
  refine h.mono (fun q hq => ?_) fun q hq => ?_
  · obtain rfl | hDerived | hTmp | hXml := hq
    · exact not_protects_jarPlace fun p => downloadArtifact_ne_id.symm
    · have hJar := hasSuffix_of_derivedFrom hDerived
      rintro ((rfl | rfl) | ⟨p, -, rfl⟩)
      · exact hJar.not_hasSuffix rfl rfl (by decide) hasSuffix_manifestPlace
      · exact hJar.not_hasSuffix rfl rfl (by decide) hasSuffix_descriptorPlace
      · exact not_derivedFrom_jarPlace hDerived
    · exact not_protects hTmp rfl (by decide) (by decide)
    · exact not_protects hXml rfl (by decide) (by decide)
  · obtain hDerived | hTmp := hq
    · refine ⟨(hasSuffix_of_derivedFrom hDerived).not_hasSuffix rfl rfl (by decide), ?_⟩
      rintro root' artifact version' rfl
      exact absurd hDerived not_derivedFrom_jarPlace
    · exact removable_of_suffix hTmp rfl (by decide) (by decide)

/-- Modifying a jar keeps a basis. -/
theorem worldFrame_of_modified {root' : String} (hArtifact : ∀ p, artifact ≠ downloadArtifact p)
    (h : World.Frame (modifiedAs root' artifact version) (HasSuffix "-mappings.txt") w w') :
    b.WorldFrame root w w' := by
  refine h.mono (fun q hq => ?_) fun q hq => removable_of_suffix hq rfl (by decide) (by decide)
  obtain rfl | hXml | hNames := hq
  · exact not_protects_jarPlace hArtifact
  · exact not_protects hXml rfl (by decide) (by decide)
  · exact not_protects hNames rfl (by decide) (by decide)

variable (hSteady : r.downloader.Steady) (hRepository : r'.repository = r.repository)
  (hVersion : Path.IsPlain version')

include hSteady hRepository hVersion

theorem frame_sideEnvironment (hSide : p'.side? = some side) :
    Respects (b.Frame r) (r'.sideEnvironment p' side version') := by
  rw [sideEnvironment_eq, sideInputs_congr hRepository]
  refine (frame_sideInputs hSteady hVersion hSide).bind_of_run fun {_ found _} hRun => ?_
  rcases found with _ | ⟨inputs, upToDate⟩
  · exact .pure
  · exact frame_world ((frame_refresh (frame_makeSide hVersion (jar_of_sideInputs hRun))
      fun _ hq => .inr (.inr (.inr hq))).imp worldFrame_of_made)

theorem frame_baseEnvironment : Respects (b.Frame r) (r'.baseEnvironment p' version') := by
  unfold baseEnvironment
  split
  · rename_i hSide
    exact frame_sideEnvironment hSteady hRepository hVersion hSide
  · have hRoot : r'.sharedRoot = r.sharedRoot := congrArg (·.downloader.root) hRepository
    refine .bind (frame_sideEnvironment hSteady hRepository hVersion rfl) fun _ =>
      .bind (frame_sideEnvironment hSteady hRepository hVersion rfl) fun _ => frame_world ?_
    exact (hRoot ▸ frame_joinedEnvironment hVersion).imp worldFrame_of_made

/-- **Whatever is asked keeps a basis**, the jars of artifacts and module descriptors. -/
theorem frame_requestEnvironment (hOrderly : Modifier.Orderly p' modifiers) :
    Respects (b.Frame r) (r'.requestEnvironment p' version' modifiers) := by
  have hDownloader : r'.downloader = r.downloader := congrArg (·.downloader) hRepository
  have hCareful : r'.downloader.Careful := hDownloader ▸ hSteady.toCareful
  have hBase : Respects (b.Frame r) (r'.baseEnvironment p' version') :=
    frame_baseEnvironment hSteady hRepository hVersion
  refine .bind .liftExcept fun _ => ?_
  split
  · exact hBase
  · have hDecorate : Respects (b.Frame r)
        (liftM (Modifier.decorate p'.id modifiers) : VersionAction String) :=
      frame_world ((Modifier.frame_decorate hOrderly.considerate).files.imp fun h =>
        World.Frame.mono h nofun nofun)
    refine hDecorate.bind_of_run fun {_ artifact _} hRun => .during (hBase.bind fun base => ?_)
    obtain ⟨_, hLifted, -⟩ := world_iff.1 hRun
    obtain ⟨_, hName, -⟩ := files_iff.1 hLifted
    exact frame_world ((frame_modifiedEnvironment hCareful hOrderly.considerate
      (hOrderly.plain hName) hVersion).imp (worldFrame_of_modified (hOrderly.apart hName)))

end Basis

end Jarsmith.Resolver
