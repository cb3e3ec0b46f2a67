import Jarsmith.Proofs.Downloader
import Jarsmith.Proofs.OrderedMap
import Jarsmith.Proofs.Resolver.Places

/-!
# Documents about versions

What fetching the documents about a version touches, and that the same descriptor is found again for
as long as nothing outside changes and its documents stay in the cache.

* `VersionRepository.frame_descriptor` — the documents about a version are all that is touched.
* `VersionRepository.Settled` — a text was found, and what it depends on has stayed since.
* `VersionRepository.Known` — the descriptor of a version is settled;
  `VersionRepository.known_of_descriptor` and `VersionRepository.Known.descriptor`.
-/

namespace Jarsmith

open Downloader Running Store Resolver

variable {α : Type} {touched dropped : List String → Prop} {w w' w₁ w₂ : World}

-- ---------------------------------------------------------------------------
-- Worlds of a repository
-- ---------------------------------------------------------------------------

/-- What happens to the world of a repository. -/
abbrev VersionState.Frame (touched dropped : List String → Prop) :
    VersionState → VersionState → Prop :=
  InvImage (World.Frame touched dropped) (·.world)

/-- A computation on the world, as one of a repository. -/
theorem Running.world_iff {x : Action α} {s s' : VersionState} {r : Result α} :
    (liftM x : VersionAction α).run.run s = (r, s') ↔
      ∃ w, x.run.run s.world = (r, w) ∧ { s with world := w } = s' := onPart_iff

theorem Respects.world {x : Action α} (hx : Respects (World.Frame touched dropped) x) :
    Respects (VersionState.Frame touched dropped) (liftM x : VersionAction α) :=
  hx.onPart fun _ _ => rfl

namespace VersionRepository

variable {r : VersionRepository} {url path text version version' : String} {sha1 : Option String}
  {s s' : VersionState} {upToDate : Bool} {m : VersionManifest} {v : VersionDescriptor}

-- ---------------------------------------------------------------------------
-- Footprints
-- ---------------------------------------------------------------------------

/-- The place of a document in the cache. -/
def place (r : VersionRepository) (path : String) : List String :=
  placeOf (Path.join r.downloader.root path)

theorem frame_text {found : Lookup String} :
    Respects (Store.Frame touched dropped) (Downloader.text found) := by
  cases found with
  | notFound => exact .pure
  | found path upToDate => exact FileAction.frame_readText.bind fun _ => .pure

theorem frame_fetchText (hCareful : r.downloader.Careful) :
    Respects (World.Frame (· = r.place path) (· = r.place path)) (r.fetchText url path sha1) := by
  cases sha1 with
  | none => exact (hCareful.frame_fetch _ _).bind fun _ => frame_text.files
  | some sha1 => exact (hCareful.frame_fetchValid _ _ _ _).bind fun _ => frame_text.files

theorem frame_cache : Respects (VersionState.Frame touched dropped) cache :=
  .bind .get fun _ => .pure

theorem frame_remember {f : VersionCache → VersionCache} :
    Respects (VersionState.Frame touched dropped) (remember f) where
  run {s q t} h := by
    cases h
    exact refl_of (World.Frame touched dropped) s.world

theorem frame_manifest (hCareful : r.downloader.Careful) :
    Respects (VersionState.Frame (· = r.place manifestPath) (· = r.place manifestPath))
      r.manifest := by
  refine frame_cache.bind fun known => ?_
  split
  · exact .pure
  · exact (frame_fetchText hCareful).world.bind fun _ =>
      .bind .liftExcept fun _ => frame_remember.bind fun _ => .pure

theorem frame_fetchDescriptor (hCareful : r.downloader.Careful) {reference : VersionReference} :
    Respects (VersionState.Frame (· = r.place (descriptorPath version))
      (· = r.place (descriptorPath version))) (r.fetchDescriptor version reference) := by
  refine (frame_fetchText hCareful).world.bind fun found => ?_
  cases found with
  | notFound => exact .throw
  | found text upToDate =>
    exact .bind .liftExcept fun _ => frame_remember.bind fun _ => .pure

/-- The documents about a version. -/
def isDocument (root version : String) (p : List String) : Prop :=
  p = manifestPlace root ∨ p = descriptorPlace root version

/-- Asking for a version touches the documents about it. -/
theorem frame_descriptor (hCareful : r.downloader.Careful) (hVersion : Path.IsPlain version) :
    Respects (VersionState.Frame (isDocument r.downloader.root version)
      (isDocument r.downloader.root version)) (r.descriptor version) := by
  have hManifest : ∀ p, p = r.place manifestPath → isDocument r.downloader.root version p :=
    fun p hp => .inl (hp.trans placeOf_manifestPath)
  have hDescriptor : ∀ p, p = r.place (descriptorPath version) →
      isDocument r.downloader.root version p :=
    fun p hp => .inr (hp.trans (placeOf_descriptorPath hVersion))
  refine frame_cache.bind fun known => ?_
  split
  · exact .pure
  · refine .bind ((frame_manifest hCareful).imp fun h => h.mono hManifest hManifest) fun found => ?_
    cases found with
    | notFound => exact .pure
    | found manifest upToDate =>
      dsimp only
      split
      · exact (frame_fetchDescriptor hCareful).imp fun h => h.mono hDescriptor hDescriptor
      · exact .pure

-- ---------------------------------------------------------------------------
-- Texts that stay
-- ---------------------------------------------------------------------------

/-- Nothing that a document at `place` depends on has changed from `w` to `w'`. -/
structure Stays (place : List String) (w w' : World) : Prop where
  remote : w'.remote = w.remote
  directories : ∀ p, w.store.node? p = some .directory → w'.store.node? p = some .directory
  file : w'.store.fileAt? place = w.store.fileAt? place

theorem Stays.refl {place : List String} : Stays place w w := ⟨rfl, fun _ h => h, rfl⟩

theorem Stays.trans {place : List String} (h : Stays place w w₁) (h' : Stays place w₁ w₂) :
    Stays place w w₂ :=
  ⟨h'.remote.trans h.remote, fun p hp => h'.directories p (h.directories p hp),
    h'.file.trans h.file⟩

/-- What is not touched stays. -/
theorem Stays.of_frame {place : List String} (h : World.Frame touched dropped w w')
    (hProper : w.store.IsProper) (hPlace : ¬ touched place) : Stays place w w' :=
  have hWithin := h.2 hProper
  ⟨h.1, hWithin.directories, hWithin.elsewhere _ hPlace⟩

/-- A text was found, and what it depends on has stayed since. -/
def Settled (r : VersionRepository) (url path : String) (sha1 : Option String) (text : String)
    (w : World) : Prop :=
  ∃ w₀ w₁ upToDate, (r.fetchText url path sha1).run.run w₀ = (.ok (.found text upToDate), w₁) ∧
    Stays (r.place path) w₁ w

theorem Settled.stays (h : r.Settled url path sha1 text w) (hStays : Stays (r.place path) w w') :
    r.Settled url path sha1 text w' :=
  let ⟨w₀, w₁, upToDate, hRun, hFirst⟩ := h
  ⟨w₀, w₁, upToDate, hRun, hFirst.trans hStays⟩

/-- Files that are the same make any footprint. -/
theorem frame_of_sameFiles {touched' dropped' : List String → Prop}
    (h : World.Frame touched dropped w w') (hFiles : SameFiles w.store w'.store) :
    World.Frame touched' dropped' w w' :=
  ⟨h.1, fun hProper =>
    have hWithin := h.2 hProper
    .of_sameFiles hWithin.proper hWithin.directories hFiles⟩

/-- The text of a file that was found. -/
theorem run_text {t : Store} {found : Lookup String} {st : Store}
    (h : (Downloader.text found).run.run st = (.ok (.found text upToDate), t)) :
    t = st ∧ ∃ path content, found = .found path upToDate ∧ st.content path = .ok content ∧
      Utf8.decode? content.bytes = some text := by
  cases found with
  | notFound => cases (pure_iff.1 h).1
  | found path wasThere =>
    obtain ⟨_, _, hRead, h⟩ := bind_ok_iff.1 h
    obtain ⟨hFound, rfl⟩ := pure_iff.1 h
    cases hFound
    obtain ⟨content, _, hLook, h⟩ := bind_ok_iff.1 hRead
    obtain ⟨hContent, rfl⟩ := FileAction.run_look.1 hLook
    split at h
    · rename_i hText
      obtain ⟨hSame, rfl⟩ := pure_iff.1 h
      cases hSame
      exact ⟨rfl, path, content, rfl, Outcome.mapError_ok_iff.1 hContent, hText⟩
    · cases (throw_iff.1 h).1

theorem text_of_content {st : Store} {content : Content} (hContent : st.content path = .ok content)
    (hText : Utf8.decode? content.bytes = some text) :
    (Downloader.text (.found path upToDate)).run.run st = (.ok (.found text upToDate), st) := by
  have hRead : (FileAction.read path).run.run st = (.ok content, st) :=
    FileAction.run_look.2 ⟨by rw [hContent]; rfl, rfl⟩
  have hReadText : (FileAction.readText path).run.run st = (.ok text, st) := by
    rw [FileAction.readText, bind_of_ok hRead, hText]
    exact pure_iff.2 ⟨rfl, rfl⟩
  exact (bind_of_ok hReadText).2 (pure_iff.2 ⟨rfl, rfl⟩)

/-- **A settled text is found again**, and no file changes. -/
theorem Settled.again (hSteady : r.downloader.Steady) (hProper : w.store.IsProper)
    (h : r.Settled url path sha1 text w) :
    ∃ upToDate w', (r.fetchText url path sha1).run.run w = (.ok (.found text upToDate), w') ∧
      World.Frame touched dropped w w' := by
  obtain ⟨w₀, w₁, upToDate, hRun, hStays⟩ := h
  have hSuffices : ∀ {again w'}, (r.fetchText url path sha1).run.run w =
      (.ok (.found text again), w') → SameFiles w.store w'.store →
        ∃ upToDate w', (r.fetchText url path sha1).run.run w = (.ok (.found text upToDate), w') ∧
          World.Frame touched dropped w w' := fun hAgain hFiles =>
    ⟨_, _, hAgain, frame_of_sameFiles ((frame_fetchText hSteady.toCareful).run hAgain) hFiles⟩
  cases sha1 with
  | none =>
    obtain ⟨found, w₂, hFetch, hLift⟩ := bind_ok_iff.1 hRun
    obtain ⟨st, hText, rfl⟩ := files_iff.1 hLift
    obtain ⟨rfl, target, content, rfl, hRead, hDecode⟩ := run_text hText
    obtain rfl := hSteady.eq_of_fetch hFetch
    obtain ⟨again, w₃, hAgain, hFiles⟩ :=
      hSteady.fetch_again hFetch hStays.remote hStays.directories hStays.file
    have hWithin := ((hSteady.frame_fetch _ _).run hAgain).2 hProper
    have hStill := content_of_same hStays.directories hStays.file hRead
    have hRead := content_of_same hWithin.directories (hFiles _) hStill
    exact hSuffices ((bind_of_ok hAgain).2
      (files_iff.2 ⟨_, text_of_content hRead hDecode, rfl⟩)) hFiles
  | some sha1 =>
    obtain ⟨found, w₂, hFetch, hLift⟩ := bind_ok_iff.1 hRun
    obtain ⟨st, hText, rfl⟩ := files_iff.1 hLift
    obtain ⟨rfl, target, content, rfl, hRead, hDecode⟩ := run_text hText
    obtain ⟨rfl, found, hFound, hValid⟩ := hSteady.valid_of_fetchValid hFetch
    have hDigest : HasDigest w.store (Path.join r.downloader.root path) .sha1 sha1 :=
      ⟨found, content_of_same hStays.directories hStays.file hFound, hValid⟩
    have hStill := content_of_same hStays.directories hStays.file hRead
    exact hSuffices ((bind_of_ok (hSteady.fetchValid_of_there hDigest)).2
      (files_iff.2 ⟨_, text_of_content hStill hDecode, rfl⟩)) fun _ => rfl

-- ---------------------------------------------------------------------------
-- Descriptors that stay
-- ---------------------------------------------------------------------------

/-- The manifest and the descriptor of a version are settled. -/
structure Known (r : VersionRepository) (m : VersionManifest) (version : String)
    (v : VersionDescriptor) (w : World) : Prop where
  manifest : ∃ text, r.Settled r.manifestUrl manifestPath none text w ∧
    VersionManifest.parse? text = some m
  descriptor : ∃ reference text, m.find? version = some reference ∧
    r.Settled reference.url (descriptorPath version) reference.sha1 text w ∧
      VersionDescriptor.parse? text = some v

theorem Known.stays (h : r.Known m version v w) (hManifest : Stays (r.place manifestPath) w w')
    (hDescriptor : Stays (r.place (descriptorPath version)) w w') : r.Known m version v w' where
  manifest := let ⟨text, hSettled, hParse⟩ := h.manifest
    ⟨text, hSettled.stays hManifest, hParse⟩
  descriptor := let ⟨reference, text, hFind, hSettled, hParse⟩ := h.descriptor
    ⟨reference, text, hFind, hSettled.stays hDescriptor, hParse⟩

theorem Known.frame (h : r.Known m version v w) (hVersion : Path.IsPlain version)
    (hFrame : World.Frame touched dropped w w') (hProper : w.store.IsProper)
    (hManifest : ¬ touched (manifestPlace r.downloader.root))
    (hDescriptor : ¬ touched (descriptorPlace r.downloader.root version)) :
    r.Known m version v w' :=
  h.stays (.of_frame hFrame hProper (by rwa [place, placeOf_manifestPath]))
    (.of_frame hFrame hProper (by rwa [place, placeOf_descriptorPath hVersion]))

/-- What a repository keeps agrees with a manifest and the descriptor of a version; no descriptor
was injected. -/
structure Agrees (m : VersionManifest) (version : String) (v : VersionDescriptor)
    (c : VersionCache) : Prop where
  manifest : ∀ found, c.manifest = some found → ∃ upToDate, found = .found m upToDate
  fetched : ∀ other, c.fetched.get? version = some other → other = v
  injected : ∀ id, c.injected.get? id = none

theorem agrees_empty : Agrees m version v .empty where
  manifest _ hFound := nomatch hFound
  fetched _ hFound := nomatch (OrderedMap.get?_empty _).symm.trans hFound
  injected id := OrderedMap.get?_empty id

theorem Agrees.insert {c : VersionCache} (h : Agrees m version v c) {other : VersionDescriptor}
    (hSame : version' = version → other = v) :
    Agrees m version v { c with fetched := c.fetched.insert version' other } where
  manifest := h.manifest
  injected := h.injected
  fetched found hFound := by
    rw [OrderedMap.get?_insert] at hFound
    split at hFound
    · rename_i hKey
      exact (Option.some.inj hFound).symm.trans (hSame hKey)
    · exact h.fetched found hFound

theorem document_eq_ok {parsed : Option α} {a : α} : document parsed = .ok a ↔ parsed = some a := by
  cases parsed <;> simp [document]

theorem mapM_eq_ok {β ε : Type} {f : α → Except ε β} {found : Lookup α} {b : β} :
    found.mapM f = .ok (.found b upToDate) ↔ ∃ a, found = .found a upToDate ∧ f a = .ok b := by
  cases found with
  | notFound => exact iff_of_false nofun nofun
  | found a wasThere =>
    show (f a >>= fun b => pure (Lookup.found b wasThere)) = _ ↔ _
    rw [Outcome.bind_ok_iff]
    constructor
    · rintro ⟨_, hf, hFound⟩
      cases hFound
      exact ⟨a, rfl, hf⟩
    · rintro ⟨_, hFound, hf⟩
      cases hFound
      exact ⟨b, hf, rfl⟩

theorem run_cache : cache.run.run s = (.ok s.cache, s) := rfl

/-- **A known manifest is found again.** -/
theorem Known.run_manifest (hSteady : r.downloader.Steady) (hProper : s.world.store.IsProper)
    (h : r.Known m version v s.world) (hAgrees : Agrees m version v s.cache) :
    ∃ upToDate s', r.manifest.run.run s = (.ok (.found m upToDate), s') ∧
      VersionState.Frame touched dropped s s' ∧ Agrees m version v s'.cache := by
  rw [VersionRepository.manifest]
  cases hKept : s.cache.manifest with
  | some found =>
    obtain ⟨upToDate, rfl⟩ := hAgrees.manifest found hKept
    refine ⟨upToDate, s, (bind_of_ok run_cache).2 ?_, refl_of _ s, hAgrees⟩
    rw [hKept]
    exact pure_iff.2 ⟨rfl, rfl⟩
  | none =>
    obtain ⟨text, hSettled, hParse⟩ := h.manifest
    obtain ⟨upToDate, w', hRun, hFrame⟩ := hSettled.again hSteady hProper
    refine ⟨upToDate, ⟨w', { s.cache with manifest := some (.found m upToDate) }⟩,
      (bind_of_ok run_cache).2 ?_, hFrame, ⟨fun found hFound => ?_, hAgrees.fetched,
        hAgrees.injected⟩⟩
    · rw [hKept]
      refine (bind_of_ok (world_iff.2 ⟨w', hRun, rfl⟩)).2 ?_
      have hFound : (Lookup.found text upToDate).mapM (fun text =>
          document (VersionManifest.parse? text)) = .ok (.found m upToDate) :=
        mapM_eq_ok.2 ⟨text, rfl, document_eq_ok.2 hParse⟩
      rw [hFound]
      rfl
    · cases hFound
      exact ⟨upToDate, rfl⟩

/-- **A known descriptor is found again**, and no file changes. -/
theorem Known.run_descriptor (hSteady : r.downloader.Steady) (hProper : s.world.store.IsProper)
    (hVersion : Path.IsPlain version) (h : r.Known m version v s.world)
    (hAgrees : Agrees m version v s.cache) :
    ∃ upToDate s', (r.descriptor version).run.run s = (.ok (.found v upToDate), s') ∧
      VersionState.Frame touched dropped s s' ∧ Agrees m version v s'.cache := by
  rw [VersionRepository.descriptor]
  cases hKept : s.cache.fetched.get? version with
  | some other =>
    obtain rfl := hAgrees.fetched other hKept
    refine ⟨true, s, (bind_of_ok run_cache).2 ?_, refl_of _ s, hAgrees⟩
    rw [hAgrees.injected, hKept]
    exact pure_iff.2 ⟨rfl, rfl⟩
  | none =>
    obtain ⟨_, s₁, hManifest, hFrame, hAgrees₁⟩ := h.run_manifest hSteady hProper hAgrees
    have hFrame : VersionState.Frame (fun _ => False) (fun _ => False) s s₁ := hFrame
    have hProper₁ := (hFrame.2 hProper).proper
    obtain ⟨reference, text, hFind, hSettled, hParse⟩ :=
      (h.frame hVersion hFrame hProper id id).descriptor
    obtain ⟨upToDate, w', hRun, hFrame'⟩ := hSettled.again hSteady hProper₁
    refine ⟨upToDate, ⟨w', { s₁.cache with fetched := s₁.cache.fetched.insert version v }⟩,
      (bind_of_ok run_cache).2 ?_,
      trans_of (World.Frame touched dropped) (hFrame.mono nofun nofun) hFrame',
      hAgrees₁.insert fun _ => rfl⟩
    rw [hAgrees.injected, hKept]
    refine (bind_of_ok hManifest).2 ?_
    dsimp only
    rw [hFind]
    refine (bind_of_ok (world_iff.2 ⟨w', hRun, rfl⟩)).2 ?_
    dsimp only
    rw [document_eq_ok.2 hParse]
    rfl

/-- What is kept about other versions does not matter. -/
theorem agrees_fetchDescriptor {reference : VersionReference} (hNe : version' ≠ version)
    (hAgrees : Agrees m version v s.cache) {q : Result (Lookup VersionDescriptor)}
    (hRun : (r.fetchDescriptor version' reference).run.run s = (q, s')) :
    Agrees m version v s'.cache := by
  obtain ⟨_, hFetch, -⟩ | ⟨found, s₁, hFetch, hRun⟩ := bind_iff.1 hRun
  · obtain ⟨_, -, rfl⟩ := world_iff.1 hFetch
    exact hAgrees
  · obtain ⟨w, -, rfl⟩ := world_iff.1 hFetch
    cases found with
    | notFound =>
      obtain ⟨-, rfl⟩ := throw_iff.1 hRun
      exact hAgrees
    | found text upToDate =>
      obtain ⟨_, hParse, -⟩ | ⟨other, _, hParse, hRun⟩ := bind_iff.1 hRun
      · obtain ⟨-, rfl⟩ := liftExcept_iff.1 hParse
        exact hAgrees
      · obtain ⟨-, rfl⟩ := liftExcept_iff.1 hParse
        cases hRun
        exact hAgrees.insert fun hSame => absurd hSame hNe

/-- Asking for another version touches only the descriptor of that version. -/
theorem Known.frame_other (hSteady : r.downloader.Steady) (hProper : s.world.store.IsProper)
    (hVersion' : Path.IsPlain version') (hNe : version' ≠ version)
    (h : r.Known m version v s.world) (hAgrees : Agrees m version v s.cache)
    {q : Result (Lookup VersionDescriptor)} (hRun : (r.descriptor version').run.run s = (q, s')) :
    VersionState.Frame (· = descriptorPlace r.downloader.root version')
        (· = descriptorPlace r.downloader.root version') s s' ∧
      Agrees m version v s'.cache := by
  rw [VersionRepository.descriptor, bind_of_ok run_cache] at hRun
  split at hRun
  · obtain ⟨-, rfl⟩ := pure_iff.1 hRun
    exact ⟨refl_of _ s, hAgrees⟩
  · obtain ⟨_, s₁, hManifest, hSame, hAgrees₁⟩ := h.run_manifest hSteady hProper hAgrees
    have hFrame : VersionState.Frame (· = descriptorPlace r.downloader.root version')
      (· = descriptorPlace r.downloader.root version') s s₁ := hSame
    rw [bind_of_ok hManifest] at hRun
    dsimp only at hRun
    split at hRun
    · have hPlace : r.place (descriptorPath version') = descriptorPlace r.downloader.root version' :=
        placeOf_descriptorPath hVersion'
      have hFetch := (frame_fetchDescriptor hSteady.toCareful).run hRun
      rw [hPlace] at hFetch
      exact ⟨trans_of (VersionState.Frame _ _) hFrame hFetch, agrees_fetchDescriptor hNe hAgrees₁ hRun⟩
    · obtain ⟨-, rfl⟩ := pure_iff.1 hRun
      exact ⟨hFrame, hAgrees₁⟩

theorem settled_of_fetchText
    (hRun : (r.fetchText url path sha1).run.run w = (.ok (.found text upToDate), w')) :
    r.Settled url path sha1 text w' := ⟨w, w', upToDate, hRun, .refl⟩

theorem settled_of_manifest (hNone : s.cache.manifest = none)
    (hRun : r.manifest.run.run s = (.ok (.found m upToDate), s')) :
    (∃ text, r.Settled r.manifestUrl manifestPath none text s'.world ∧
      VersionManifest.parse? text = some m) ∧
        s'.cache = { s.cache with manifest := some (.found m upToDate) } := by
  rw [VersionRepository.manifest, bind_of_ok run_cache, hNone] at hRun
  obtain ⟨found, _, hFetch, hRun⟩ := bind_ok_iff.1 hRun
  obtain ⟨w, hText, rfl⟩ := world_iff.1 hFetch
  obtain ⟨_, _, hLift, hRun⟩ := bind_ok_iff.1 hRun
  obtain ⟨hParse, rfl⟩ := liftExcept_iff.1 hLift
  cases hRun
  obtain ⟨text, rfl, hDocument⟩ := mapM_eq_ok.1 hParse
  exact ⟨⟨text, settled_of_fetchText hText, document_eq_ok.1 hDocument⟩, rfl⟩

theorem settled_of_fetchDescriptor {reference : VersionReference}
    (hRun : (r.fetchDescriptor version reference).run.run s = (.ok (.found v upToDate), s')) :
    (∃ text, r.Settled reference.url (descriptorPath version) reference.sha1 text s'.world ∧
      VersionDescriptor.parse? text = some v) ∧
        s'.cache = { s.cache with fetched := s.cache.fetched.insert version v } := by
  obtain ⟨found, _, hFetch, hRun⟩ := bind_ok_iff.1 hRun
  obtain ⟨w, hText, rfl⟩ := world_iff.1 hFetch
  cases found with
  | notFound => cases (throw_iff.1 hRun).1
  | found text wasThere =>
    obtain ⟨_, _, hLift, hRun⟩ := bind_ok_iff.1 hRun
    obtain ⟨hParse, rfl⟩ := liftExcept_iff.1 hLift
    cases hRun
    exact ⟨⟨text, settled_of_fetchText hText, document_eq_ok.1 hParse⟩, rfl⟩

/-- **A descriptor that was found is known**, if nothing was known before. -/
theorem known_of_descriptor (hCareful : r.downloader.Careful) (hProper : s.world.store.IsProper)
    (hVersion : Path.IsPlain version) (hEmpty : s.cache = .empty)
    (hRun : (r.descriptor version).run.run s = (.ok (.found v upToDate), s')) :
    ∃ m, r.Known m version v s'.world ∧ Agrees m version v s'.cache := by
  have hNothing : (s.cache.injected.get? version).or (s.cache.fetched.get? version) = none := by
    rw [hEmpty]
    rfl
  rw [VersionRepository.descriptor, bind_of_ok run_cache, hNothing] at hRun
  obtain ⟨found, s₁, hManifest, hRun⟩ := bind_ok_iff.1 hRun
  have hProper₁ := (((frame_manifest hCareful).run hManifest).2 hProper).proper
  cases found with
  | notFound => cases (pure_iff.1 hRun).1
  | found m wasThere =>
    obtain ⟨⟨text, hSettled, hParse⟩, hCache₁⟩ :=
      settled_of_manifest (by rw [hEmpty]; rfl) hManifest
    dsimp only at hRun
    split at hRun
    · rename_i reference hFind
      -- fetching the descriptor leaves the manifest
      have hFrame := (frame_fetchDescriptor hCareful).run hRun
      have hApart : ¬ r.place manifestPath = r.place (descriptorPath version) := by
        rw [place, placeOf_manifestPath, place, placeOf_descriptorPath hVersion]
        exact manifestPlace_ne_descriptorPlace
      obtain ⟨⟨text', hSettled', hParse'⟩, hCache⟩ := settled_of_fetchDescriptor hRun
      refine ⟨m, ⟨⟨text, hSettled.stays (.of_frame hFrame hProper₁ hApart), hParse⟩,
        reference, text', hFind, hSettled', hParse'⟩, ?_⟩
      have hAgrees : Agrees m version v s₁.cache := by
        have hNothing : Agrees m version v .empty := agrees_empty
        rw [hCache₁, hEmpty]
        refine ⟨fun found hFound => ?_, hNothing.fetched, hNothing.injected⟩
        cases hFound
        exact ⟨wasThere, rfl⟩
      rw [hCache]
      exact hAgrees.insert fun _ => rfl
    · cases (pure_iff.1 hRun).1

end VersionRepository

end Jarsmith
