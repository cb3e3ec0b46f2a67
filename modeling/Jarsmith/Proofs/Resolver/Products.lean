import Jarsmith.Proofs.Resolver.Stages

/-!
# Products

Jars that are made from other jars, by the places of the cache. A product is fresh if it is what its
sources make now.

* `Product.IsFresh` — what stands at the target is made from what stands at the sources.
* `Product.LeavesBehind` — the target stays as it is although a source changes.
* `Product.Sound` — the target is fresh if it is there; `Product.Sound.of_renews` keeps this.
* `Product.renews_refresh` — refreshing the jar of an environment makes the product anew, or leaves it
  and its sources alone.
* `Product.ofSide`, `Product.joined`, `Product.modified` — the jars that a resolver makes.
-/

namespace Jarsmith

open Downloader Running Store Resolver

/-- Something that is made from the files at some places. -/
structure Product where
  target : List String
  sources : List (List String)
  /-- Whether contents of the sources, as far as they are there, make a content of the target. -/
  Makes : List (Option Content) → Content → Prop

namespace Product

variable {P : Product} {s t u : Store} {touched dropped : List String → Prop} {w w' : World}
  {r : Resolver} {env : Environment} {inputs : Bool} {make : Action Unit}

/-- The places of a product and its sources. -/
def places (P : Product) : List (List String) := P.target :: P.sources

/-- The target holds what the sources make. -/
def IsFresh (P : Product) (s : Store) : Prop :=
  ∃ made, s.fileAt? P.target = some made ∧ P.Makes (P.sources.map s.fileAt?) made

/-- The target is fresh if it is there. -/
def Sound (P : Product) (s : Store) : Prop := s.fileAt? P.target ≠ none → P.IsFresh s

/-- The target stays as it is although a source changes. -/
def LeavesBehind (P : Product) (s t : Store) : Prop :=
  s.fileAt? P.target ≠ none ∧ t.fileAt? P.target = s.fileAt? P.target ∧
    ∃ q ∈ P.sources, t.fileAt? q ≠ s.fileAt? q

-- ---------------------------------------------------------------------------
-- What can happen to a product
-- ---------------------------------------------------------------------------

/-- The target and the sources stay. -/
def Rests (P : Product) (s t : Store) : Prop :=
  s.IsProper → t.IsProper ∧ ∀ q ∈ P.places, t.fileAt? q = s.fileAt? q

/-- The target stays. -/
def Keeps (P : Product) (s t : Store) : Prop :=
  s.IsProper → t.IsProper ∧ t.fileAt? P.target = s.fileAt? P.target

/-- The target stays, or is fresh behind. -/
def Renews (P : Product) (s t : Store) : Prop :=
  s.IsProper → t.IsProper ∧ (t.fileAt? P.target = s.fileAt? P.target ∨ P.IsFresh t)

/-- The target and the sources stay, or the target is fresh behind. -/
def Serves (P : Product) (s t : Store) : Prop :=
  s.IsProper → t.IsProper ∧ ((∀ q ∈ P.places, t.fileAt? q = s.fileAt? q) ∨ P.IsFresh t)

theorem IsFresh.congr (h : P.IsFresh s) (hSame : ∀ q ∈ P.places, t.fileAt? q = s.fileAt? q) :
    P.IsFresh t := by
  obtain ⟨hTarget, hSources⟩ := List.forall_mem_cons.1 hSame
  obtain ⟨made, hMade, hMakes⟩ := h
  refine ⟨made, hTarget.trans hMade, ?_⟩
  rwa [List.map_congr_left hSources]

instance : IsPreorder Store P.Rests where
  refl _ hProper := ⟨hProper, fun _ _ => rfl⟩
  trans _ _ _ h h' hProper :=
    have ⟨hProper, hSame⟩ := h hProper
    have ⟨hProper', hSame'⟩ := h' hProper
    ⟨hProper', fun q hMem => (hSame' q hMem).trans (hSame q hMem)⟩

instance : IsPreorder Store P.Keeps where
  refl _ hProper := ⟨hProper, rfl⟩
  trans _ _ _ h h' hProper :=
    have ⟨hProper, hSame⟩ := h hProper
    have ⟨hProper', hSame'⟩ := h' hProper
    ⟨hProper', hSame'.trans hSame⟩

instance : IsPreorder Store P.Serves where
  refl _ hProper := ⟨hProper, .inl fun _ _ => rfl⟩
  trans _ _ _ h h' hProper := by
    obtain ⟨hProper, hFirst⟩ := h hProper
    obtain ⟨hProper', hSame' | hFresh⟩ := h' hProper
    · obtain hSame | hFresh := hFirst
      · exact ⟨hProper', .inl fun q hMem => (hSame' q hMem).trans (hSame q hMem)⟩
      · exact ⟨hProper', .inr (hFresh.congr hSame')⟩
    · exact ⟨hProper', .inr hFresh⟩

theorem Rests.keeps (h : P.Rests s t) : P.Keeps s t := fun hProper =>
  have ⟨hProper', hSame⟩ := h hProper
  ⟨hProper', hSame _ List.mem_cons_self⟩

theorem Rests.serves (h : P.Rests s t) : P.Serves s t := fun hProper =>
  have ⟨hProper', hSame⟩ := h hProper
  ⟨hProper', .inl hSame⟩

theorem Serves.renews (h : P.Serves s t) : P.Renews s t := fun hProper =>
  have ⟨hProper', hServed⟩ := h hProper
  ⟨hProper', hServed.imp (fun hSame => hSame _ List.mem_cons_self) id⟩

theorem Keeps.renewed (h : P.Keeps s t) : P.Renews s t := fun hProper =>
  have ⟨hProper', hSame⟩ := h hProper
  ⟨hProper', .inl hSame⟩

theorem Keeps.renews (h : P.Keeps s t) (h' : P.Renews t u) : P.Renews s u := fun hProper =>
  have ⟨hProper', hSame⟩ := h hProper
  have ⟨hProper'', hRenewed⟩ := h' hProper'
  ⟨hProper'', hRenewed.imp (·.trans hSame) id⟩

theorem Renews.rests (h : P.Renews s t) (h' : P.Rests t u) : P.Renews s u := fun hProper =>
  have ⟨hProper', hRenewed⟩ := h hProper
  have ⟨hProper'', hSame⟩ := h' hProper'
  ⟨hProper'', hRenewed.imp ((hSame _ List.mem_cons_self).trans ·) (·.congr hSame)⟩

theorem rests_of_frame (h : Store.Frame touched dropped s t)
    (hApart : ∀ q ∈ P.places, ¬ touched q) : P.Rests s t := fun hProper =>
  have hWithin := h hProper
  ⟨hWithin.proper, fun q hMem => hWithin.elsewhere q (hApart q hMem)⟩

theorem keeps_of_frame (h : Store.Frame touched dropped s t) (hApart : ¬ touched P.target) :
    P.Keeps s t := fun hProper =>
  have hWithin := h hProper
  ⟨hWithin.proper, hWithin.elsewhere _ hApart⟩

/-- **What is made anew or stays is sound**, unless it is left behind. -/
theorem Sound.of_renews (h : P.Sound s) (hProper : s.IsProper) (hRenews : P.Renews s t)
    (hBehind : ¬ P.LeavesBehind s t) : P.Sound t := by
  intro hThere
  obtain ⟨-, hKept | hFresh⟩ := hRenews hProper
  · have hThere : s.fileAt? P.target ≠ none := hKept ▸ hThere
    refine (h hThere).congr (List.forall_mem_cons.2 ⟨hKept, fun q hMem => ?_⟩)
    by_contra hChanged
    exact hBehind ⟨hThere, hKept, q, hMem, hChanged⟩
  · exact hFresh

theorem Sound.of_serves (h : P.Sound s) (hProper : s.IsProper) (hServes : P.Serves s t) :
    P.Sound t := by
  intro hThere
  obtain ⟨-, hSame | hFresh⟩ := hServes hProper
  · exact (h (hSame _ List.mem_cons_self ▸ hThere)).congr hSame
  · exact hFresh

-- ---------------------------------------------------------------------------
-- Refreshing
-- ---------------------------------------------------------------------------

theorem not_hasSuffix_places (hJars : ∀ q ∈ P.places, HasSuffix ".jar" q) {suffix : String}
    {c : Char} (hLast : suffix.toList.getLast? = some c) (hNe : c ≠ 'r') :
    ∀ q ∈ P.places, ¬ HasSuffix suffix q := fun q hMem =>
  (hJars q hMem).not_hasSuffix rfl hLast hNe.symm

theorem rests_writeMetadata (hJars : ∀ q ∈ P.places, HasSuffix ".jar" q) {upToDate : Bool} :
    Respects P.Rests (writeMetadata env upToDate) :=
  frame_writeMetadata.imp fun h => rests_of_frame h (not_hasSuffix_places hJars rfl (by decide))

/-- **Refreshing makes a product, or leaves it and its sources alone.** The latter only happens when
the inputs are up to date or the making fails. -/
theorem fresh_or_rests_of_refresh (hJars : ∀ q ∈ P.places, HasSuffix ".jar" q)
    (hFails : ∀ {e w₁}, make.run.run w = (.error e, w₁) → P.Rests w.store w₁.store)
    (hMakes : ∀ {w₁}, make.run.run w = (.ok (), w₁) →
      w.store.IsProper → w₁.store.IsProper ∧ P.IsFresh w₁.store)
    {q : Result (Lookup Environment)} (h : (r.refresh env inputs make).run.run w = (q, w'))
    (hProper : w.store.IsProper) : w'.store.IsProper ∧ (P.IsFresh w'.store ∨
      ((∀ place ∈ P.places, w'.store.fileAt? place = w.store.fileAt? place) ∧
        (inputs = true ∨ ∃ e, q = .error e))) := by
  obtain ⟨-, hInputs, -, d, t, hWrite, rfl, -⟩ | ⟨e, hMake, hq⟩ | ⟨w₁, d, t, hMake, hWrite, rfl, -⟩ :=
    run_refresh h
  · obtain ⟨hProper', hSame⟩ := (rests_writeMetadata hJars).run hWrite hProper
    exact ⟨hProper', .inr ⟨hSame, .inl hInputs⟩⟩
  · obtain ⟨hProper', hSame⟩ := hFails hMake hProper
    exact ⟨hProper', .inr ⟨hSame, .inr ⟨e, hq.symm⟩⟩⟩
  · obtain ⟨hProper₁, hFresh⟩ := hMakes hMake hProper
    obtain ⟨hProper', hSame⟩ := (rests_writeMetadata hJars).run hWrite hProper₁
    exact ⟨hProper', .inl (hFresh.congr hSame)⟩

-- ---------------------------------------------------------------------------
-- The products of a resolver
-- ---------------------------------------------------------------------------

variable {root shared version artifact : String} {p : Platform} {side : Side}
  {modifiers : List Modifier} {q : Result (Lookup Environment)}

/-- The jar of a side, which is made from its download. -/
def ofSide (root : String) (p : Platform) (side : Side) (version : String) : Product where
  target := jarPlace root p.id version
  sources := [downloadPlace root p version]
  Makes contents made := ∃ download found bundle entries, contents = [some download] ∧
    download.entries? = some found ∧
    Bundle.ofEntries (Path.join root (downloadPath p version)) found = .ok bundle ∧
    madeEntries side bundle download = some entries ∧ made = System.calm.archive entries

/-- The joined jar, which is merged from the jars of the sides. -/
def joined (root version : String) : Product where
  target := jarPlace root Platform.joined.id version
  sources := [jarPlace root Platform.client.id version, jarPlace root Platform.server.id version]
  Makes contents made := ∃ client server ours theirs entries, contents = [some client, some server] ∧
    client.entries? = some ours ∧ server.entries? = some theirs ∧
    Jar.mergeEntries (artifactPath root Platform.client.id version) ours theirs = .ok entries ∧
    made = System.calm.archive entries

/-- The stages for the jar of a platform that are prepared by modifiers which give an artifact its
name. -/
def PreparedFor (artifact : String) (p : Platform) (jar : String) (content : Content)
    (stages : List Transformer) : Prop :=
  ∃ (r : Resolver) (modifiers : List Modifier) (env : Environment) (named : Store × Store)
    (prepared : World × World) (parts : List (List Transformer)),
    (Modifier.decorate p.id modifiers).run.run named.1 = (.ok artifact, named.2) ∧
    env.jar = jar ∧ prepared.1.store.content jar = .ok content ∧
    (r.prepare artifact modifiers env).run.run prepared.1 = (.ok parts, prepared.2) ∧
    stages = parts.flatten

/-- The jar of an artifact, which is made by modifiers from the jar of a platform. -/
def modified (root shared artifact : String) (p : Platform) (version : String) : Product where
  target := jarPlace root artifact version
  sources := [jarPlace shared p.id version]
  Makes contents made := ∃ base entries stages written, contents = [some base] ∧
    base.entries? = some entries ∧
    PreparedFor artifact p (artifactPath shared p.id version) base stages ∧
    Jar.transformEntries (artifactPath shared p.id version) stages entries = .ok written ∧
    made = System.calm.archive written

theorem hasSuffix_ofSide : ∀ place ∈ (ofSide root p side version).places, HasSuffix ".jar" place :=
  List.forall_mem_cons.2 ⟨hasSuffix_jarPlace, List.forall_mem_singleton.2 hasSuffix_jarPlace⟩

theorem hasSuffix_joined : ∀ place ∈ (joined root version).places, HasSuffix ".jar" place :=
  List.forall_mem_cons.2 ⟨hasSuffix_jarPlace, List.forall_mem_cons.2
    ⟨hasSuffix_jarPlace, List.forall_mem_singleton.2 hasSuffix_jarPlace⟩⟩

theorem hasSuffix_modified :
    ∀ place ∈ (modified root shared artifact p version).places, HasSuffix ".jar" place :=
  List.forall_mem_cons.2 ⟨hasSuffix_jarPlace, List.forall_mem_singleton.2 hasSuffix_jarPlace⟩

/-- A download is no jar that is made for a platform. -/
theorem not_madeFor_downloadPlace {p' : Platform} {root' version' : String} :
    ¬ madeFor root p version (downloadPlace root' p' version') := fun h =>
  downloadArtifact_ne_id (jarPlace_inj (eq_of_madeFor h)).2.1

/-- The jar of a side is made from its download. -/
theorem fresh_or_rests_ofSide {inputs : SideInputs} {wasThere : Bool} (hVersion : Path.IsPlain version)
    (hJar : inputs.env.jar = artifactPath root p.id version)
    (hPath : inputs.downloaded = Path.join root (downloadPath p version))
    (hBundle : BundleAt w.store inputs.downloaded inputs.bundle)
    (h : (r.refresh inputs.env wasThere (makeSide p side version inputs)).run.run w = (q, w'))
    (hProper : w.store.IsProper) : w'.store.IsProper ∧
      ((ofSide root p side version).IsFresh w'.store ∨
        ((∀ place ∈ (ofSide root p side version).places,
          w'.store.fileAt? place = w.store.fileAt? place) ∧
            (wasThere = true ∨ ∃ e, q = .error e))) := by
  have hPlace : placeOf inputs.downloaded = downloadPlace root p version :=
    hPath ▸ placeOf_downloadPath hVersion
  refine fresh_or_rests_of_refresh hasSuffix_ofSide (fun {e w₁} hMake hProper => ?_)
    (fun {w₁} hMake hProper => ?_) h hProper
  · have hWithin := ((frame_makeSide hVersion hJar).run hMake).2 hProper
    exact ⟨hWithin.proper, List.forall_mem_cons.2 ⟨fileAt?_of_makeSide hProper hVersion hJar hMake,
      List.forall_mem_singleton.2 (hWithin.elsewhere _ not_madeFor_downloadPlace)⟩⟩
  · have hWithin := ((frame_makeSide hVersion hJar).run hMake).2 hProper
    obtain ⟨download, found, hContent, hFound, hBundle⟩ := hBundle
    obtain ⟨entries, hMade, hFile⟩ :=
      content_of_makeSide hProper hVersion hContent hPlace hJar hMake
    obtain ⟨-, hFile⟩ := content_iff.1 hFile
    obtain ⟨-, hContent⟩ := content_iff.1 hContent
    rw [hJar, placeOf_artifactPath isPlain_id hVersion] at hFile
    rw [hPlace, ← hWithin.elsewhere _ not_madeFor_downloadPlace] at hContent
    refine ⟨hWithin.proper, System.calm.archive entries, hFile, download, found, inputs.bundle,
      entries, ?_, hFound,
      hPath ▸ hBundle, hMade, rfl⟩
    exact congrArg (fun content => [content]) hContent

/-- The joined jar is made from the jars of the sides. -/
theorem fresh_or_rests_joined {client server : Environment} {ours theirs : Bool}
    (hVersion : Path.IsPlain version)
    (hClientJar : client.jar = artifactPath r.sharedRoot Platform.client.id version)
    (hServerJar : server.jar = artifactPath r.sharedRoot Platform.server.id version)
    (hClient : w.store.isFile client.jar = true) (hServer : w.store.isFile server.jar = true)
    (h : (r.joinedEnvironment version (.found client ours) (.found server theirs)).run.run w = (q, w'))
    (hProper : w.store.IsProper) : w'.store.IsProper ∧
      ((joined r.sharedRoot version).IsFresh w'.store ∨
        ((∀ place ∈ (joined r.sharedRoot version).places,
          w'.store.fileAt? place = w.store.fileAt? place) ∧
            ((ours && theirs) = true ∨ ∃ e, q = .error e))) := by
  have hClientPlace : placeOf client.jar = jarPlace r.sharedRoot Platform.client.id version :=
    hClientJar ▸ placeOf_artifactPath isPlain_id hVersion
  have hServerPlace : placeOf server.jar = jarPlace r.sharedRoot Platform.server.id version :=
    hServerJar ▸ placeOf_artifactPath isPlain_id hVersion
  have hSide : ∀ p : Platform, p ≠ .joined → ¬ madeFor r.sharedRoot .joined version
      (jarPlace r.sharedRoot p.id version) := fun _ hp hMade =>
    hp (id_inj.1 (jarPlace_inj (eq_of_madeFor hMade)).2.1)
  rw [joinedEnvironment_found] at h
  refine fresh_or_rests_of_refresh hasSuffix_joined (fun {e w₁} hMake hProper => ?_)
    (fun {w₁} hMake hProper => ?_) h hProper
  · have hWithin := ((frame_makeJoined hVersion).run hMake).2 hProper
    have hSame : ∀ artifact, w₁.store.fileAt? (jarPlace r.sharedRoot artifact version) =
        w.store.fileAt? (jarPlace r.sharedRoot artifact version) := fun _ =>
      fileAt?_of_makeJoined hProper hVersion hMake
    exact ⟨hWithin.proper, List.forall_mem_cons.2 ⟨hSame _, List.forall_mem_cons.2
      ⟨hSame _, List.forall_mem_singleton.2 (hSame _)⟩⟩⟩
  · have hWithin := ((frame_makeJoined hVersion).run hMake).2 hProper
    obtain ⟨first, hFirst⟩ := exists_content_of_isFile hClient
    obtain ⟨second, hSecond⟩ := exists_content_of_isFile hServer
    obtain ⟨ours, theirs, entries, hOurs, hTheirs, hMerge, hFile⟩ :=
      content_of_makeJoined hProper hVersion hFirst hSecond hClientPlace hServerPlace hMake
    obtain ⟨-, hFile⟩ := content_iff.1 hFile
    obtain ⟨-, hFirst⟩ := content_iff.1 hFirst
    obtain ⟨-, hSecond⟩ := content_iff.1 hSecond
    rw [placeOf_artifactPath isPlain_id hVersion] at hFile
    rw [hClientPlace, ← hWithin.elsewhere _ (hSide .client nofun)] at hFirst
    rw [hServerPlace, ← hWithin.elsewhere _ (hSide .server nofun)] at hSecond
    refine ⟨hWithin.proper, System.calm.archive entries, hFile, first, second, ours, theirs,
      entries, ?_, hOurs,
      hTheirs, hClientJar ▸ hMerge, rfl⟩
    simp only [joined, List.map_cons, List.map_nil, hFirst, hSecond]

/-- The jar of an artifact is made from that of a platform. -/
theorem fresh_or_rests_modified {base : Environment} {wasThere : Bool} {files files' : Store}
    (hCareful : r.downloader.Careful) (hOrderly : Modifier.Orderly p modifiers)
    (hSome : modifiers ≠ []) (hVersion : Path.IsPlain version)
    (hName : (Modifier.decorate p.id modifiers).run.run files = (.ok artifact, files'))
    (hJar : base.jar = artifactPath shared p.id version) (hBase : w.store.isFile base.jar = true)
    (h : (r.modifiedEnvironment artifact version modifiers (.found base wasThere)).run.run w = (q, w'))
    (hProper : w.store.IsProper) : w'.store.IsProper ∧
      ((modified (r.rootFor modifiers) shared artifact p version).IsFresh w'.store ∨
        ((∀ place ∈ (modified (r.rootFor modifiers) shared artifact p version).places,
          w'.store.fileAt? place = w.store.fileAt? place) ∧
            (wasThere = true ∨ ∃ e, q = .error e))) := by
  have hPlain := hOrderly.plain hName
  have hPlace : placeOf base.jar = jarPlace shared p.id version :=
    hJar ▸ placeOf_artifactPath isPlain_id hVersion
  have hApart : ¬ modifiedAs (r.rootFor modifiers) artifact version (jarPlace shared p.id version) :=
    fun hModified =>
      Modifier.decorate_ne_id hSome hName (jarPlace_inj (eq_of_modifiedAs hModified)).2.1.symm
  rw [modifiedEnvironment_found] at h
  refine fresh_or_rests_of_refresh hasSuffix_modified (fun {e w₁} hMake hProper => ?_)
    (fun {w₁} hMake hProper => ?_) h hProper
  · have hWithin := ((frame_makeModified hCareful hOrderly.considerate hPlain hVersion).run hMake).2
      hProper
    exact ⟨hWithin.proper, List.forall_mem_cons.2
      ⟨fileAt?_of_makeModified hCareful hOrderly.considerate hProper hMake,
        List.forall_mem_singleton.2
          (fileAt?_of_makeModified hCareful hOrderly.considerate hProper hMake)⟩⟩
  · have hWithin := ((frame_makeModified hCareful hOrderly.considerate hPlain hVersion).run hMake).2
      hProper
    obtain ⟨content, hContent⟩ := exists_content_of_isFile hBase
    obtain ⟨parts, w₂, entries, written, hPrepare, hEntries, hWritten, hFile⟩ :=
      content_of_makeModified hCareful hOrderly.considerate hProper hContent hPlace hMake
    obtain ⟨-, hFile⟩ := content_iff.1 hFile
    obtain ⟨-, hSame⟩ := content_iff.1 hContent
    rw [placeOf_artifactPath hPlain hVersion] at hFile
    rw [hPlace, ← hWithin.elsewhere _ hApart] at hSame
    refine ⟨hWithin.proper, System.calm.archive written, hFile, content, entries, parts.flatten,
      written, ?_,
      hEntries, ?_, hJar ▸ hWritten, rfl⟩
    · exact congrArg (fun content => [content]) hSame
    · exact ⟨r, modifiers, base, (files, files'), (w, w₂), parts, hName, hJar, hJar ▸ hContent,
        hPrepare, rfl⟩

end Product

end Jarsmith
