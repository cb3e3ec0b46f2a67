import Jarsmith.Proofs.Resolver.Again
import Jarsmith.Proofs.Resolver.Serving

/-!
# Histories of a cache

Fresh resolvers are asked one after the other, while documents and downloads change upstream. A jar
in the cache is fresh for as long as nothing leaves it behind, that is, changes what it was made from
and leaves it there.

* `Occurrence`, `Occurs` — what happens in a cache.
* `History` — a run of occurrences that leave a product behind only if they settle it;
  `History.sound` — along it the product stays sound.
* `Resolution.side_isFresh` — the jar of a side that is found was made from the current download,
  unless a resolution that found nothing left it behind.
* `Resolution.derived_isFresh` — a joined or modified jar that is found was made from the jars that
  are in the cache, unless a resolution that did not find it left it behind.
-/

namespace Jarsmith

open Downloader Running Store Resolver Resolution

-- ---------------------------------------------------------------------------
-- What happens
-- ---------------------------------------------------------------------------

/-- What happens in a cache: a fresh resolver is asked, or something changes outside. -/
inductive Occurrence where
  | asked (q : Resolution) (answer : Result (Lookup Environment))
  | outside

namespace Occurrence

/-- An environment is found. -/
def Finds : Occurrence → Prop
  | asked _ answer => Resolver.Finds answer
  | outside => False

/-- An environment is found whose jar is at a place. -/
def FindsAt (place : List String) : Occurrence → Prop
  | asked _ answer => ∃ env upToDate, answer = .ok (.found env upToDate) ∧ placeOf env.jar = place
  | outside => False

end Occurrence

/-- A resolution in a cache that keeps to the files of its own version and artifact. -/
structure Resolution.Within (root : String) (q : Resolution) : Prop where
  careful : q.resolver.downloader.Careful
  shared : q.resolver.sharedRoot = root
  version : Path.IsPlain q.version
  orderly : Modifier.Orderly q.platform q.modifiers

/-- What an occurrence does. Outside of resolutions the remote and documents change, but no jar. -/
inductive Occurs (root : String) (w : World) : Occurrence → World → Prop where
  | asked {q answer w'} (hWithin : q.Within root) (hRun : q.run w = (answer, w')) :
      Occurs root w (.asked q answer) w'
  | outside {w'} (hFrame : Store.Frame noJar noJar w.store w'.store) : Occurs root w .outside w'

/-- Occurrences one after the other, of which only those that settle a product may leave it behind. -/
inductive History (root : String) (P : Product) (settling : Occurrence → Prop) :
    World → World → Prop where
  | start {w} : History root P settling w w
  | next {w₀ w w' o} (hBefore : History root P settling w₀ w) (hOccurs : Occurs root w o w')
      (hSettles : ¬ settling o → ¬ P.LeavesBehind w.store w'.store) : History root P settling w₀ w'

variable {root artifact : String} {P : Product} {q : Resolution} {w₀ w w' : World}
  {env : Environment} {upToDate : Bool} {side : Side} {settling : Occurrence → Prop} {o : Occurrence}

/-- Whatever occurs settles the jar of a side. -/
theorem Occurs.settles_side {p : Platform} {version : String} (hSide : p.side? = some side)
    (h : Occurs root w o w') :
    (Product.ofSide root p side version).Renews w.store w'.store ∧
      (o.Finds → (Product.ofSide root p side version).Serves w.store w'.store) := by
  cases h with
  | asked hWithin hRun =>
    obtain ⟨s, hRequest, rfl⟩ := run_iff.1 hRun
    have hSettles : (Product.ofSide _ p side version).Settles _ _ _ :=
      Product.settles_request hSide hWithin.careful hWithin.version hWithin.orderly hRequest
    rw [hWithin.shared] at hSettles
    exact ⟨hSettles.renews, hSettles.serves⟩
  | outside hFrame =>
    have hRests : (Product.ofSide root p side version).Rests w.store w'.store :=
      Product.rests_of_noJar hFrame Product.hasSuffix_ofSide
    exact ⟨hRests.keeps.renewed, nofun⟩

theorem Occurs.isProper (h : Occurs root w o w') (hProper : w.store.IsProper) : w'.store.IsProper :=
  have hClient : Platform.side? .client = some .client := rfl
  have hRenews : (Product.ofSide root .client .client "").Renews w.store w'.store :=
    (h.settles_side hClient).1
  (hRenews hProper).1

theorem History.isProper (h : History root P settling w₀ w) (hProper : w₀.store.IsProper) :
    w.store.IsProper := by
  induction h with
  | start => exact hProper
  | next _ hOccurs _ ih => exact hOccurs.isProper ih

/-- **A product that is sound stays sound along its histories** if every occurrence renews it, and
those that settle it serve it. -/
theorem History.sound (h : History root P settling w₀ w) (hProper : w₀.store.IsProper)
    (hSound : P.Sound w₀.store)
    (hRenews : ∀ {w o w'}, Occurs root w o w' → P.Renews w.store w'.store)
    (hServes : ∀ {w o w'}, Occurs root w o w' → w.store.IsProper → settling o →
      P.Serves w.store w'.store) : P.Sound w.store := by
  induction h with
  | start => exact hSound
  | @next w w' o hBefore hOccurs hSettles ih =>
    have hProper := hBefore.isProper hProper
    by_cases hSettling : settling o
    · exact ih.of_serves hProper (hServes hOccurs hProper hSettling)
    · exact ih.of_renews hProper (hRenews hOccurs) (hSettles hSettling)

namespace Resolution

-- ---------------------------------------------------------------------------
-- The jar of a side
-- ---------------------------------------------------------------------------

/-- **The jar of a side that is found was made from the download that the descriptor names now**,
unless a resolution that found nothing left it behind, as when it replaced the download and then could
not make the jar. -/
theorem side_isFresh (hWithin : q.Within root) (hSide : q.platform.side? = some side)
    (hModifiers : q.modifiers = []) (hProper : w₀.store.IsProper)
    (hSound : (Product.ofSide root q.platform side q.version).Sound w₀.store)
    (hHistory : History root (.ofSide root q.platform side q.version) Occurrence.Finds w₀ w)
    (hFound : q.run w = (.ok (.found env upToDate), w')) :
    env.jar = artifactPath root q.platform.id q.version ∧
      (Product.ofSide root q.platform side q.version).IsFresh w'.store ∧
      ∃ download, env.version.download? side.jarDownload = some download ∧
        HasDigest w'.store (Path.join root (downloadPath q.platform q.version)) .sha1
          download.sha1 := by
  have hSound := hHistory.sound hProper hSound (·.settles_side hSide |>.1)
    fun hOccurs _ hFinds => (hOccurs.settles_side hSide).2 hFinds
  have hProper := hHistory.isProper hProper
  have hServes : (Product.ofSide root q.platform side q.version).Serves w.store w'.store :=
    ((Occurs.asked hWithin hFound).settles_side hSide).2 ⟨env, upToDate, rfl⟩
  obtain ⟨s, hRequest, rfl⟩ := run_iff.1 hFound
  rw [hModifiers, requestEnvironment_nil, baseEnvironment_of_side hSide] at hRequest
  obtain ⟨hJar, hThere⟩ := found_side hWithin.careful hWithin.version hProper hRequest
  have hDigest := digest_side hWithin.careful hWithin.version hProper hRequest
  rw [hWithin.shared] at hJar hDigest
  refine ⟨hJar, hSound.of_serves hProper hServes ?_, hDigest⟩
  have hFile := (isFile_iff.1 hThere).2
  rwa [hJar, placeOf_artifactPath isPlain_id hWithin.version] at hFile

theorem within_ofExample : (ofExample "1").Within "shared" :=
  ⟨careful_direct "shared", rfl, show Path.IsPlain "1" by decide, Modifier.orderly_nil⟩

/-- The jar of the client in the example is made from its download. -/
theorem isFresh_exampleFiles :
    (Product.ofSide "shared" .client .client "1").IsFresh exampleFiles :=
  ⟨.archive [], by decide +kernel, .archive [], [], none, [], by decide +kernel, rfl, rfl,
    by decide +kernel, rfl⟩

/-- The client is found, and then again with nothing left upstream. -/
theorem side_isFresh_afterLoss : ∃ env w,
    (ofExample "1").run ⟨exampleFiles, some ∅, []⟩ = (.ok (.found env true), w) ∧
      (Product.ofSide "shared" .client .client "1").IsFresh w.store := by
  have hSound : (Product.ofSide "shared" .client .client "1").Sound exampleWorld.store :=
    fun _ => isFresh_exampleFiles
  have hHistory : History "shared" (.ofSide "shared" .client .client "1") Occurrence.Finds
      exampleWorld ⟨exampleFiles, some ∅, []⟩ :=
    .next (.next .start (.asked within_ofExample run_ofExample) fun hNot => absurd ⟨_, _, rfl⟩ hNot)
      (.outside (refl_of (Store.Frame noJar noJar) exampleFiles)) fun _ hBehind =>
        let ⟨_, _, _, _, hChanged⟩ := hBehind
        hChanged rfl
  obtain ⟨-, hFresh, -⟩ := side_isFresh within_ofExample rfl rfl isProper_exampleFiles
    hSound hHistory run_ofExample
  exact ⟨_, _, run_ofExample, hFresh⟩

-- ---------------------------------------------------------------------------
-- Joined and modified jars
-- ---------------------------------------------------------------------------

/-- The jar that is made for a resolution of both sides or with modifiers, by the name of its
artifact. -/
def product (q : Resolution) (artifact : String) : Product :=
  if q.modifiers = [] then .joined q.resolver.sharedRoot q.version
  else .modified (q.resolver.rootFor q.modifiers) q.resolver.sharedRoot artifact q.platform q.version

theorem hasSuffix_product : ∀ place ∈ (q.product artifact).places, HasSuffix ".jar" place := by
  unfold product
  split
  · exact Product.hasSuffix_joined
  · exact Product.hasSuffix_modified

/-- The modifiers of a resolution, if there are any, give an artifact its name. -/
def Names (q : Resolution) (artifact : String) : Prop :=
  q.modifiers ≠ [] → ∃ files files',
    (Modifier.decorate q.platform.id q.modifiers).run.run files = (.ok artifact, files')

/-- Whatever occurs leaves a joined or modified jar, or makes it anew. -/
theorem renews_of_occurs (hWithin : q.Within root) (hNames : q.Names artifact)
    (h : Occurs root w o w') : (q.product artifact).Renews w.store w'.store := by
  cases h with
  | outside hFrame => exact (Product.rests_of_noJar hFrame hasSuffix_product).keeps.renewed
  | asked hWithin' hRun =>
    obtain ⟨s, hRequest, rfl⟩ := run_iff.1 hRun
    unfold product
    rw [hWithin.shared, ← hWithin'.shared]
    split
    · exact Product.renews_request_joined hWithin'.careful hWithin'.version hWithin'.orderly hRequest
    · rename_i hSome
      obtain ⟨_, _, hNamed⟩ := hNames hSome
      exact Product.renews_request_modified hWithin'.careful hWithin.orderly hSome hNamed
        hWithin'.version hWithin'.orderly hRequest

/-- Who finds a joined or modified jar serves it. -/
theorem serves_of_occurs (hWithin : q.Within root) (hNames : q.Names artifact)
    (h : Occurs root w o w') (hProper : w.store.IsProper)
    (hFinds : o.FindsAt (q.product artifact).target) :
    (q.product artifact).Serves w.store w'.store := by
  cases h with
  | outside => exact hFinds.elim
  | asked hWithin' hRun =>
    obtain ⟨s, hRequest, rfl⟩ := run_iff.1 hRun
    obtain ⟨env, upToDate, rfl, hJar⟩ := hFinds
    unfold product at hJar ⊢
    rw [hWithin.shared, ← hWithin'.shared] at hJar ⊢
    by_cases hSome : q.modifiers = []
    · rw [if_pos hSome] at hJar ⊢
      exact Product.serves_request_joined hWithin'.careful hWithin'.version hWithin'.orderly hProper
        hRequest hJar
    · rw [if_neg hSome] at hJar ⊢
      obtain ⟨_, _, hNamed⟩ := hNames hSome
      exact Product.serves_request_modified hWithin'.careful hSome hNamed hWithin'.version
        hWithin'.orderly hProper hRequest hJar

/-- The jar that is found for both sides or with modifiers is there, at the place of the product. -/
theorem found_product (hWithin : q.Within root) (hDerived : q.modifiers = [] → q.platform = .joined)
    (hProper : w.store.IsProper) (hFound : q.run w = (.ok (.found env upToDate), w')) :
    q.Names env.artifact ∧ placeOf env.jar = (q.product env.artifact).target ∧
      w'.store.isFile env.jar = true := by
  obtain ⟨s, hRequest, rfl⟩ := run_iff.1 hFound
  unfold Names product
  by_cases hSome : q.modifiers = []
  · rw [hSome, requestEnvironment_nil] at hRequest
    obtain ⟨hJar, hThere⟩ := found_base hWithin.careful hWithin.version hProper hRequest
    refine ⟨fun hNot => absurd hSome hNot, ?_, hThere⟩
    rw [if_pos hSome, hJar, hDerived hSome]
    exact placeOf_artifactPath isPlain_id hWithin.version
  · obtain ⟨hJar, hThere, files, hNamed⟩ := found_request hWithin.careful hWithin.version
      hWithin.orderly hSome hProper hRequest
    refine ⟨fun _ => ⟨_, _, hNamed⟩, ?_, hThere⟩
    rw [if_neg hSome, hJar]
    exact placeOf_artifactPath (hWithin.orderly.plain hNamed) hWithin.version

/-- **A joined or modified jar that is found was made from the jars that are in the cache**, unless a
resolution that did not find it left it behind, as when only a side was asked for that had changed. -/
theorem derived_isFresh (hWithin : q.Within root)
    (hDerived : q.modifiers = [] → q.platform = .joined) (hProper : w₀.store.IsProper)
    (hSound : (q.product env.artifact).Sound w₀.store)
    (hHistory : History root (q.product env.artifact)
      (Occurrence.FindsAt (q.product env.artifact).target) w₀ w)
    (hFound : q.run w = (.ok (.found env upToDate), w')) :
    placeOf env.jar = (q.product env.artifact).target ∧
      (q.product env.artifact).IsFresh w'.store := by
  have hProperBefore := hHistory.isProper hProper
  obtain ⟨hNames, hJar, hThere⟩ := found_product hWithin hDerived hProperBefore hFound
  have hSound := hHistory.sound hProper hSound (renews_of_occurs hWithin hNames)
    (serves_of_occurs hWithin hNames)
  refine ⟨hJar, hSound.of_serves hProperBefore (serves_of_occurs hWithin hNames
    (.asked hWithin hFound) hProperBefore ⟨env, upToDate, rfl, hJar⟩) ?_⟩
  exact hJar ▸ (isFile_iff.1 hThere).2

end Resolution

end Jarsmith
