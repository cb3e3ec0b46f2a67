import Jarsmith.Proofs.Resolver.Cached
import Mathlib.Data.List.Count

/-!
# The views of a version repository

A repository is asked in any order, and descriptors are injected in between. The manifest, what was
fetched and what was injected are kept apart, and the calls look at them in different orders; what is
kept is such that their answers agree all the same.

* `VersionRepository.Run` — calls one after the other. Between them anything can happen to the world.
* `VersionRepository.Knows` — what is kept after a run; `VersionRepository.Run.knows`.
* `VersionRepository.views_agree` — the versions that are listed are those that something is known
  about, injected descriptors go before all others, and what was told once is told again.
-/

namespace Jarsmith

open Running

-- ---------------------------------------------------------------------------
-- Runs
-- ---------------------------------------------------------------------------

/-- What happens to a repository: a call with its answer, or something outside. -/
inductive VersionEvent where
  /-- A file was injected that gives a descriptor, or none. -/
  | injected (described : Result VersionDescriptor)
  | listed (answer : Result (Lookup (List VersionReference)))
  | latest (kind : VersionKind) (answer : Result (Lookup VersionReference))
  | told (id : String) (answer : Result (Lookup VersionDescriptor))
  | outside

/-- The descriptor that an event registers for a version. -/
def VersionEvent.injected? (id : String) : VersionEvent → Option VersionDescriptor
  | injected (.ok v) => if v.id = id then some v else none
  | _ => none

namespace VersionRepository

/-- The descriptor that was injected last for a version, of events with the latest one first. -/
def lastInjection (id : String) (events : List VersionEvent) : Option VersionDescriptor :=
  events.findSome? (·.injected? id)

/-- The descriptor that a file gives. -/
def described (path : String) (store : Store) : Result VersionDescriptor := do
  let text ← ((FileAction.readText path).run.run store).1
  document (VersionDescriptor.parse? text)

/-- What an event does. -/
inductive Happens (r : VersionRepository) (s : VersionState) :
    VersionEvent → VersionState → Prop where
  | injected {path answer t} (hRun : (inject path).run.run s = (answer, t)) :
      Happens r s (.injected (described path s.world.store)) t
  | listed {answer t} (hRun : r.versions.run.run s = (answer, t)) : Happens r s (.listed answer) t
  | latest {kind answer t} (hRun : (r.latest kind).run.run s = (answer, t)) :
      Happens r s (.latest kind answer) t
  | told {id answer t} (hRun : (r.descriptor id).run.run s = (answer, t)) :
      Happens r s (.told id answer) t
  | outside {w} : Happens r s .outside { s with world := w }

/-- Events one after the other, in a repository that knew nothing; the latest one comes first. -/
inductive Run (r : VersionRepository) : List VersionEvent → VersionState → Prop where
  | start {w} : Run r [] ⟨w, .empty⟩
  | next {events e s t} (hBefore : Run r events s) (hHappens : Happens r s e t) :
      Run r (e :: events) t

variable {r : VersionRepository} {s t : VersionState} {c : VersionCache} {id path : String}
  {m : Lookup VersionManifest} {v : VersionDescriptor} {events : List VersionEvent}
  {e : VersionEvent} {upToDate : Bool} {list : List VersionReference}

theorem lastInjection_cons : lastInjection id (e :: events) =
    (e.injected? id).or (lastInjection id events) := by
  rw [lastInjection, List.findSome?_cons]
  cases e.injected? id <;> rfl

/-- Injecting a descriptor is for its own version. -/
theorem id_of_lastInjection (h : lastInjection id events = some v) : v.id = id := by
  obtain ⟨e, -, hInjected⟩ := List.exists_of_findSome?_eq_some h
  unfold VersionEvent.injected? at hInjected
  split at hInjected
  · split at hInjected
    · rename_i hId
      exact Option.some.inj hInjected ▸ hId
    · cases hInjected
  · cases hInjected

-- ---------------------------------------------------------------------------
-- What the calls do
-- ---------------------------------------------------------------------------

/-- The names of the versions that a manifest lists. -/
def listedIds : Lookup VersionManifest → List String
  | .notFound => []
  | .found manifest _ => manifest.versions.map (·.id)

theorem find?_eq_none {manifest : VersionManifest} :
    manifest.find? id = none ↔ id ∉ listedIds (.found manifest upToDate) := by
  simp [VersionManifest.find?, listedIds]

/-- What asking for the manifest does to what is known. A failure is not kept, so that the manifest is
asked for again; that there is none is kept. -/
inductive AsksManifest (c : VersionCache) :
    Result (Lookup VersionManifest) → VersionCache → Prop where
  | failed {e : Error} (hUnknown : c.manifest = none) : AsksManifest c (.error e) c
  | found {m : Lookup VersionManifest} (hKnown : c.manifest = none ∨ c.manifest = some m) :
      AsksManifest c (.ok m) { c with manifest := some m }

/-- A manifest that is known is not asked for again. -/
theorem run_manifest_of_known (hKnown : s.cache.manifest = some m) :
    r.manifest.run.run s = (.ok m, s) := by
  rw [manifest, bind_of_ok run_cache, hKnown]
  exact pure_iff.2 ⟨rfl, rfl⟩

theorem asksManifest {answer : Result (Lookup VersionManifest)}
    (hRun : r.manifest.run.run s = (answer, t)) : AsksManifest s.cache answer t.cache := by
  cases hKnown : s.cache.manifest with
  | some m =>
    rw [run_manifest_of_known hKnown] at hRun
    cases hRun
    have hFound := AsksManifest.found (.inr hKnown : s.cache.manifest = none ∨ _)
    rwa [← hKnown] at hFound
  | none =>
    rw [manifest, bind_of_ok run_cache, hKnown] at hRun
    obtain ⟨_, hFetch, rfl⟩ | ⟨text, _, hFetch, hRun⟩ := bind_iff.1 hRun
    · obtain ⟨_, -, rfl⟩ := world_iff.1 hFetch
      exact .failed hKnown
    · obtain ⟨_, -, rfl⟩ := world_iff.1 hFetch
      obtain ⟨_, hParse, rfl⟩ | ⟨m, _, hParse, hRun⟩ := bind_iff.1 hRun
      · obtain ⟨-, rfl⟩ := liftExcept_iff.1 hParse
        exact .failed hKnown
      · obtain ⟨-, rfl⟩ := liftExcept_iff.1 hParse
        cases hRun
        exact .found (.inl hKnown)

theorem AsksManifest.of_known {asked : Result (Lookup VersionManifest)} {c' : VersionCache}
    (h : AsksManifest c asked c') (hKept : c.manifest = some m) : asked = .ok m := by
  cases h with
  | failed hUnknown => cases hUnknown.symm.trans hKept
  | found hKnown =>
    obtain hUnknown | hSame := hKnown
    · cases hUnknown.symm.trans hKept
    · exact congrArg _ (Option.some.inj (hSame.symm.trans hKept))

theorem AsksManifest.kept {c' : VersionCache} (h : AsksManifest c (.ok m) c') :
    c'.manifest = some m := by
  cases h
  rfl

/-- What asking for a version does to what is known. What is known about the version goes before the
manifest; a version that the manifest lists is fetched, or asking for it fails. -/
inductive Tells (id : String) (c : VersionCache) :
    Result (Lookup VersionDescriptor) → VersionCache → Prop where
  | known {v : VersionDescriptor}
      (hKnown : (c.injected.get? id).or (c.fetched.get? id) = some v) :
      Tells id c (.ok (.found v true)) c
  | failed {e : Error} {asked : Result (Lookup VersionManifest)} {c' : VersionCache}
      (hUnknown : (c.injected.get? id).or (c.fetched.get? id) = none)
      (hManifest : AsksManifest c asked c') (hListed : ∀ m, asked = .ok m → id ∈ listedIds m) :
      Tells id c (.error e) c'
  | unlisted {m : Lookup VersionManifest} {c' : VersionCache}
      (hUnknown : (c.injected.get? id).or (c.fetched.get? id) = none)
      (hManifest : AsksManifest c (.ok m) c') (hListed : id ∉ listedIds m) :
      Tells id c (.ok .notFound) c'
  | fetched {m : Lookup VersionManifest} {c' : VersionCache} {v : VersionDescriptor}
      {upToDate : Bool} (hUnknown : (c.injected.get? id).or (c.fetched.get? id) = none)
      (hManifest : AsksManifest c (.ok m) c') (hListed : id ∈ listedIds m) :
      Tells id c (.ok (.found v upToDate)) { c' with fetched := c'.fetched.insert id v }

/-- A version that is known is not asked for again. -/
theorem run_descriptor_of_known
    (hKnown : (s.cache.injected.get? id).or (s.cache.fetched.get? id) = some v) :
    (r.descriptor id).run.run s = (.ok (.found v true), s) := by
  rw [descriptor, bind_of_ok run_cache, hKnown]
  exact pure_iff.2 ⟨rfl, rfl⟩

/-- A fetched descriptor is kept; a failure to fetch it is not. -/
theorem fetchDescriptor_cases {reference : VersionReference}
    {answer : Result (Lookup VersionDescriptor)}
    (hRun : (r.fetchDescriptor id reference).run.run s = (answer, t)) :
    (∃ e, answer = .error e ∧ t.cache = s.cache) ∨
      ∃ v upToDate, answer = .ok (.found v upToDate) ∧
        t.cache = { s.cache with fetched := s.cache.fetched.insert id v } := by
  obtain ⟨e, hFetch, rfl⟩ | ⟨text, _, hFetch, hRun⟩ := bind_iff.1 hRun
  · obtain ⟨_, -, rfl⟩ := world_iff.1 hFetch
    exact .inl ⟨e, rfl, rfl⟩
  · obtain ⟨_, -, rfl⟩ := world_iff.1 hFetch
    cases text with
    | notFound =>
      obtain ⟨rfl, rfl⟩ := throw_iff.1 hRun
      exact .inl ⟨_, rfl, rfl⟩
    | found text upToDate =>
      obtain ⟨e, hParse, rfl⟩ | ⟨v, _, hParse, hRun⟩ := bind_iff.1 hRun
      · obtain ⟨-, rfl⟩ := liftExcept_iff.1 hParse
        exact .inl ⟨e, rfl, rfl⟩
      · obtain ⟨-, rfl⟩ := liftExcept_iff.1 hParse
        cases hRun
        exact .inr ⟨v, upToDate, rfl, rfl⟩

theorem tells {answer : Result (Lookup VersionDescriptor)}
    (hRun : (r.descriptor id).run.run s = (answer, t)) : Tells id s.cache answer t.cache := by
  cases hKnown : (s.cache.injected.get? id).or (s.cache.fetched.get? id) with
  | some v =>
    rw [run_descriptor_of_known hKnown] at hRun
    cases hRun
    exact .known hKnown
  | none =>
    rw [descriptor, bind_of_ok run_cache, hKnown] at hRun
    obtain ⟨e, hManifest, rfl⟩ | ⟨m, s₁, hManifest, hRun⟩ := bind_iff.1 hRun
    · refine .failed hKnown (asksManifest hManifest) fun m hAsked => ?_
      cases hAsked
    · cases m with
      | notFound =>
        obtain ⟨rfl, rfl⟩ := pure_iff.1 hRun
        exact .unlisted hKnown (asksManifest hManifest) List.not_mem_nil
      | found manifest upToDate =>
        dsimp only at hRun
        cases hFind : manifest.find? id with
        | none =>
          rw [hFind] at hRun
          obtain ⟨rfl, rfl⟩ := pure_iff.1 hRun
          exact .unlisted hKnown (asksManifest hManifest) (find?_eq_none.1 hFind)
        | some reference =>
          rw [hFind] at hRun
          have hListed : id ∈ listedIds (.found manifest upToDate) := by
            by_contra hNot
            cases hFind.symm.trans (find?_eq_none.2 hNot)
          obtain ⟨e, rfl, hCache⟩ | ⟨v, fresh, rfl, hCache⟩ := fetchDescriptor_cases hRun
          · refine hCache ▸ .failed hKnown (asksManifest hManifest) fun m hAsked => ?_
            cases hAsked
            exact hListed
          · exact hCache ▸ .fetched hKnown (asksManifest hManifest) hListed

/-- Asking for the latest version of a kind asks for the manifest, and for nothing else. -/
theorem latest_asks {kind : VersionKind} {answer : Result (Lookup VersionReference)}
    (hRun : (r.latest kind).run.run s = (answer, t)) :
    ∃ asked, AsksManifest s.cache asked t.cache := by
  obtain ⟨e, hManifest, -⟩ | ⟨m, u, hManifest, hRun⟩ := bind_iff.1 hRun
  · exact ⟨_, asksManifest hManifest⟩
  · have hSame : u = t := by
      split at hRun
      · exact (pure_iff.1 hRun).2
      · split at hRun <;> exact (pure_iff.1 hRun).2
    exact ⟨_, hSame ▸ asksManifest hManifest⟩

theorem described_eq {text : Result String} {store : Store}
    (hText : ((FileAction.readText path).run.run store).1 = text) : described path store =
      text.bind fun text => document (VersionDescriptor.parse? text) := by
  rw [described, hText]
  rfl

theorem described_of_ok {store : Store} {text : String}
    (hText : ((FileAction.readText path).run.run store).1 = .ok text) :
    described path store = document (VersionDescriptor.parse? text) := described_eq hText

/-- What injecting a file does. -/
theorem inject_cases {answer : Result String} (hRun : (inject path).run.run s = (answer, t)) :
    (∃ e, described path s.world.store = .error e ∧ answer = .error e ∧ t.cache = s.cache) ∨
      ∃ v, described path s.world.store = .ok v ∧ answer = .ok v.id ∧
        t.cache = { s.cache with injected := s.cache.injected.insert v.id v } := by
  obtain ⟨e, hRead, rfl⟩ | ⟨text, u, hRead, hRun⟩ := bind_iff.1 hRun
  · obtain ⟨_, hWorld, rfl⟩ := world_iff (x := liftM (FileAction.readText path)).1 hRead
    obtain ⟨_, hFiles, rfl⟩ := files_iff.1 hWorld
    exact .inl ⟨e, described_eq (congrArg Prod.fst hFiles), rfl, rfl⟩
  · obtain ⟨_, hWorld, rfl⟩ := world_iff (x := liftM (FileAction.readText path)).1 hRead
    obtain ⟨_, hFiles, rfl⟩ := files_iff.1 hWorld
    obtain ⟨e, hLiftExcept, rfl⟩ | ⟨v, _, hLiftExcept, hRun⟩ := bind_iff.1 hRun
    · obtain ⟨hParse, rfl⟩ := liftExcept_iff.1 hLiftExcept
      exact .inl ⟨e, (described_eq (congrArg Prod.fst hFiles)).trans hParse, rfl, rfl⟩
    · obtain ⟨hParse, rfl⟩ := liftExcept_iff.1 hLiftExcept
      cases hRun
      exact .inr ⟨v, (described_eq (congrArg Prod.fst hFiles)).trans hParse, rfl, rfl⟩

/-- The names of the versions that are listed, up to their order: those of the injected ones, then
those of the manifest that were not injected. -/
def viewedIds (c : VersionCache) (m : Lookup VersionManifest) : List String :=
  c.injected.values.map (·.id) ++ (listedIds m).filter (· ∉ c.injected.values.map (·.id))

/-- What listing the versions does. -/
theorem versions_cases {answer : Result (Lookup (List VersionReference))}
    (hRun : r.versions.run.run s = (answer, t)) :
    (∃ e, answer = .error e ∧ AsksManifest s.cache (.error e) t.cache) ∨
      ∃ m, AsksManifest s.cache (.ok m) t.cache ∧ ∀ list upToDate,
        answer = .ok (.found list upToDate) → (list.map (·.id)).Perm (viewedIds t.cache m) := by
  obtain ⟨e, hManifest, rfl⟩ | ⟨m, u, hManifest, hRun⟩ := bind_iff.1 hRun
  · exact .inl ⟨e, rfl, asksManifest hManifest⟩
  · rw [bind_of_ok run_cache] at hRun
    generalize hInjected : (u.cache.injected.values.map (·.reference)).mergeSort
      (fun a b => a.id ≤ b.id) = injected at hRun
    have hPerm : (injected.map (·.id)).Perm (u.cache.injected.values.map (·.id)) := by
      rw [← hInjected]
      refine ((List.mergeSort_perm _ _).map _).trans (.of_eq ?_)
      rw [List.map_map]
      rfl
    refine .inr ⟨m, ?_⟩
    cases m with
    | notFound =>
      obtain ⟨rfl, rfl⟩ := pure_iff.1 hRun
      refine ⟨asksManifest hManifest, fun list upToDate hFound => ?_⟩
      split at hFound
      · cases hFound
      · cases hFound
        simpa [viewedIds, listedIds] using hPerm
    | found manifest _ =>
      obtain ⟨rfl, rfl⟩ := pure_iff.1 hRun
      refine ⟨asksManifest hManifest, fun list upToDate hFound => ?_⟩
      cases hFound
      rw [List.map_append, viewedIds, listedIds, List.filter_map]
      refine hPerm.append (.of_eq (congrArg _ (List.filter_congr fun v _ => ?_)))
      have hListed : injected.any (·.id == v.id) = true ↔
          v.id ∈ u.cache.injected.values.map (·.id) := by
        rw [← hPerm.mem_iff]
        simp
      rw [Function.comp_apply, decide_not, Bool.decide_congr hListed.symm, Bool.decide_eq_true]

-- ---------------------------------------------------------------------------
-- What is known
-- ---------------------------------------------------------------------------

/-- What is kept, behind the events with the latest one first. -/
structure Knows (events : List VersionEvent) (c : VersionCache) : Prop where
  /-- Of every version the last injection is kept. -/
  injected : ∀ id, c.injected.get? id = lastInjection id events
  /-- Only what the manifest lists was fetched. -/
  fetched : ∀ id, c.fetched.get? id ≠ none → ∃ m, c.manifest = some m ∧ id ∈ listedIds m
  /-- What was told without an injection is kept. -/
  told : ∀ id v upToDate, .told id (.ok (.found v upToDate)) ∈ events →
    lastInjection id events = none → c.fetched.get? id = some v

namespace Knows

theorem start : Knows [] .empty where
  injected id := OrderedMap.get?_empty id
  fetched id hFetched := absurd (OrderedMap.get?_empty id) hFetched
  told _ _ _ hMem := nomatch hMem

theorem asksManifest {asked : Result (Lookup VersionManifest)} {c' : VersionCache}
    (h : Knows events c) (hManifest : AsksManifest c asked c') : Knows events c' := by
  cases hManifest with
  | failed => exact h
  | found hKnown =>
    refine ⟨h.injected, fun id hFetched => ?_, h.told⟩
    obtain ⟨m, hKept, hListed⟩ := h.fetched id hFetched
    obtain hNone | hSame := hKnown
    · cases hNone.symm.trans hKept
    · exact ⟨m, hSame.symm.trans hKept, hListed⟩

/-- An event that injects nothing and tells nothing new. -/
theorem next (h : Knows events c) (hInjected : ∀ id, e.injected? id = none)
    (hTold : ∀ id v upToDate, e = .told id (.ok (.found v upToDate)) →
      lastInjection id events = none → c.fetched.get? id = some v) : Knows (e :: events) c := by
  have hLast (id : String) : lastInjection id (e :: events) = lastInjection id events := by
    rw [lastInjection_cons, hInjected, Option.none_or]
  refine ⟨fun id => (h.injected id).trans (hLast id).symm, h.fetched, fun id v upToDate hMem => ?_⟩
  rw [hLast]
  obtain hHead | hMem := List.mem_cons.1 hMem
  · exact hTold id v upToDate hHead.symm
  · exact h.told id v upToDate hMem

/-- An injection goes before what was injected earlier and what was told. -/
theorem inject (h : Knows events c) :
    Knows (.injected (.ok v) :: events) { c with injected := c.injected.insert v.id v } where
  injected id := by
    rw [OrderedMap.get?_insert, lastInjection_cons, VersionEvent.injected?, h.injected]
    split <;> rfl
  fetched := h.fetched
  told id w upToDate hMem hNone := by
    rw [lastInjection_cons, Option.or_eq_none_iff] at hNone
    exact h.told id w upToDate ((List.mem_cons.1 hMem).resolve_left nofun) hNone.2

/-- A version that the manifest lists is fetched, if it was not fetched before. -/
theorem fetch (h : Knows events c) (hNone : c.fetched.get? id = none)
    (hManifest : c.manifest = some m) (hListed : id ∈ listedIds m) :
    Knows events { c with fetched := c.fetched.insert id v } where
  injected := h.injected
  fetched id' hFetched := by
    obtain rfl | hFetched := OrderedMap.get?_insert_ne_none.1 hFetched
    · exact ⟨m, hManifest, hListed⟩
    · exact h.fetched id' hFetched
  told id' w upToDate hMem hLast := by
    have hTold := h.told id' w upToDate hMem hLast
    rw [OrderedMap.get?_insert, if_neg]
    · exact hTold
    · -- nothing was told of a version that is fetched only now
      rintro rfl
      cases hNone.symm.trans hTold

/-- **Every event keeps what is known.** -/
theorem happens (h : Knows events s.cache) (hHappens : Happens r s e t) :
    Knows (e :: events) t.cache := by
  cases hHappens with
  | injected hRun =>
    obtain ⟨e, hDescribed, -, hCache⟩ | ⟨v, hDescribed, -, hCache⟩ := inject_cases hRun
    · rw [hDescribed, hCache]
      exact h.next (fun _ => rfl) fun _ _ _ hEvent => nomatch hEvent
    · rw [hDescribed, hCache]
      exact h.inject
  | listed hRun =>
    obtain ⟨e, -, hManifest⟩ | ⟨m, hManifest, -⟩ := versions_cases hRun
    · exact (h.asksManifest hManifest).next (fun _ => rfl) fun _ _ _ hEvent => nomatch hEvent
    · exact (h.asksManifest hManifest).next (fun _ => rfl) fun _ _ _ hEvent => nomatch hEvent
  | latest hRun =>
    obtain ⟨_, hManifest⟩ := latest_asks hRun
    exact (h.asksManifest hManifest).next (fun _ => rfl) fun _ _ _ hEvent => nomatch hEvent
  | @told id answer t hRun =>
    have hTells := tells hRun
    generalize t.cache = c at hTells ⊢
    cases hTells with
    | known hKnown =>
      refine h.next (fun _ => rfl) fun _ w _ hEvent hLast => ?_
      cases hEvent
      -- without an injection it can only be what was fetched
      rwa [h.injected, hLast, Option.none_or] at hKnown
    | failed hUnknown hManifest hListed =>
      exact (h.asksManifest hManifest).next (fun _ => rfl) fun _ _ _ hEvent => nomatch hEvent
    | unlisted hUnknown hManifest hListed =>
      exact (h.asksManifest hManifest).next (fun _ => rfl) fun _ _ _ hEvent => nomatch hEvent
    | fetched hUnknown hManifest hListed =>
      have hAsked := h.asksManifest hManifest
      cases hManifest with
      | found =>
        refine (hAsked.fetch (Option.or_eq_none_iff.1 hUnknown).2 rfl hListed).next (fun _ => rfl)
          fun _ w _ hEvent _ => ?_
        cases hEvent
        rw [OrderedMap.get?_insert, if_pos rfl]
  | outside => exact h.next (fun _ => rfl) fun _ _ _ hEvent => nomatch hEvent

end Knows

/-- **Whatever happens, it is known what is kept.** -/
theorem Run.knows (h : Run r events s) : Knows events s.cache := by
  induction h with
  | start => exact .start
  | next _ hHappens ih => exact ih.happens hHappens

-- ---------------------------------------------------------------------------
-- The views
-- ---------------------------------------------------------------------------

theorem mem_viewedIds :
    id ∈ viewedIds c m ↔ id ∈ c.injected.values.map (·.id) ∨ id ∈ listedIds m := by
  rw [viewedIds, List.mem_append, List.mem_filter, decide_eq_true_iff]
  tauto

namespace Knows

/-- An injected descriptor is kept under its own name. -/
theorem ids_injected (h : Knows events c) : c.injected.values.map (·.id) = c.injected.keys := by
  rw [OrderedMap.values, OrderedMap.keys, List.map_map]
  refine List.map_congr_left fun entry hEntry => ?_
  have hLast : lastInjection entry.1 events = some entry.2 := by
    rw [← h.injected, OrderedMap.get?_eq_some]
    exact hEntry
  exact id_of_lastInjection hLast

theorem mem_viewedIds_iff (h : Knows events c) :
    id ∈ viewedIds c m ↔ lastInjection id events ≠ none ∨ id ∈ listedIds m := by
  rw [mem_viewedIds, h.ids_injected, ← h.injected, ne_eq, OrderedMap.get?_eq_none, not_not]

theorem count_viewedIds (h : Knows events c) (hViewed : id ∈ viewedIds c m)
    (hOnce : (listedIds m).count id ≤ 1) : (viewedIds c m).count id = 1 := by
  have hPositive : 0 < (viewedIds c m).count id := List.count_pos_iff.2 hViewed
  have hNodup : (c.injected.values.map (·.id)).Nodup := by
    rw [h.ids_injected]
    exact c.injected.nodup
  have hInjected := List.nodup_iff_count_le_one.1 hNodup id
  rw [viewedIds, List.count_append] at hPositive ⊢
  -- a name is in one of the two groups only
  by_cases hMem : id ∈ c.injected.values.map (·.id)
  · have hApart : ((listedIds m).filter (· ∉ c.injected.values.map (·.id))).count id = 0 :=
      List.count_eq_zero.2 fun hListed => (decide_eq_true_iff.1 (List.mem_filter.1 hListed).2) hMem
    omega
  · have hZero : (c.injected.values.map (·.id)).count id = 0 := List.count_eq_zero.2 hMem
    have hFewer := (List.filter_sublist (l := listedIds m)
      (p := (· ∉ c.injected.values.map (·.id)))).count_le id
    omega

/-- Once the manifest is there, something is known about the versions that are injected or listed, and
about no others. -/
theorem known_iff (h : Knows events s.cache) (hManifest : s.cache.manifest = some m) :
    lastInjection id events ≠ none ∨ id ∈ listedIds m ↔
      ((r.descriptor id).run.run s).1 ≠ .ok .notFound := by
  obtain ⟨answer, t, hRun⟩ : ∃ answer t, (r.descriptor id).run.run s = (answer, t) := ⟨_, _, rfl⟩
  have hTells := tells hRun
  generalize t.cache = c at hTells
  rw [hRun, ← h.injected]
  cases hTells with
  | known hKnown =>
    refine iff_of_true ?_ nofun
    cases hInjected : s.cache.injected.get? id with
    | some v => exact .inl nofun
    | none =>
      rw [hInjected, Option.none_or] at hKnown
      -- it was fetched because a manifest lists it, and the manifest has not changed since
      obtain ⟨m', hKept, hListed⟩ := h.fetched id (by rw [hKnown]; nofun)
      cases hManifest.symm.trans hKept
      exact .inr hListed
  | failed _ hAsks hListed =>
    exact iff_of_true (.inr (hListed m (hAsks.of_known hManifest))) nofun
  | unlisted hUnknown hAsks hListed =>
    cases hAsks.of_known hManifest
    refine iff_of_false ?_ (· rfl)
    exact fun hKnown => hKnown.elim (· (Option.or_eq_none_iff.1 hUnknown).1) hListed
  | fetched _ hAsks hListed =>
    cases hAsks.of_known hManifest
    exact iff_of_true (.inr hListed) nofun

end Knows

/-- **The views of a repository agree** at any point of any run. Of the versions that are listed all
are known and no others, and each stands once that the manifest lists once at most. An injected
version is told as it was injected last, and any other one as it was told first; both are told without
touching the world. -/
theorem views_agree (h : Run r events s) :
    (∀ list upToDate t, r.versions.run.run s = (.ok (.found list upToDate), t) →
      (∀ id, id ∈ list.map (·.id) ↔ ((r.descriptor id).run.run t).1 ≠ .ok .notFound) ∧
        ∃ m, r.manifest.run.run t = (.ok m, t) ∧ ∀ id ∈ list.map (·.id),
          (listedIds m).count id ≤ 1 → (list.map (·.id)).count id = 1) ∧
      (∀ id v, lastInjection id events = some v →
        (r.descriptor id).run.run s = (.ok (.found v true), s)) ∧
      ∀ id v upToDate, lastInjection id events = none →
        .told id (.ok (.found v upToDate)) ∈ events →
          (r.descriptor id).run.run s = (.ok (.found v true), s) := by
  have hKnows := h.knows
  refine ⟨fun list upToDate t hRun => ?_, fun id v hLast => ?_, fun id v upToDate hNone hTold => ?_⟩
  · obtain ⟨e, hFail, -⟩ | ⟨m, hManifest, hPerm⟩ := versions_cases hRun
    · cases hFail
    · have hPerm := hPerm list upToDate rfl
      have hAsked : Knows events t.cache := hKnows.asksManifest hManifest
      have hKept : t.cache.manifest = some m := hManifest.kept
      refine ⟨fun id => ?_, m, run_manifest_of_known hKept, fun id hListed hOnce => ?_⟩
      · rw [hPerm.mem_iff, hAsked.mem_viewedIds_iff]
        exact hAsked.known_iff hKept
      · rw [hPerm.count_eq]
        exact hAsked.count_viewedIds (hPerm.mem_iff.1 hListed) hOnce
  · refine run_descriptor_of_known ?_
    rw [hKnows.injected, hLast, Option.some_or]
  · refine run_descriptor_of_known ?_
    rw [hKnows.injected, hNone, Option.none_or]
    exact hKnows.told id v upToDate hTold hNone

-- ---------------------------------------------------------------------------
-- An example
-- ---------------------------------------------------------------------------

/-- A manifest of one version. -/
def shortManifestText : String :=
  "\x7b\"versions\":[\x7b\"id\":\"2\",\"type\":\"release\",\"url\":\"v\"\x7d]\x7d"

/-- A descriptor that does not go by the name of that version. -/
def shortDescriptorText : String := "\x7b\"id\":\"1\",\"type\":\"release\"\x7d"

def shortManifest : VersionManifest :=
  (VersionManifest.parse? shortManifestText).get (by decide +kernel)

def shortDescriptor : VersionDescriptor :=
  (VersionDescriptor.parse? shortDescriptorText).get (by decide +kernel)

def shortWorld : World where
  store := ⟨⟨[
    (["shared"], .directory),
    (["shared", "version_manifest_v2.json"], .file (.ofText shortManifestText)),
    (["shared", "versions"], .directory),
    (["shared", "versions", "2"], .directory),
    (["shared", "versions", "2", "2.json"], .file (.ofText shortDescriptorText))],
    by decide +kernel⟩, 0⟩
  remote := none
  requests := []

def shortRepository : VersionRepository := ⟨.direct "shared", "m"⟩

/-- The version was told from the cache. -/
def shortTold : VersionState := ((shortRepository.descriptor "2").run.run ⟨shortWorld, .empty⟩).2

/-- Then its descriptor was injected. -/
def shortInjected : VersionState := ((inject "shared/versions/2/2.json").run.run shortTold).2

theorem run_shortTold : (shortRepository.descriptor "2").run.run ⟨shortWorld, .empty⟩ =
    (.ok (.found shortDescriptor true), shortTold) ∧ shortTold.world = shortWorld := by
  have hCached : Cached "shared" "2" shortManifest shortDescriptor shortWorld.store :=
    { manifest := ⟨shortManifestText, by decide +kernel, (Option.some_get _).symm⟩
      listed := by decide +kernel
      descriptor := ⟨shortDescriptorText, by decide +kernel, (Option.some_get _).symm⟩ }
  obtain ⟨c, hRun⟩ := run_descriptor_cached (r := shortRepository) rfl hCached
  rw [shortTold, hRun]
  exact ⟨rfl, rfl⟩

theorem described_short :
    described "shared/versions/2/2.json" shortTold.world.store = .ok shortDescriptor := by
  have hText : ((FileAction.readText "shared/versions/2/2.json").run.run shortWorld.store).1 =
      .ok shortDescriptorText := by decide +kernel
  rw [run_shortTold.2, described_of_ok hText]
  exact document_eq_ok.2 (Option.some_get _).symm

theorem found_of_map {α β : Type} {f : α → β} {x : VersionAction (Lookup α)} {b : β}
    (h : (x.run.run s).1.map (Lookup.map f) = .ok (.found b upToDate)) :
    ∃ a t, x.run.run s = (.ok (.found a upToDate), t) ∧ f a = b := by
  generalize x.run.run s = run at h ⊢
  obtain ⟨_ | _ | ⟨a, u⟩, t⟩ := run
  · cases h
  · cases h
  · cases h
    exact ⟨a, t, rfl, rfl⟩

/-- The descriptor is injected under the name that it gives itself. Both versions are listed and told,
and of a third one nothing is known. -/
theorem views_agree_injected :
    Run shortRepository [.injected (.ok shortDescriptor),
        .told "2" (.ok (.found shortDescriptor true))] shortInjected ∧
      (∃ list t, shortRepository.versions.run.run shortInjected = (.ok (.found list true), t) ∧
        list.map (·.id) = ["1", "2"] ∧
        ((shortRepository.descriptor "3").run.run t).1 = .ok .notFound) ∧
      (shortRepository.descriptor "1").run.run shortInjected =
        (.ok (.found shortDescriptor true), shortInjected) ∧
      (shortRepository.descriptor "2").run.run shortInjected =
        (.ok (.found shortDescriptor true), shortInjected) := by
  have hTold : Happens shortRepository ⟨shortWorld, .empty⟩
    (.told "2" (.ok (.found shortDescriptor true))) shortTold := .told run_shortTold.1
  have hInjected : Happens shortRepository shortTold
      (.injected (.ok shortDescriptor)) shortInjected := by
    rw [← described_short, shortInjected]
    exact .injected Prod.mk.eta.symm
  have hRun : Run shortRepository [.injected (.ok shortDescriptor),
      .told "2" (.ok (.found shortDescriptor true))] shortInjected :=
    .next (.next .start hTold) hInjected
  obtain ⟨hViews, hLast, hAgain⟩ := views_agree hRun
  have hId : shortDescriptor.id = "1" := by decide +kernel
  refine ⟨hRun, ?_, hLast "1" _ ?_, hAgain "2" _ true ?_ (.tail _ (.head _))⟩
  · have hListed : (shortRepository.versions.run.run shortInjected).1.map
        (Lookup.map (List.map (·.id))) = .ok (.found ["1", "2"] true) := by decide +kernel
    obtain ⟨list, t, hVersions, hIds⟩ := found_of_map hListed
    refine ⟨list, t, hVersions, hIds, ?_⟩
    obtain ⟨hKnown, -⟩ := hViews list true t hVersions
    have hNot : "3" ∉ list.map (·.id) := by
      rw [hIds]
      decide
    exact not_not.1 (mt (hKnown "3").2 hNot)
  · simp [lastInjection, VersionEvent.injected?, hId]
  · simp [lastInjection, VersionEvent.injected?, hId]

end VersionRepository

end Jarsmith
