import Jarsmith.Downloader
import Jarsmith.Proofs.Store.Footprint

/-!
# What downloaders promise

A downloader changes nothing but the file that it is asked for. It takes a file that is there and has
the digest that it must have, and what it gives with a digest has that digest.

* `World.Frame` — what happens to the files, while the remote stays.
* `Downloader.Careful` — the promises; `Downloader.careful_direct` and `Downloader.careful_staged`.
* `Downloader.Steady` — a file that was found is found again for as long as nothing outside changes;
  `Downloader.steady_direct` and `Downloader.steady_staged`.
-/

namespace Jarsmith

open Running Store

variable {touched dropped : List String → Prop} {w w' : World} {α : Type} {url target path : String}
  {a : HashAlgorithm} {digest : String} {content : Content} {upToDate : Bool}

-- ---------------------------------------------------------------------------
-- Worlds
-- ---------------------------------------------------------------------------

/-- What happens to the files of a world; the remote stays. -/
def World.Frame (touched dropped : List String → Prop) (w w' : World) : Prop :=
  w'.remote = w.remote ∧ Store.Frame touched dropped w.store w'.store

instance : IsPreorder World (World.Frame touched dropped) where
  refl w := ⟨rfl, refl_of (Store.Frame touched dropped) w.store⟩
  trans _ _ _ h h' := ⟨h'.1.trans h.1, trans_of _ h.2 h'.2⟩

theorem World.Frame.mono {touched' dropped' : List String → Prop}
    (h : World.Frame touched dropped w w') (hTouched : ∀ p, touched p → touched' p)
    (hDropped : ∀ p, dropped p → dropped' p) : World.Frame touched' dropped' w w' :=
  ⟨h.1, h.2.mono hTouched hDropped⟩

/-- A computation on files, as one on the world. -/
theorem Running.files_iff {x : FileAction α} {r : Result α} :
    (liftM x : Action α).run.run w = (r, w') ↔
      ∃ s, x.run.run w.store = (r, s) ∧ { w with store := s } = w' := onPart_iff

theorem Respects.files {x : FileAction α} (hx : Respects (Store.Frame touched dropped) x) :
    Respects (World.Frame touched dropped) (liftM x : Action α) where
  run h := by
    obtain ⟨s, hRun, rfl⟩ := files_iff.1 h
    exact ⟨rfl, hx.run hRun⟩

theorem World.frame_ask : Respects (World.Frame touched dropped) (World.ask url) := by
  refine .bind ⟨fun h => ?_⟩ fun _ => .bind .get fun w => ?_
  · cases h
    exact ⟨rfl, refl_of _ _⟩
  · split
    · exact .throw
    · split
      · exact .pure
      · exact .pure
      · exact .throw

-- ---------------------------------------------------------------------------
-- Promises
-- ---------------------------------------------------------------------------

namespace Downloader

/-- There is a file with a digest at a path. -/
def HasDigest (s : Store) (path : String) (a : HashAlgorithm) (digest : String) : Prop :=
  ∃ content, s.content path = .ok content ∧ a.isValid content.bytes digest = true

/-- A downloader that touches nothing but the file that it is asked for, takes a file that has the
digest that it must have, and only then tells that the file was there. -/
structure Careful (d : Downloader) : Prop where
  frame_fetch : ∀ url target,
    Respects (World.Frame (· = placeOf target) (· = placeOf target)) (d.fetch url target)
  frame_fetchValid : ∀ url target a digest, Respects
    (World.Frame (· = placeOf target) (· = placeOf target)) (d.fetchValid url target a digest)
  eq_of_fetch : ∀ {url target path upToDate w w'},
    (d.fetch url target).run.run w = (.ok (.found path upToDate), w') → path = target
  valid_of_fetchValid : ∀ {url target a digest path upToDate w w'},
    (d.fetchValid url target a digest).run.run w = (.ok (.found path upToDate), w') →
      path = target ∧ HasDigest w'.store target a digest
  there_of_fetchValid : ∀ {url target a digest path w w'},
    (d.fetchValid url target a digest).run.run w = (.ok (.found path true), w') →
      HasDigest w.store target a digest
  fetchValid_of_there : ∀ {url target a digest w}, HasDigest w.store target a digest →
    (d.fetchValid url target a digest).run.run w = (.ok (.found target true), w)

/-- A file that is up to date was there, and nothing happened. -/
theorem Careful.eq_of_upToDate {d : Downloader} (h : d.Careful)
    (hRun : (d.fetchValid url target a digest).run.run w = (.ok (.found path true), w')) :
    w' = w := by
  exact (Prod.mk.inj (hRun.symm.trans (h.fetchValid_of_there (h.there_of_fetchValid hRun)))).2

/-- A downloader that finds a file without a digest again, for as long as the remote, the file and
the directories stay. -/
structure Steady (d : Downloader) : Prop extends d.Careful where
  fetch_again : ∀ {url target path upToDate w w₁ w₂},
    (d.fetch url target).run.run w = (.ok (.found path upToDate), w₁) → w₂.remote = w₁.remote →
      (∀ p, w₁.store.node? p = some .directory → w₂.store.node? p = some .directory) →
      w₂.store.fileAt? (placeOf target) = w₁.store.fileAt? (placeOf target) →
        ∃ again w₃, (d.fetch url target).run.run w₂ = (.ok (.found path again), w₃) ∧
          SameFiles w₂.store w₃.store

-- ---------------------------------------------------------------------------
-- Looking at the place
-- ---------------------------------------------------------------------------

theorem at?_eq_file {s : Store} :
    s.at? path = some (.file content) ↔ s.content path = .ok content := by
  rw [content_eq_ok, Store.at?]
  cases s.locate path with
  | error fault => exact iff_of_false nofun nofun
  | ok place => simp

theorem run_isValid {s t : Store} {r : Result Bool}
    (h : (FileAction.isValid a path digest).run.run s = (r, t)) :
    s = t ∧ ∃ b, .ok b = r ∧ (b = true ↔ HasDigest s path a digest) := by
  have hGet : (getThe Store : FileAction Store).run.run s = (.ok s, s) := rfl
  rw [FileAction.isValid, bind_of_ok hGet] at h
  split at h
  · rename_i content hAt
    obtain ⟨rfl, rfl⟩ := pure_iff.1 h
    refine ⟨rfl, _, rfl, fun hValid => ⟨content, at?_eq_file.1 hAt, hValid⟩, ?_⟩
    rintro ⟨other, hContent, hValid⟩
    obtain rfl := Except.ok.inj (hContent.symm.trans (at?_eq_file.1 hAt))
    exact hValid
  · rename_i hAt
    obtain ⟨rfl, rfl⟩ := pure_iff.1 h
    exact ⟨rfl, _, rfl, nofun, fun ⟨content, hContent, _⟩ => absurd (at?_eq_file.2 hContent) (hAt _)⟩

theorem exists_content_of_isFile {s : Store} (h : s.isFile path = true) :
    ∃ content, s.content path = .ok content := by
  obtain ⟨hLocate, hFile⟩ := isFile_iff.1 h
  obtain ⟨content, hContent⟩ := Option.ne_none_iff_exists'.1 hFile
  exact ⟨content, content_iff.2 ⟨hLocate, hContent⟩⟩

/-- The first step of a fetch with a digest. -/
theorem bind_isValid {f : Bool → Action α} {r : Result α} :
    ((liftM (FileAction.isValid a path digest) : Action Bool) >>= f).run.run w = (r, w') ↔
      (HasDigest w.store path a digest ∧ (f true).run.run w = (r, w')) ∨
        (¬ HasDigest w.store path a digest ∧ (f false).run.run w = (r, w')) := by
  have hRun : ∃ b, (liftM (FileAction.isValid a path digest) : Action Bool).run.run w =
      (.ok b, w) ∧ (b = true ↔ HasDigest w.store path a digest) := by
    rcases hRun : (FileAction.isValid a path digest).run.run w.store with ⟨r, t⟩
    obtain ⟨rfl, b, rfl, hb⟩ := run_isValid hRun
    exact ⟨b, files_iff.2 ⟨_, hRun, rfl⟩, hb⟩
  obtain ⟨b, hRun, hb⟩ := hRun
  rw [bind_of_ok hRun]
  cases b with
  | true => simp [hb.1 rfl]
  | false =>
    have hNot : ¬ HasDigest w.store path a digest := fun h => nomatch hb.2 h
    simp [hNot]

/-- The first step of a fetch. -/
theorem bind_isFile {f : Bool → Action α} {r : Result α} :
    ((liftM (FileAction.isFile path) : Action Bool) >>= f).run.run w = (r, w') ↔
      (f (w.store.isFile path)).run.run w = (r, w') := by
  have hRun : (liftM (FileAction.isFile path) : Action Bool).run.run w =
      (.ok (w.store.isFile path), w) := rfl
  rw [bind_of_ok hRun]

-- ---------------------------------------------------------------------------
-- Straight to the place
-- ---------------------------------------------------------------------------

theorem frame_fetchDirect :
    Respects (World.Frame (· = placeOf target) (· = placeOf target)) (fetchDirect url target) := by
  refine .bind World.frame_ask fun found => ?_
  cases found with
  | none => exact .pure
  | some content =>
    refine .bind FileAction.frame_makeParents.files fun _ => .bind (.files ?_) fun _ => .pure
    exact FileAction.frame_write.imp fun h => h.mono (fun _ => id) nofun

theorem content_of_fetchDirect
    (h : (fetchDirect url target).run.run w = (.ok (.found path upToDate), w')) :
    path = target ∧ upToDate = false ∧ ∃ content, w'.store.content target = .ok content := by
  obtain ⟨found, _, -, h⟩ := bind_ok_iff.1 h
  cases found with
  | none => cases (pure_iff.1 h).1
  | some content =>
    obtain ⟨_, _, -, h⟩ := bind_ok_iff.1 h
    obtain ⟨_, w₂, hStep, h⟩ := bind_ok_iff.1 h
    obtain ⟨hFound, rfl⟩ := pure_iff.1 h
    cases hFound
    obtain ⟨s, hWrite, rfl⟩ := files_iff.1 hStep
    obtain ⟨_, -, hError, -⟩ | ⟨hPut, -⟩ := FileAction.run_change.1 hWrite
    · cases hError
    · exact ⟨rfl, rfl, content, content_put hPut⟩

theorem frame_check {found : Lookup String} :
    Respects (Store.Frame touched dropped) (check a digest found) := by
  cases found with
  | notFound => exact .pure
  | found path upToDate =>
    refine FileAction.frame_digest.bind fun actual => ?_
    split
    · exact .throw
    · exact .pure

theorem hasDigest_of_check {s t : Store}
    (h : (check a digest (.found path upToDate)).run.run s = (.ok (), t)) :
    t = s ∧ HasDigest s path a digest := by
  obtain ⟨actual, _, hDigest, h⟩ := bind_ok_iff.1 h
  obtain ⟨content, _, hRead, hDigest⟩ := bind_ok_iff.1 hDigest
  obtain ⟨hContent, rfl⟩ := FileAction.run_look.1 hRead
  obtain ⟨hActual, rfl⟩ := pure_iff.1 hDigest
  cases hActual
  split at h
  · cases (throw_iff.1 h).1
  · rename_i hSame
    obtain ⟨-, rfl⟩ := pure_iff.1 h
    exact ⟨rfl, content, Outcome.mapError_ok_iff.1 hContent,
      by simpa [HashAlgorithm.isValid] using hSame⟩

theorem careful_direct (root : String) : (direct root).Careful where
  frame_fetch url target := by
    refine FileAction.frame_isFile.files.bind fun there => ?_
    split
    · exact .pure
    · exact frame_fetchDirect
  frame_fetchValid url target a digest := by
    refine FileAction.frame_isValid.files.bind fun there => ?_
    split
    · exact .pure
    · exact frame_fetchDirect.bind fun _ => frame_check.files.bind fun _ => .pure
  eq_of_fetch h := by
    rw [direct, bind_isFile] at h
    split at h
    · cases (pure_iff.1 h).1
      rfl
    · exact (content_of_fetchDirect h).1
  valid_of_fetchValid h := by
    obtain ⟨hThere, h⟩ | ⟨-, h⟩ := bind_isValid.1 h
    · obtain ⟨hFound, rfl⟩ := pure_iff.1 h
      cases hFound
      exact ⟨rfl, hThere⟩
    · obtain ⟨fetched, w₁, hFetch, h⟩ := bind_ok_iff.1 h
      obtain ⟨_, w₂, hStep, h⟩ := bind_ok_iff.1 h
      obtain ⟨hFound, rfl⟩ := pure_iff.1 h
      cases hFound
      obtain ⟨rfl, -⟩ := content_of_fetchDirect hFetch
      obtain ⟨s, hCheck, rfl⟩ := files_iff.1 hStep
      obtain ⟨rfl, hDigest⟩ := hasDigest_of_check hCheck
      exact ⟨rfl, hDigest⟩
  there_of_fetchValid h := by
    obtain ⟨hThere, -⟩ | ⟨-, h⟩ := bind_isValid.1 h
    · exact hThere
    · obtain ⟨fetched, w₁, hFetch, h⟩ := bind_ok_iff.1 h
      obtain ⟨_, w₂, -, h⟩ := bind_ok_iff.1 h
      cases (pure_iff.1 h).1
      cases (content_of_fetchDirect hFetch).2.1
  fetchValid_of_there hThere := bind_isValid.2 (.inl ⟨hThere, pure_iff.2 ⟨rfl, rfl⟩⟩)

-- ---------------------------------------------------------------------------
-- By a staged file
-- ---------------------------------------------------------------------------

variable {accept : Content → Result Unit}

theorem changesOnly_staged {staged : String} : FileAction.ChangesOnly staged
    (FileAction.write staged content >>= fun _ => FileAction.lift (accept content)) :=
  FileAction.ChangesOnly.write.bind fun _ => FileAction.ChangesOnly.lift

theorem frame_fetchStaged : Respects (World.Frame (· = placeOf target) (· = placeOf target))
    (fetchStaged accept url target) := by
  refine .bind World.frame_ask fun found => ?_
  cases found with
  | none => exact .pure
  | some content =>
    refine .bind (.files ?_) fun _ => .pure
    exact (FileAction.frame_writeAtomically fun _ => changesOnly_staged).imp
      fun h => h.mono (fun _ => id) nofun

/-- What a staged fetch puts at its target was accepted. -/
theorem content_of_fetchStaged
    (h : (fetchStaged accept url target).run.run w = (.ok (.found path upToDate), w')) :
    path = target ∧ upToDate = false ∧
      ∃ content, w'.store.content target = .ok content ∧ accept content = .ok () := by
  obtain ⟨found, _, -, h⟩ := bind_ok_iff.1 h
  cases found with
  | none => cases (pure_iff.1 h).1
  | some content =>
    obtain ⟨_, w₂, hStep, h⟩ := bind_ok_iff.1 h
    obtain ⟨hFound, rfl⟩ := pure_iff.1 h
    cases hFound
    obtain ⟨s, hWrite, rfl⟩ := files_iff.1 hStep
    obtain ⟨_, _, t, place, made, -, hMake, hMade, hLocate, hNode, -⟩ :=
      FileAction.writeAtomically_eq_ok (fun _ => changesOnly_staged) hWrite
    obtain ⟨_, _, hPut, hCheck⟩ := bind_ok_iff.1 hMake
    obtain ⟨hAccept, rfl⟩ := FileAction.run_lift.1 hCheck
    obtain ⟨_, -, hError, -⟩ | ⟨hPut, -⟩ := FileAction.run_change.1 hPut
    · cases hError
    obtain rfl := Except.ok.inj ((content_put hPut).symm.trans hMade)
    exact ⟨rfl, rfl, content, content_eq_ok.2 ⟨place, hLocate, hNode⟩, hAccept⟩

theorem frame_fetchChecked {again : Nat} :
    Respects (World.Frame (· = placeOf target) (· = placeOf target))
      (fetchChecked url target a digest again) := by
  induction again with
  | zero => exact frame_fetchStaged
  | succ again ih =>
    refine .tryCatch frame_fetchStaged fun e => ?_
    split
    · exact ih
    · exact .throw

theorem hasDigest_of_fetchChecked {again : Nat}
    (h : (fetchChecked url target a digest again).run.run w = (.ok (.found path upToDate), w')) :
    path = target ∧ upToDate = false ∧ HasDigest w'.store target a digest := by
  have hOnce : ∀ {w}, (fetchStaged (accepts target a digest) url target).run.run w =
      (.ok (.found path upToDate), w') →
        path = target ∧ upToDate = false ∧ HasDigest w'.store target a digest := by
    intro w h
    obtain ⟨hPath, hFresh, content, hContent, hAccept⟩ := content_of_fetchStaged h
    refine ⟨hPath, hFresh, content, hContent, ?_⟩
    by_contra hInvalid
    rw [HashAlgorithm.isValid] at hInvalid
    rw [accepts, if_neg hInvalid] at hAccept
    cases hAccept
  induction again generalizing w with
  | zero => exact hOnce h
  | succ again ih =>
    rw [fetchChecked, ExceptT.run_tryCatch, StateT.run_bind] at h
    cases hFirst : (fetchStaged (accepts target a digest) url target).run.run w with
    | mk q t =>
      rw [hFirst] at h
      cases q with
      | ok found =>
        cases h
        exact hOnce hFirst
      | error e =>
        cases e with
        | hashMismatch => exact ih h
        | _ => cases h

/-- What a staged downloader does when there is no file with the digest. -/
theorem frame_fetchAllowed {mode : ResolveMode} {again : Nat} :
    Respects (World.Frame (· = placeOf target) (· = placeOf target))
      (if mode.allowsRemote then fetchChecked url target a digest again
        else pure .notFound : Action (Lookup String)) := by
  split
  · exact frame_fetchChecked
  · exact .pure

theorem hasDigest_of_fetchAllowed {mode : ResolveMode} {again : Nat}
    (h : (if mode.allowsRemote then fetchChecked url target a digest again
      else pure .notFound : Action (Lookup String)).run.run w = (.ok (.found path upToDate), w')) :
    path = target ∧ upToDate = false ∧ HasDigest w'.store target a digest := by
  split at h
  · exact hasDigest_of_fetchChecked h
  · cases (pure_iff.1 h).1

/-- What a staged downloader finds was there with its digest, or is fresh and has it. -/
theorem hasDigest_of_staged {mode : ResolveMode} {root : String}
    (h : ((staged mode root).fetchValid url target a digest).run.run w =
      (.ok (.found path upToDate), w')) :
    path = target ∧ (HasDigest w.store target a digest ∧ w' = w ∨
      upToDate = false ∧ HasDigest w'.store target a digest) := by
  obtain ⟨hThere, h⟩ | ⟨-, h⟩ := bind_isValid.1 h
  · obtain ⟨hFound, rfl⟩ := pure_iff.1 h
    cases hFound
    exact ⟨rfl, .inl ⟨hThere, rfl⟩⟩
  · have hRest : ∃ w₁, (if mode.allowsRemote then
        fetchChecked url target a digest (attempts - 1)
        else pure .notFound : Action (Lookup String)).run.run w₁ =
          (.ok (.found path upToDate), w') := by
      rw [if_neg Bool.false_ne_true, bind_isFile] at h
      cases hThere : w.store.isFile target with
      | true =>
        rw [hThere] at h
        obtain ⟨_, w₁, -, h⟩ := bind_ok_iff.1 h
        exact ⟨w₁, h⟩
      | false =>
        rw [hThere] at h
        exact ⟨w, h⟩
    obtain ⟨w₁, hRest⟩ := hRest
    exact (hasDigest_of_fetchAllowed hRest).imp_right .inr

theorem careful_staged (mode : ResolveMode) (root : String) : (staged mode root).Careful where
  frame_fetch url target := by
    refine FileAction.frame_isFile.files.bind fun there => ?_
    split
    · exact .pure
    · split
      · exact frame_fetchStaged
      · exact .pure
  frame_fetchValid url target a digest := by
    refine FileAction.frame_isValid.files.bind fun valid => ?_
    split
    · exact .pure
    · refine FileAction.frame_isFile.files.bind fun there => ?_
      cases there with
      | true => exact FileAction.frame_discard.files.bind fun _ => frame_fetchAllowed
      | false => exact frame_fetchAllowed
  eq_of_fetch h := by
    rw [staged, bind_isFile] at h
    split at h
    · cases (pure_iff.1 h).1
      rfl
    · split at h
      · exact (content_of_fetchStaged h).1
      · cases (pure_iff.1 h).1
  valid_of_fetchValid h := by
    obtain ⟨rfl, ⟨hThere, rfl⟩ | ⟨-, hDigest⟩⟩ := hasDigest_of_staged h
    · exact ⟨rfl, hThere⟩
    · exact ⟨rfl, hDigest⟩
  there_of_fetchValid h := by
    obtain ⟨-, ⟨hThere, -⟩ | ⟨hFresh, -⟩⟩ := hasDigest_of_staged h
    · exact hThere
    · cases hFresh
  fetchValid_of_there hThere := bind_isValid.2 (.inl ⟨hThere, pure_iff.2 ⟨rfl, rfl⟩⟩)

/-- A file that is at its place is taken as it is. -/
theorem fetch_again_of_isFile {fetch : String → String → Action (Lookup String)} {w₁ w₂ : World}
    (hTakes : ∀ {w}, w.store.isFile target = true →
      (fetch url target).run.run w = (.ok (.found target true), w))
    (hThere : w₁.store.isFile target = true)
    (hDirectories : ∀ p, w₁.store.node? p = some .directory → w₂.store.node? p = some .directory)
    (hFile : w₂.store.fileAt? (placeOf target) = w₁.store.fileAt? (placeOf target)) :
    ∃ again w₃, (fetch url target).run.run w₂ = (.ok (.found target again), w₃) ∧
      SameFiles w₂.store w₃.store := by
  obtain ⟨hLocate, hNe⟩ := isFile_iff.1 hThere
  have hAgain : w₂.store.isFile target = true :=
    isFile_iff.2 ⟨locate_of_file hDirectories hLocate hNe, by rwa [hFile]⟩
  exact ⟨true, w₂, hTakes hAgain, fun _ => rfl⟩

theorem steady_direct (root : String) : (direct root).Steady where
  toCareful := careful_direct root
  fetch_again {url target path upToDate w w₁ w₂} h _ hDirectories hFile := by
    have hThere : path = target ∧ w₁.store.isFile target = true := by
      rw [direct, bind_isFile] at h
      split at h
      · rename_i hFound
        obtain ⟨hPath, rfl⟩ := pure_iff.1 h
        cases hPath
        exact ⟨rfl, hFound⟩
      · obtain ⟨rfl, -, content, hContent⟩ := content_of_fetchDirect h
        exact ⟨rfl, isFile_of_content hContent⟩
    obtain ⟨rfl, hThere⟩ := hThere
    refine fetch_again_of_isFile (fun {w} hFound => ?_) hThere hDirectories hFile
    rw [direct, bind_isFile, if_pos hFound]
    exact pure_iff.2 ⟨rfl, rfl⟩

/-- A downloader that fetches everything anew that no digest vouches for rewrites its file each
time, which may fail; the others are steady. -/
theorem steady_staged {mode : ResolveMode} (root : String) (hMode : mode ≠ .remoteOnly) :
    (staged mode root).Steady where
  toCareful := careful_staged mode root
  fetch_again {url target path upToDate w w₁ w₂} h _ hDirectories hFile := by
    have hAny : (mode != .remoteOnly) = true := bne_iff_ne.2 hMode
    have hThere : path = target ∧ w₁.store.isFile target = true := by
      rw [staged, bind_isFile, hAny, Bool.true_and] at h
      split at h
      · rename_i hFound
        obtain ⟨hPath, rfl⟩ := pure_iff.1 h
        cases hPath
        exact ⟨rfl, hFound⟩
      · split at h
        · obtain ⟨rfl, -, content, hContent, -⟩ := content_of_fetchStaged h
          exact ⟨rfl, isFile_of_content hContent⟩
        · cases (pure_iff.1 h).1
    obtain ⟨rfl, hThere⟩ := hThere
    refine fetch_again_of_isFile (fun {w} hFound => ?_) hThere hDirectories hFile
    rw [staged, bind_isFile, hAny, hFound]
    exact pure_iff.2 ⟨rfl, rfl⟩

end Downloader

end Jarsmith
