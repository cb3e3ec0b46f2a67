import Jarsmith.Proofs.Store.Moving
import Jarsmith.Proofs.Store.Siblings

/-!
# Staged writes

What others see of a file that is written at a sibling first: either nothing happened, or the whole
file is there. How the content is made does not matter, as long as it is made at the sibling. Only
where the system refuses to rename the sibling, and its copy goes wrong halfway, does the target hold
something else behind a failure.

* `FileAction.run_writeAtomically` — how a staged write runs.
* `FileAction.sameFiles_of_writeAtomically` — a staged write that fails.
* `FileAction.writeAtomically_eq_ok` — a staged write that succeeds.
* `FileAction.exists_writeAtomically` — what can be written where something else could.
-/

namespace Jarsmith

namespace FileAction

open Store

variable {α β : Type} {y : System} {s t u : Store} {a : α} {e : Error} {target : String}
  {make : String → FileAction α} {number : Nat}

theorem sameFiles_makeParents {r : Result Unit} (h : (makeParents target).run.run s = (r, t)) :
    SameFiles s t := by
  unfold makeParents at h
  split at h
  · obtain ⟨-, rfl⟩ := run_pure.1 h
    exact fun _ => rfl
  · obtain ⟨-, rfl⟩ := run_pure.1 h
    exact fun _ => rfl
  · obtain ⟨_, -, -, rfl⟩ | ⟨hMake, -⟩ := run_change.1 h
    · exact fun _ => rfl
    · exact sameFiles_makeAlong hMake

theorem directories_makeParents {r : Result Unit} (h : (makeParents target).run.run s = (r, t)) :
    ∀ p, s.node? p = some .directory → t.node? p = some .directory := by
  unfold makeParents at h
  split at h
  · obtain ⟨-, rfl⟩ := run_pure.1 h
    exact fun _ h => h
  · obtain ⟨-, rfl⟩ := run_pure.1 h
    exact fun _ h => h
  · obtain ⟨_, -, -, rfl⟩ | ⟨hMake, -⟩ := run_change.1 h
    · exact fun _ h => h
    · exact directories_makeAlong hMake

theorem isFile_of_makeParents (h : (makeParents target).run.run s = (.error e, t)) : e.IsFile := by
  unfold makeParents at h
  split at h
  · exact nomatch (run_pure.1 h).1
  · exact nomatch (run_pure.1 h).1
  · exact (run_change_error h).1

/-- A sibling and its target stand at different places. -/
theorem ne_of_siblingPath {a b : List String} (hDots : Path.endsInDots target = false)
    (ha : s.follow [] (Path.names (siblingPath target number)) = .ok a)
    (hb : s.follow [] (Path.names target) = .ok b) : a ≠ b := by
  obtain ⟨name, hLast, hName⟩ := Path.getLast?_names hDots
  obtain ⟨front, hFront⟩ := List.getLast?_eq_some_iff.1 hLast
  rw [hFront] at hb
  obtain ⟨above, rfl⟩ := exists_of_follow_siblingPath ha
  obtain ⟨directory, rfl⟩ := follow_concat hName hb
  have hFile : Path.fileName? target = some name := by
    simp [Path.fileName?, hLast, hName]
  rw [hFile]
  intro hSame
  exact siblingName_ne (List.append_singleton_inj.1 hSame).2

/-- The file that was made at a sibling goes to the target; the sibling, at which nothing stood before,
is gone. -/
theorem move_sibling {more : List String} (hFree : s.isThere (siblingPath target number) = false)
    (h : OnlyAmong (siblingPath target number :: more) s t)
    (hMove : Arrives y (siblingPath target number) target t u) :
    ∃ place content, t.content (siblingPath target number) = .ok content ∧
      u.locate target = .ok place ∧ u.node? place = some (.file content) ∧
      u.isThere (siblingPath target number) = false ∧ u.counter = t.counter ∧
      OnlyAmong (target :: more) s u := by
  obtain ⟨hDots, hSlash, a, place, content, hAt, hNode, hTarget, hMoved⟩ :=
    hMove.spec fun _ => h.node?_ne_directory isDirectoryPath_siblingPath hFree
  have hFollow := (locate_eq_ok.1 hAt).1
  have hFollowTarget := (locate_eq_ok.1 hTarget).1
  obtain hSame | hMoved := hMoved
  · exact absurd hSame (ne_of_siblingPath hDots hFollow hFollowTarget)
  refine ⟨place, content, content_eq_ok.2 ⟨a, hAt, hNode⟩,
    locate_of_follow hSlash (hMoved.directories.follow_eq_ok.2 hFollowTarget), hMoved.after,
    isThere_eq_false.2 fun p hLocate => ?_, hMoved.counter, ?_, fun p hp => ?_⟩
  · have hp := hMoved.directories.follow_eq_ok.1 (locate_eq_ok.1 hLocate).1
    obtain rfl := Except.ok.inj (hFollow.symm.trans hp)
    exact hMoved.gone
  · exact fun p => (hMoved.directories p).trans (h.directories p)
  · obtain ⟨hPlace, hMore⟩ := List.forall_mem_cons.1 hp
    have hPlace : p ≠ place := fun hSame =>
      hPlace (hSame ▸ h.directories.follow_eq_ok.1 hFollowTarget)
    by_cases hSibling : p = a
    · subst hSibling
      have hStart := h.directories.follow_eq_ok.1 hFollow
      rw [fileAt?, hMoved.gone, vacant_of_isThere isDirectoryPath_siblingPath hFree p hStart]
    · have hOther : s.follow [] (Path.names (siblingPath target number)) ≠ .ok p := fun hStart =>
        hSibling (Except.ok.inj ((h.directories.follow_eq_ok.2 hStart).symm.trans hFollow))
      exact (fileAt?_of_node? (hMoved.elsewhere p hSibling hPlace)).trans
        (h.elsewhere p (List.forall_mem_cons.2 ⟨hOther, hMore⟩))

/-- The directories above `target` were made, and its sibling with the given number is to be
written. -/
structure Prepared (target : String) (s start : Store) (number : Nat) : Prop where
  parents : ∃ ready, (makeParents target).run.run s = (.ok (), ready) ∧
    start = { ready with counter := number + 1 }
  free : start.isThere (siblingPath target number) = false

namespace Prepared

variable {start : Store}

theorem sameFiles (h : Prepared target s start number) : SameFiles s start := by
  obtain ⟨ready, hParents, rfl⟩ := h.parents
  exact fun p => (fileAt?_of_node? node?_counter).trans (sameFiles_makeParents hParents p)

theorem directories (h : Prepared target s start number) :
    ∀ p, s.node? p = some .directory → start.node? p = some .directory := by
  obtain ⟨ready, hParents, rfl⟩ := h.parents
  exact fun p hp => node?_counter.trans (directories_makeParents hParents p hp)

theorem counter (h : Prepared target s start number) : start.counter = number + 1 := by
  obtain ⟨ready, -, rfl⟩ := h.parents
  rfl

/-- What happened at the sibling is undone. -/
theorem sameFiles_discarded (h : Prepared target s start number)
    (hOnly : OnlyAt (siblingPath target number) start t) :
    SameFiles s (discarded (siblingPath target number) t) :=
  h.sameFiles.trans (FileAction.sameFiles_discarded isDirectoryPath_siblingPath h.free hOnly)

/-- The file that was made at the sibling goes to the target, and nothing else changes. -/
theorem arrives (h : Prepared target s start number)
    (hOnly : OnlyAt (siblingPath target number) start t)
    (hMove : Arrives y (siblingPath target number) target t u) :
    ∃ place content, t.content (siblingPath target number) = .ok content ∧
      u.locate target = .ok place ∧ u.node? place = some (.file content) ∧
      (∀ p, p ≠ place → u.fileAt? p = s.fileAt? p) ∧
      u.isThere (siblingPath target number) = false ∧ u.counter = number + 1 := by
  obtain ⟨place, content, hContent, hLocate, hNode, hGone, hCounter, hAmong⟩ :=
    move_sibling h.free hOnly.among hMove
  refine ⟨place, content, hContent, hLocate, hNode, fun p hp => ?_, hGone,
    hCounter.trans (hOnly.counter.trans h.counter)⟩
  have hOther : start.follow [] (Path.names target) ≠ .ok p := fun hFollow => hp
    (Except.ok.inj ((hAmong.directories.follow_eq_ok.2 hFollow).symm.trans (locate_eq_ok.1 hLocate).1))
  exact (hAmong.elsewhere p (List.forall_mem_singleton.2 hOther)).trans (h.sameFiles p)

end Prepared

/-- When the directories are there, some sibling can be written. -/
theorem exists_prepared {ready : Store}
    (hParents : (makeParents target).run.run s = (.ok (), ready)) : ∃ number,
      (temporarySibling target).run.run ready =
        (.ok (siblingPath target number), { ready with counter := number + 1 }) ∧
      Prepared target s { ready with counter := number + 1 } number := by
  obtain ⟨number, -, hFree, hSibling⟩ := temporarySibling_run ready target
  refine ⟨number, hSibling, ⟨ready, hParents, rfl⟩, isThere_eq_false.2 fun p hLocate => ?_⟩
  exact node?_counter.trans (isThere_eq_false.1 hFree p (locate_counter.1 hLocate))

/-- How a staged write runs: behind a failure the sibling is discarded. -/
theorem run_writeAtomically {r : Result α}
    (h : (writeAtomicallyOn y target make).run.run s = (r, u)) :
    (∃ e, (makeParents target).run.run s = (.error e, u) ∧ .error e = r) ∨
      ∃ start number, Prepared target s start number ∧ ∃ made t,
        (make (siblingPath target number)).run.run start = (made, t) ∧
          ((∃ e, .error e = r ∧
              (.error e = made ∨ Unmoved y (siblingPath target number) target t e) ∧
                discarded (siblingPath target number) t = u) ∨
            (∃ a e v, .ok a = made ∧ .error e = r ∧
              Torn y (siblingPath target number) target t v e ∧
                discarded (siblingPath target number) v = u) ∨
            ∃ a, .ok a = made ∧ .ok a = r ∧ Arrives y (siblingPath target number) target t u) := by
  obtain ⟨e, hParents, hr⟩ | ⟨⟨⟩, ready, hParents, h⟩ := run_bind.1 h
  · exact .inl ⟨e, hParents, hr⟩
  obtain ⟨number, hSibling, hPrepared⟩ := exists_prepared hParents
  refine .inr ⟨_, number, hPrepared, ?_⟩
  obtain ⟨e, h, -⟩ | ⟨staged, start, hRun, h⟩ := run_bind.1 h
  · exact nomatch hSibling.symm.trans h
  obtain ⟨hStaged, rfl⟩ := Prod.mk.inj (hSibling.symm.trans hRun)
  obtain rfl := Except.ok.inj hStaged
  obtain ⟨e, v, h, hr, hu⟩ | ⟨a, h, hr⟩ := (run_onFailure fun t => run_discard).1 h
  · obtain ⟨_, hMake, hError⟩ | ⟨a, t, hMake, h⟩ := run_bind.1 h
    · exact ⟨_, v, hMake, .inl ⟨e, hr, .inl hError.symm, hu⟩⟩
    · refine ⟨_, t, hMake, ?_⟩
      obtain ⟨_, h, hError⟩ | ⟨_, _, -, h⟩ := run_bind.1 h
      · cases hError
        obtain ⟨_, hError, rfl, hUnmoved⟩ | ⟨_, hError, hTorn⟩ | ⟨hOk, -⟩ := run_moveOn h
        · cases hError
          exact .inl ⟨e, hr, .inr hUnmoved, hu⟩
        · cases hError
          exact .inr (.inl ⟨a, e, v, rfl, hr, hTorn, hu⟩)
        · cases hOk
      · cases (run_pure.1 h).1
  · obtain ⟨_, t, hMake, h⟩ := run_bind_eq_ok.1 h
    obtain ⟨⟨⟩, _, hMove, h⟩ := run_bind_eq_ok.1 h
    obtain ⟨ha, rfl⟩ := run_pure.1 h
    cases ha
    obtain ⟨_, hError, -⟩ | ⟨_, hError, -⟩ | ⟨-, hArrives⟩ := run_moveOn hMove
    · cases hError
    · cases hError
    · exact ⟨_, t, hMake, .inr (.inr ⟨a, rfl, hr, hArrives⟩)⟩

/-- The content was made at the sibling, but moving it to the target went wrong halfway, which left
`t`. -/
structure Halfway (y : System) (target : String) (make : String → FileAction α) (s u : Store)
    (a : α) (start t : Store) (number : Nat) (e : Error) : Prop where
  prepared : Prepared target s start number
  made : (make (siblingPath target number)).run.run start = (.ok a, t)
  torn : ∃ v, Torn y (siblingPath target number) target t v e ∧
    u = discarded (siblingPath target number) v

/-- What a staged write leaves whose move went wrong halfway: the target holds a part of what was made,
or all of it, and every other file is as it was. -/
theorem Halfway.spec {start t : Store}
    (hMake : ∀ number, ChangesOnly (siblingPath target number) (make (siblingPath target number)))
    (h : Halfway y target make s u a start t number e) : ∃ content left fault place,
      t.content (siblingPath target number) = .ok content ∧
      y.settled (siblingPath target number) target = .unable fault ∧
      u.locate target = .ok place ∧ u.node? place = some (.file left) ∧
      (∀ p, p ≠ place → u.fileAt? p = s.fileAt? p) ∧
      ((∃ count, y.copy (siblingPath target number) target = .brokenOff count ∧
          left = .raw (content.bytes.take count) ∧ e = .file target fault) ∨
        y.copy (siblingPath target number) target = .whole ∧
          y.removes (siblingPath target number) = false ∧ left = content ∧
          e = .file (siblingPath target number) .unusable) := by
  obtain ⟨v, hTorn, rfl⟩ := h.torn
  have hOnly := hTorn.onlyAt
  obtain ⟨content, left, fault, hContent, hPut, hUnable, hDots, hWays⟩ := hTorn.spec
  have hGone : OnlyAt (siblingPath target number) v (discarded (siblingPath target number) v) :=
    onlyAt_discarded
  obtain ⟨place, hLocate, hNode⟩ := content_eq_ok.1 (content_put hPut)
  have hFollow := (locate_eq_ok.1 hLocate).1
  have hFollow' := hGone.directories.follow_eq_ok.2 hFollow
  refine ⟨content, left, fault, place, hContent, hUnable,
    locate_of_follow (put_eq_ok hPut).1 hFollow', ?_, fun p hp => ?_, hWays⟩
  · exact (hGone.elsewhere place fun hSibling =>
      ne_of_siblingPath hDots hSibling hFollow rfl).trans hNode
  · have hSteps : OnlyAmong [siblingPath target number, target] start v :=
      ((hMake number h.made).among.mono (by simp)).trans (hOnly.among.mono (by simp))
    have hAll := onlyAmong_discarded isDirectoryPath_siblingPath
      (vacant_of_isThere isDirectoryPath_siblingPath h.prepared.free) hSteps
    have hOther : start.follow [] (Path.names target) ≠ .ok p := fun hTarget => hp
      (Except.ok.inj ((hAll.directories.follow_eq_ok.2 hTarget).symm.trans hFollow'))
    exact (hAll.elsewhere p (List.forall_mem_singleton.2 hOther)).trans (h.prepared.sameFiles p)

/-- **A staged write that fails** leaves every file as it was, and no file is new, unless the content
was made and its move went wrong halfway. -/
theorem failed_writeAtomically
    (hMake : ∀ number, ChangesOnly (siblingPath target number) (make (siblingPath target number)))
    (h : (writeAtomicallyOn y target make).run.run s = (.error e, u)) :
    SameFiles s u ∨ ∃ a start t number, Halfway y target make s u a start t number e := by
  obtain ⟨_, hParents, -⟩ | ⟨start, number, hPrepared, made, t, hRun, hEnd⟩ := run_writeAtomically h
  · exact .inl (sameFiles_makeParents hParents)
  · obtain ⟨_, -, -, rfl⟩ | ⟨a, _, v, rfl, hError, hTorn, rfl⟩ | ⟨_, -, hOk, -⟩ := hEnd
    · exact .inl (hPrepared.sameFiles_discarded (hMake number hRun))
    · cases hError
      exact .inr ⟨a, start, t, number, hPrepared, hRun, v, hTorn, rfl⟩
    · cases hOk

/-- Where no move goes wrong halfway, a staged write that fails leaves every file as it was. -/
theorem sameFiles_of_writeAtomically (hWhole : y.Whole)
    (hMake : ∀ number, ChangesOnly (siblingPath target number) (make (siblingPath target number)))
    (h : (writeAtomicallyOn y target make).run.run s = (.error e, u)) : SameFiles s u := by
  obtain hSame | ⟨_, _, _, _, -, -, _, hTorn, -⟩ := failed_writeAtomically hMake h
  · exact hSame
  · exact absurd hWhole hTorn.not_whole

/-- A staged write fails because its content cannot be made, or at the files. -/
theorem error_of_writeAtomically
    (h : (writeAtomicallyOn y target make).run.run s = (.error e, u)) :
    e.IsFile ∨ ∃ start number t, Prepared target s start number ∧
      (make (siblingPath target number)).run.run start = (.error e, t) := by
  obtain ⟨_, hParents, hError⟩ | ⟨start, number, hPrepared, made, t, hRun, hEnd⟩ :=
    run_writeAtomically h
  · cases hError
    exact .inl (isFile_of_makeParents hParents)
  · obtain ⟨_, hError, hCase, -⟩ | ⟨_, _, _, -, hError, hTorn, -⟩ | ⟨_, -, hOk, -⟩ := hEnd
    · cases hError
      obtain rfl | hUnmoved := hCase
      · exact .inr ⟨start, number, t, hPrepared, hRun⟩
      · exact .inl hUnmoved.isFile
    · cases hError
      exact .inl hTorn.isFile
    · cases hOk

/-- **A staged write that succeeds** leaves at `target` what was made at the sibling. The sibling is
gone, and every other file is as it was. -/
theorem writeAtomically_eq_ok
    (hMake : ∀ number, ChangesOnly (siblingPath target number) (make (siblingPath target number)))
    (h : (writeAtomicallyOn y target make).run.run s = (.ok a, u)) :
    ∃ start number t place content, Prepared target s start number ∧
      (make (siblingPath target number)).run.run start = (.ok a, t) ∧
      t.content (siblingPath target number) = .ok content ∧
      u.locate target = .ok place ∧ u.node? place = some (.file content) ∧
      (∀ p, p ≠ place → u.fileAt? p = s.fileAt? p) ∧
      u.isThere (siblingPath target number) = false ∧ u.counter = number + 1 := by
  obtain ⟨_, -, hError⟩ | ⟨start, number, hPrepared, made, t, hRun, hEnd⟩ := run_writeAtomically h
  · cases hError
  obtain ⟨_, hError, -⟩ | ⟨_, _, _, -, hError, -⟩ | ⟨_, rfl, hOk, hMove⟩ := hEnd
  · cases hError
  · cases hError
  cases hOk
  obtain ⟨place, content, hMoved⟩ := hPrepared.arrives (hMake number hRun) hMove
  exact ⟨start, number, t, place, content, hPrepared, hRun, hMoved⟩

/-- Where something could be written at a sibling and moved, whatever can be written at the same
sibling can be moved too. -/
theorem exists_writeAtomically {make' : String → FileAction β}
    (hMake : ∀ number, ChangesOnly (siblingPath target number) (make (siblingPath target number)))
    (hMake' : ∀ number, ChangesOnly (siblingPath target number) (make' (siblingPath target number)))
    (hBoth : ∀ {start number a t}, Prepared target s start number →
      (make (siblingPath target number)).run.run start = (.ok a, t) →
        ∃ b t' content, (make' (siblingPath target number)).run.run start = (.ok b, t') ∧
          t'.content (siblingPath target number) = .ok content)
    (h : (writeAtomicallyOn y target make).run.run s = (.ok a, u)) :
    ∃ b v, (writeAtomicallyOn y target make').run.run s = (.ok b, v) := by
  obtain ⟨⟨⟩, ready, hParents, h⟩ := run_bind_eq_ok.1 h
  obtain ⟨number, hSibling, hPrepared⟩ := exists_prepared hParents
  obtain ⟨staged, start, hRun, h⟩ := run_bind_eq_ok.1 h
  obtain ⟨hStaged, rfl⟩ := Prod.mk.inj (hSibling.symm.trans hRun)
  obtain rfl := Except.ok.inj hStaged
  obtain ⟨_, _, -, hError, -⟩ | ⟨a, h, -⟩ := (run_onFailure fun t => run_discard).1 h
  · cases hError
  obtain ⟨_, t, hMade, h⟩ := run_bind_eq_ok.1 h
  obtain ⟨⟨⟩, v, hMove, -⟩ := run_bind_eq_ok.1 h
  obtain ⟨_, hError, -⟩ | ⟨_, hError, -⟩ | ⟨-, hArrives⟩ := run_moveOn hMove
  · cases hError
  · cases hError
  obtain ⟨_, content, hContent, -⟩ := hPrepared.arrives (hMake number hMade) hArrives
  obtain ⟨b, t', content', hMade', hContent'⟩ := hBoth hPrepared hMade
  have hDirectories : SameDirectories t t' := fun p =>
    ((hMake' number hMade').directories p).trans ((hMake number hMade).directories p).symm
  obtain ⟨w, hArrives'⟩ := hArrives.of_sameDirectories hDirectories hContent hContent'
  have hEnd : (do
      let value ← make' (siblingPath target number)
      moveOn y (siblingPath target number) target
      pure value).run.run { ready with counter := number + 1 } = (.ok b, w) :=
    run_bind_eq_ok.2 ⟨b, t', hMade', run_bind_eq_ok.2 ⟨(), w, hArrives'.run,
      run_pure.2 ⟨rfl, rfl⟩⟩⟩
  exact ⟨b, w, run_bind_eq_ok.2 ⟨(), ready, hParents, run_bind_eq_ok.2 ⟨_, _, hSibling,
    (run_onFailure fun t => run_discard).2 (.inr ⟨b, hEnd, rfl⟩)⟩⟩⟩

end FileAction

end Jarsmith
