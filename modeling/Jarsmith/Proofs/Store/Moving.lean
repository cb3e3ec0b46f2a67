import Jarsmith.Proofs.Store.Changes

/-!
# Moves

A move is a rename where the system grants it. Where it does not, the file is copied and its source is
removed, which can go wrong halfway. However the system answers, a move ends in one of three ways.

* `System.settled_eq_denied` — a rename is denied for good if it is denied at every try.
* `FileAction.Unmoved`, `FileAction.Torn`, `FileAction.Arrives` — nothing has changed, the move went
  wrong halfway, or the file has moved.
* `FileAction.run_moveOn` — how a move ends; `FileAction.run_move` for the system that does all that
  it is asked for.
* `FileAction.Arrives.spec` — what a move leaves.
-/

namespace Jarsmith

open Outcome

-- ---------------------------------------------------------------------------
-- What the system answers
-- ---------------------------------------------------------------------------

namespace System

variable {y : System} {source target : String}

theorem renameAgain_eq_denied {tries left : Nat} :
    y.renameAgain source target tries left = .denied ↔
      ∀ n ≤ left, y.rename source target (tries + n) = .denied := by
  induction left generalizing tries with
  | zero => simp [renameAgain]
  | succ left ih =>
    have hShift : (∀ n ≤ left + 1, y.rename source target (tries + n) = .denied) ↔
        y.rename source target tries = .denied ∧
          ∀ n ≤ left, y.rename source target (tries + 1 + n) = .denied := by
      constructor
      · intro h
        refine ⟨h 0 (Nat.zero_le _), fun n hn => ?_⟩
        rw [Nat.add_assoc, Nat.add_comm 1 n]
        exact h (n + 1) (Nat.succ_le_succ hn)
      · rintro ⟨hFirst, hMore⟩ n hn
        cases n with
        | zero => exact hFirst
        | succ n =>
          have hLater := hMore n (Nat.le_of_succ_le_succ hn)
          rwa [Nat.add_assoc, Nat.add_comm 1 n] at hLater
    rw [hShift, renameAgain]
    cases hAnswer : y.rename source target tries with
    | denied => exact ih.trans (and_iff_right rfl).symm
    | granted => exact iff_of_false nofun fun h => nomatch h.1
    | unable fault => exact iff_of_false nofun fun h => nomatch h.1

/-- **A rename is denied** for good if it is denied at every try. -/
theorem settled_eq_denied : y.settled source target = .denied ↔
    ∀ tries ≤ maxRetries, y.rename source target tries = .denied := by
  rw [settled, renameAgain_eq_denied]
  simp only [Nat.zero_add]

theorem settled_calm : calm.settled source target = .granted := rfl

theorem whole_calm : calm.Whole := ⟨fun _ _ _ => nofun, fun _ => rfl⟩

end System

-- ---------------------------------------------------------------------------
-- Copying and removing
-- ---------------------------------------------------------------------------

namespace Store

variable {s t u : Store} {source target : String} {content : Content}

theorem isFile_iff_content {path : String} :
    s.isFile path = true ↔ ∃ content, s.content path = .ok content := by
  simp only [content_eq_ok]
  unfold isFile at?
  cases hLocate : s.locate path with
  | error fault => simp
  | ok place =>
    cases hNode : s.node? place with
    | none => simp [hNode]
    | some node => cases node <;> simp [hNode]

/-- Writing a file takes no other one away. -/
theorem exists_remove_of_put (hContent : s.content source = .ok content)
    (hPut : s.put target content = .ok u) : ∃ t, u.remove source = .ok t := by
  have hDirectories := (onlyAt_put hPut).directories
  obtain ⟨-, b, -, hFree, rfl⟩ := put_eq_ok hPut
  obtain ⟨a, hLocate, hNode⟩ := content_eq_ok.1 hContent
  obtain ⟨hFollow, hSlash⟩ := locate_eq_ok.1 hLocate
  have hStays : (s.setFile b content).node? a = some (.file content) := by
    rw [node?_setFile (ne_nil_of_node? hFree)]
    split
    · rfl
    · exact hNode
  refine ⟨_, exists_remove (locate_eq_ok.2 ⟨hDirectories.follow_eq_ok.2 hFollow, fun hEnds => ?_⟩)
    hStays⟩
  cases (fileAt?_eq_some.2 hNode).symm.trans (hSlash hEnds)

/-- A file that was copied and removed has moved, unless it was copied onto itself. -/
theorem moved_of_put (hContent : s.content source = .ok content)
    (hPut : s.put target content = .ok u) (hRemove : u.remove source = .ok t) :
    ∃ a b, s.locate source = .ok a ∧ s.node? a = some (.file content) ∧ s.locate target = .ok b ∧
      (a = b ∨ Moved s t a b content) := by
  have hDirectories := (onlyAt_put hPut).directories
  obtain ⟨-, b, hTarget, hFree, rfl⟩ := put_eq_ok hPut
  obtain ⟨a, hLocate, hNode⟩ := content_eq_ok.1 hContent
  obtain ⟨a', _, hLocate', hNode', rfl⟩ := remove_eq_ok hRemove
  obtain rfl : a = a' := Except.ok.inj ((hDirectories.follow_eq_ok.2
    (locate_eq_ok.1 hLocate).1).symm.trans (locate_eq_ok.1 hLocate').1)
  refine ⟨a, b, hLocate, hNode, hTarget, or_iff_not_imp_left.2 fun hNe => ?_⟩
  have hRoot : a ≠ [] := ne_nil_of_node? (by rw [hNode]; nofun)
  have hAfter : ∀ p, ({ s.setFile b content with nodes := (s.setFile b content).nodes.erase a } :
      Store).node? p = if a = p then none else if b = p then some (.file content)
        else s.node? p := fun p => by
    rw [← node?_setFile (ne_nil_of_node? hFree)]
    exact node?_erase (s := s.setFile b content) hRoot
  refine ⟨hNode, ?_, ?_, fun p ha hb => ?_, fun p => ?_, rfl⟩
  · rw [hAfter, if_pos rfl]
  · rw [hAfter, if_neg hNe, if_pos rfl]
  · rw [hAfter, if_neg (Ne.symm ha), if_neg (Ne.symm hb)]
  · rw [hAfter]
    split
    · rename_i hp
      subst hp
      rw [hNode]
      exact iff_of_false nofun nofun
    · split
      · rename_i hp
        subst hp
        exact iff_of_false nofun hFree
      · rfl

end Store

namespace FileAction

open Store

variable {y : System} {source target : String} {s t u : Store} {r : Result Unit} {e : Error}

/-- A copy that was made holds what its source holds. One that broke off holds a part of it, and
otherwise nothing has changed. -/
theorem run_copyOn (h : (copyOn y source target).run.run s = (r, t)) :
    (∃ e, r = .error e ∧ t = s) ∨ ∃ content, s.content source = .ok content ∧
      (y.copy source target = .whole ∧ r = .ok () ∧ s.put target content = .ok t ∨
        ∃ count, y.copy source target = .brokenOff count ∧ r = .error (.file target .unusable) ∧
          s.put target (.raw (content.bytes.take count)) = .ok t) := by
  obtain ⟨e, hLook, rfl⟩ | ⟨content, _, hLook, h⟩ := run_bind.1 h
  · exact .inl ⟨e, rfl, (run_look.1 hLook).2.symm⟩
  obtain ⟨hContent, rfl⟩ := run_look.1 hLook
  have hContent := mapError_ok_iff.1 hContent
  cases hCopy : y.copy source target with
  | whole =>
    rw [hCopy] at h
    obtain ⟨fault, -, rfl, rfl⟩ | ⟨hPut, rfl⟩ := run_change.1 h
    · exact .inl ⟨_, rfl, rfl⟩
    · exact .inr ⟨content, hContent, .inl ⟨rfl, rfl, hPut⟩⟩
  | refused =>
    rw [hCopy] at h
    obtain ⟨rfl, rfl⟩ := run_throw.1 h
    exact .inl ⟨_, rfl, rfl⟩
  | brokenOff count =>
    rw [hCopy] at h
    obtain ⟨e, hWrite, rfl⟩ | ⟨⟨⟩, _, hWrite, h⟩ := run_bind.1 h
    · exact .inl ⟨e, rfl, (run_change_error hWrite).2.symm⟩
    obtain ⟨rfl, rfl⟩ := run_throw.1 h
    obtain ⟨_, -, hError, -⟩ | ⟨hPut, -⟩ := run_change.1 hWrite
    · cases hError
    · exact .inr ⟨content, hContent, .inr ⟨count, rfl, rfl, hPut⟩⟩

-- ---------------------------------------------------------------------------
-- How a move ends
-- ---------------------------------------------------------------------------

/-- A move fails, and nothing has changed. -/
inductive Unmoved (y : System) (source target : String) (s : Store) : Error → Prop
  /-- The rename was denied at every try. -/
  | denied (hDenied : y.settled source target = .denied) :
    Unmoved y source target s (.file target .unusable)
  /-- What stands at the source cannot stand at the target. -/
  | stuck {fault : FileFault} (hGranted : y.settled source target = .granted)
    (hMove : s.move source target = .error fault) : Unmoved y source target s (.file target fault)
  /-- What cannot be renamed was not copied either. -/
  | uncopied {fault : FileFault} (hUnable : y.settled source target = .unable fault) :
    Unmoved y source target s (.file target fault)

/-- A move fails halfway: the file was not renamed, and its copy left the store `t`. -/
inductive Torn (y : System) (source target : String) (s t : Store) : Error → Prop
  /-- The copy broke off, so that a part of the file stands at the target. -/
  | part {fault : FileFault} {content : Content} {count : Nat}
    (hUnable : y.settled source target = .unable fault) (hContent : s.content source = .ok content)
    (hDots : ¬ (Path.endsInDots source = true ∨ Path.endsInDots target = true))
    (hCopy : y.copy source target = .brokenOff count)
    (hPut : s.put target (.raw (content.bytes.take count)) = .ok t) :
    Torn y source target s t (.file target fault)
  /-- The copy was made, but its source could not be removed. -/
  | kept {fault : FileFault} {content : Content} (hUnable : y.settled source target = .unable fault)
    (hContent : s.content source = .ok content)
    (hDots : ¬ (Path.endsInDots source = true ∨ Path.endsInDots target = true))
    (hCopy : y.copy source target = .whole) (hRemoves : y.removes source = false)
    (hPut : s.put target content = .ok t) :
    Torn y source target s t (.file source .unusable)

/-- A move succeeds, by a rename or by a copy. -/
inductive Arrives (y : System) (source target : String) (s t : Store) : Prop
  | renamed (hGranted : y.settled source target = .granted)
    (hMove : s.move source target = .ok t)
  | copied {fault : FileFault} {content : Content} {u : Store}
    (hUnable : y.settled source target = .unable fault) (hContent : s.content source = .ok content)
    (hDots : ¬ (Path.endsInDots source = true ∨ Path.endsInDots target = true))
    (hCopy : y.copy source target = .whole) (hRemoves : y.removes source = true)
    (hPut : s.put target content = .ok u) (hRemove : u.remove source = .ok t)

/-- A move fails, and has changed files at the paths `touched` only. -/
inductive MoveFails (y : System) (source target : String) (s : Store) :
    Store → Error → List String → Prop
  | unmoved {e : Error} (h : Unmoved y source target s e) : MoveFails y source target s s e []
  | torn {t : Store} {e : Error} (h : Torn y source target s t e) :
    MoveFails y source target s t e [target]

/-- How a copy in the place of a rename ends: nothing has changed, or something was written at the
target. -/
theorem run_carry {fault : FileFault} (h : (carry y source target fault).run.run s = (r, t)) :
    (.error (.file target fault) = r ∧ s = t) ∨ ∃ content copied u,
      s.content source = .ok content ∧ s.put target copied = .ok u ∧
      ¬ (Path.endsInDots source = true ∨ Path.endsInDots target = true) ∧
      ((∃ count, y.copy source target = .brokenOff count ∧
          copied = .raw (content.bytes.take count) ∧ .error (.file target fault) = r ∧ u = t) ∨
        y.copy source target = .whole ∧ copied = content ∧
          (y.removes source = false ∧ .error (.file source .unusable) = r ∧ u = t ∨
            y.removes source = true ∧ .ok () = r ∧ u.remove source = .ok t)) := by
  obtain ⟨_, hGet, -⟩ | ⟨_, _, hGet, h⟩ := run_bind.1 h
  · cases hGet
  cases hGet
  split at h
  swap
  · exact .inl (run_throw.1 h)
  rename_i hFile
  simp only [Bool.and_eq_true, Bool.not_eq_true'] at hFile
  have hDots : ¬ (Path.endsInDots source = true ∨ Path.endsInDots target = true) := by
    simp [hFile.1.2, hFile.2]
  obtain ⟨e, hReport, hr⟩ | ⟨⟨⟩, u, hReport, h⟩ := run_bind.1 h
  · obtain ⟨_, hCopy, hError⟩ | ⟨_, -, hOk⟩ := run_reporting.1 hReport
    · obtain rfl := Except.error.inj hError
      obtain ⟨_, -, hSame⟩ | ⟨content, hContent, ⟨-, hOk, -⟩ | ⟨count, hBroken, -, hPut⟩⟩ :=
        run_copyOn hCopy
      · exact .inl ⟨hr, hSame.symm⟩
      · cases hOk
      · exact .inr ⟨content, _, t, hContent, hPut, hDots, .inl ⟨count, hBroken, rfl, hr, rfl⟩⟩
    · cases hOk
  · obtain ⟨_, -, hError⟩ | ⟨_, hCopy, -⟩ := run_reporting.1 hReport
    · cases hError
    obtain ⟨_, hError, -⟩ | ⟨content, hContent, ⟨hWhole, -, hPut⟩ | ⟨_, -, hError, -⟩⟩ :=
      run_copyOn hCopy
    · cases hError
    · refine .inr ⟨content, content, u, hContent, hPut, hDots, .inr ⟨hWhole, rfl, ?_⟩⟩
      split at h
      · rename_i hRemoves
        obtain ⟨v, hRemove⟩ := exists_remove_of_put hContent hPut
        obtain ⟨_, hError, -⟩ | ⟨hRemoved, hr⟩ := run_change.1 h
        · cases hRemove.symm.trans hError
        · exact .inr ⟨hRemoves, hr, hRemoved⟩
      · rename_i hKeeps
        exact .inl ⟨Bool.eq_false_iff.2 hKeeps, run_throw.1 h⟩
    · cases hError

/-- What cannot be renamed because of the files cannot be copied because of them. -/
theorem run_carry_of_move {fault : FileFault} (hMove : s.move source target = .error fault)
    (h : (carry y source target fault).run.run s = (r, t)) :
    .error (.file target fault) = r ∧ s = t := by
  obtain hSame | ⟨content, copied, u, hContent, hPut, hDots, -⟩ := run_carry h
  · exact hSame
  · obtain ⟨v, hMoved⟩ := exists_move_of_put hContent hPut hDots
    cases hMove.symm.trans hMoved

/-- A rename that is granted moves what the files allow. -/
theorem run_moveOn_of_granted (hGranted : y.settled source target = .granted) :
    (moveOn y source target).run.run s = (r, t) ↔
      (∃ fault, s.move source target = .error fault ∧ .error (.file target fault) = r ∧ s = t) ∨
        s.move source target = .ok t ∧ .ok () = r := by
  constructor
  · intro h
    unfold moveOn at h
    rw [hGranted] at h
    obtain ⟨_, hGet, -⟩ | ⟨_, _, hGet, h⟩ := run_bind.1 h
    · cases hGet
    cases hGet
    cases hMove : s.move source target with
    | error fault =>
      rw [hMove] at h
      obtain ⟨hr, hSame⟩ := run_carry_of_move hMove h
      exact .inl ⟨fault, rfl, hr, hSame⟩
    | ok moved =>
      rw [hMove] at h
      obtain ⟨rfl, rfl⟩ := Prod.mk.inj h
      exact .inr ⟨rfl, rfl⟩
  · intro h
    unfold moveOn
    rw [hGranted]
    refine run_bind.2 (.inr ⟨s, s, rfl, ?_⟩)
    obtain ⟨fault, hMove, rfl, rfl⟩ | ⟨hMove, rfl⟩ := h
    · rw [hMove]
      obtain ⟨hr, hSame⟩ := run_carry_of_move (y := y) hMove (Prod.eta _).symm
      exact Prod.ext hr.symm hSame.symm
    · rw [hMove]
      rfl

/-- **How a move ends**: nothing has changed, it went wrong halfway, or the file has moved. -/
theorem run_moveOn (h : (moveOn y source target).run.run s = (r, t)) :
    (∃ e, .error e = r ∧ s = t ∧ Unmoved y source target s e) ∨
      (∃ e, .error e = r ∧ Torn y source target s t e) ∨
      .ok () = r ∧ Arrives y source target s t := by
  cases hAnswer : y.settled source target with
  | granted =>
    obtain ⟨fault, hMove, hr, hSame⟩ | ⟨hMove, hr⟩ := (run_moveOn_of_granted hAnswer).1 h
    · exact .inl ⟨_, hr, hSame, .stuck hAnswer hMove⟩
    · exact .inr (.inr ⟨hr, .renamed hAnswer hMove⟩)
  | denied =>
    unfold moveOn at h
    rw [hAnswer] at h
    obtain ⟨hr, hSame⟩ := run_throw.1 h
    exact .inl ⟨_, hr, hSame, .denied hAnswer⟩
  | unable fault =>
    unfold moveOn at h
    rw [hAnswer] at h
    obtain ⟨hr, hSame⟩ | ⟨content, _, u, hContent, hPut, hDots, ⟨count, hCopy, rfl, hr, rfl⟩ |
      ⟨hCopy, rfl, ⟨hRemoves, hr, rfl⟩ | ⟨hRemoves, hr, hRemove⟩⟩⟩ := run_carry h
    · exact .inl ⟨_, hr, hSame, .uncopied hAnswer⟩
    · exact .inr (.inl ⟨_, hr, .part hAnswer hContent hDots hCopy hPut⟩)
    · exact .inr (.inl ⟨_, hr, .kept hAnswer hContent hDots hCopy hRemoves hPut⟩)
    · exact .inr (.inr ⟨hr, .copied hAnswer hContent hDots hCopy hRemoves hPut hRemove⟩)

/-- The system that does all that it is asked for moves what the files allow, in one step. -/
theorem run_move : (move source target).run.run s = (r, t) ↔
    (∃ fault, s.move source target = .error fault ∧ .error (.file target fault) = r ∧ s = t) ∨
      s.move source target = .ok t ∧ .ok () = r :=
  run_moveOn_of_granted System.settled_calm

theorem Unmoved.isFile (h : Unmoved y source target s e) : e.IsFile := by
  cases h <;> exact ⟨_, _, rfl⟩

namespace Torn

theorem isFile (h : Torn y source target s t e) : e.IsFile := by
  cases h <;> exact ⟨_, _, rfl⟩

/-- A move that goes wrong halfway has touched its target. -/
theorem onlyAt (h : Torn y source target s t e) : OnlyAt target s t := by
  cases h with
  | part _ _ _ _ hPut => exact onlyAt_put hPut
  | kept _ _ _ _ _ hPut => exact onlyAt_put hPut

/-- **What a move leaves halfway**: a part of the file at the target, or the whole file. -/
theorem spec (h : Torn y source target s t e) : ∃ content left fault,
    s.content source = .ok content ∧ s.put target left = .ok t ∧
    y.settled source target = .unable fault ∧ Path.endsInDots target = false ∧
    ((∃ count, y.copy source target = .brokenOff count ∧ left = .raw (content.bytes.take count) ∧
        e = .file target fault) ∨
      y.copy source target = .whole ∧ y.removes source = false ∧ left = content ∧
        e = .file source .unusable) := by
  have hTarget (hDots : ¬ (Path.endsInDots source = true ∨ Path.endsInDots target = true)) :
      Path.endsInDots target = false := Bool.eq_false_iff.2 fun hEnds => hDots (.inr hEnds)
  cases h with
  | part hUnable hContent hDots hCopy hPut =>
    exact ⟨_, _, _, hContent, hPut, hUnable, hTarget hDots, .inl ⟨_, hCopy, rfl, rfl⟩⟩
  | kept hUnable hContent hDots hCopy hRemoves hPut =>
    exact ⟨_, _, _, hContent, hPut, hUnable, hTarget hDots, .inr ⟨hCopy, hRemoves, rfl, rfl⟩⟩

/-- A system that copies whole files and removes what was copied leaves no move halfway. -/
theorem not_whole (h : Torn y source target s t e) : ¬ y.Whole := by
  intro hWhole
  cases h with
  | part _ _ _ hCopy _ => exact hWhole.copy _ _ _ hCopy
  | kept _ _ _ _ hRemoves _ => cases hRemoves.symm.trans (hWhole.removes _)

end Torn

theorem MoveFails.onlyAmong {touched : List String}
    (h : MoveFails y source target s t e touched) : OnlyAmong touched s t := by
  cases h with
  | unmoved _ => exact .refl
  | torn hTorn => exact hTorn.onlyAt.among

namespace Arrives

/-- **What a move leaves**, when no directory stands at the source: the file stands at the target, and
no longer at the source. -/
theorem spec (h : Arrives y source target s t)
    (hSource : ∀ a, s.locate source = .ok a → s.node? a ≠ some .directory) :
    Path.endsInDots target = false ∧ Path.isDirectoryPath target = false ∧
      ∃ a b content, s.locate source = .ok a ∧ s.node? a = some (.file content) ∧
        s.locate target = .ok b ∧ (a = b ∨ Moved s t a b content) := by
  cases h with
  | renamed _ hMove =>
    obtain ⟨hDots, hSlash, a, b, content, hFrom, hNode, hTo, hMoved⟩ := move_eq_ok hMove hSource
    exact ⟨hDots, hSlash, a, b, content, hFrom, hNode, hTo, hMoved.imp_left And.left⟩
  | copied _ hContent hDots _ _ hPut hRemove =>
    obtain ⟨a, b, hFrom, hNode, hTo, hMoved⟩ := moved_of_put hContent hPut hRemove
    have hTarget : ¬ Path.endsInDots target = true := fun hEnds => hDots (.inr hEnds)
    exact ⟨Bool.eq_false_iff.2 hTarget, (put_eq_ok hPut).1, a, b, _, hFrom, hNode, hTo, hMoved⟩

/-- A move touches its source and its target. -/
theorem onlyAmong (h : Arrives y source target s t)
    (hSource : ∀ a, s.locate source = .ok a → s.node? a ≠ some .directory) :
    OnlyAmong [source, target] s t := by
  cases h with
  | renamed _ hMove => exact .of_move hMove hSource
  | copied _ _ _ _ _ hPut hRemove =>
    exact ((onlyAt_put hPut).among.mono (by simp)).trans
      ((onlyAt_remove hRemove).among.mono (by simp))

/-- A file that can arrive moves. -/
theorem run (h : Arrives y source target s t) :
    (moveOn y source target).run.run s = (.ok (), t) := by
  cases h with
  | renamed hGranted hMove => exact (run_moveOn_of_granted hGranted).2 (.inr ⟨hMove, rfl⟩)
  | @copied fault content u hUnable hContent hDots hCopy hRemoves hPut hRemove =>
    have hFile : (s.isFile source && !Path.endsInDots source && !Path.endsInDots target) = true := by
      simp only [not_or, Bool.not_eq_true] at hDots
      simp [isFile_iff_content.2 ⟨content, hContent⟩, hDots]
    have hCopied : (copyOn y source target).run.run s = (.ok (), u) := by
      refine run_bind_eq_ok.2 ⟨content, s, run_look.2 ⟨mapError_ok_iff.2 hContent, rfl⟩, ?_⟩
      rw [hCopy]
      exact run_change.2 (.inr ⟨hPut, rfl⟩)
    unfold moveOn
    rw [hUnable]
    refine run_bind_eq_ok.2 ⟨s, s, rfl, ?_⟩
    rw [if_pos hFile]
    refine run_bind_eq_ok.2 ⟨(), u, run_reporting.2 (.inr ⟨(), hCopied, rfl⟩), ?_⟩
    rw [if_pos hRemoves]
    exact run_change.2 (.inr ⟨hRemove, rfl⟩)

/-- Where a file arrived, any file arrives in every store with the same directories. -/
theorem of_sameDirectories {old content : Content} (h : Arrives y source target s u)
    (hDirectories : SameDirectories s t) (hOld : s.content source = .ok old)
    (hContent : t.content source = .ok content) : ∃ v, Arrives y source target t v := by
  cases h with
  | renamed hGranted hMove =>
    obtain ⟨v, hMove'⟩ := exists_move_of_move hDirectories hMove hOld hContent
    exact ⟨v, .renamed hGranted hMove'⟩
  | copied hUnable _ hDots hCopy hRemoves hPut _ =>
    have hTarget : ¬ Path.endsInDots target = true := fun hEnds => hDots (.inr hEnds)
    obtain ⟨w, hPut'⟩ := exists_put_of_put content hDirectories hPut
      (Bool.eq_false_iff.2 hTarget)
    obtain ⟨v, hRemove'⟩ := exists_remove_of_put hContent hPut'
    exact ⟨v, .copied hUnable hContent hDots hCopy hRemoves hPut' hRemove'⟩

end Arrives

end FileAction

end Jarsmith
