import Jarsmith.Proofs.Store.Siblings

/-!
# Changes of files

What a computation on the file store does to it, whatever comes out: which files change, and which stay
as they are.

* `Store.OnlyAt`, `Store.OnlyAmong` — one store comes from another one by what happens to the file at
  one path, or to the files at some paths.
* `FileAction.run_bind`, `FileAction.run_change`, `FileAction.run_onFailure` — how a computation runs.
* `FileAction.ChangesOnly` — whatever happens, a computation changes the file at one path only.
-/

namespace Jarsmith

open Outcome

-- ---------------------------------------------------------------------------
-- One file
-- ---------------------------------------------------------------------------

namespace Store

variable {s t u : Store} {path : String} {p : List String} {content : Content} {node : Node}

theorem SameFiles.trans (h : SameFiles s t) (h' : SameFiles t u) : SameFiles s u :=
  fun p => (h' p).trans (h p)

/-- What changes from `s` to `t` is the file at `path`. -/
structure OnlyAt (path : String) (s t : Store) : Prop where
  directories : SameDirectories s t
  elsewhere : ∀ p, s.follow [] (Path.names path) ≠ .ok p → t.node? p = s.node? p
  counter : t.counter = s.counter

namespace OnlyAt

theorem refl : OnlyAt path s s := ⟨fun _ => .rfl, fun _ _ => rfl, rfl⟩

theorem trans (h : OnlyAt path s t) (h' : OnlyAt path t u) : OnlyAt path s u where
  directories p := (h'.directories p).trans (h.directories p)
  elsewhere p hp :=
    have hp' : t.follow [] (Path.names path) ≠ .ok p :=
      fun hFollow => hp (h.directories.follow_eq_ok.1 hFollow)
    (h'.elsewhere p hp').trans (h.elsewhere p hp)
  counter := h'.counter.trans h.counter

/-- A change at the place that a path leads to, of what is no directory into what is none. -/
theorem of_node? {a : List String} (hFollow : s.follow [] (Path.names path) = .ok a)
    (hBefore : s.node? a ≠ some .directory) (hAfter : t.node? a ≠ some .directory)
    (hOther : ∀ p, a ≠ p → t.node? p = s.node? p) (hCounter : t.counter = s.counter) :
    OnlyAt path s t where
  directories p := by
    by_cases hp : a = p
    · subst hp
      exact iff_of_false hAfter hBefore
    · rw [hOther p hp]
  elsewhere p hp := hOther p (by rintro rfl; exact hp hFollow)
  counter := hCounter

end OnlyAt

theorem node?_setFile {a : List String} (ha : a ≠ []) :
    (s.setFile a content).node? p = if a = p then some (.file content) else s.node? p :=
  node?_insert ha

theorem onlyAt_put (h : s.put path content = .ok t) : OnlyAt path s t := by
  obtain ⟨-, a, hLocate, hNode, rfl⟩ := put_eq_ok h
  have hRoot := ne_nil_of_node? hNode
  refine .of_node? (locate_eq_ok.1 hLocate).1 hNode ?_ (fun p hp => ?_) rfl
  · rw [node?_setFile hRoot, if_pos rfl]
    nofun
  · rw [node?_setFile hRoot, if_neg hp]

theorem onlyAt_remove (h : s.remove path = .ok t) : OnlyAt path s t := by
  obtain ⟨a, content, hLocate, hNode, rfl⟩ := remove_eq_ok h
  have hFile : s.node? a ≠ some .directory := by
    rw [hNode]
    nofun
  have hRoot := ne_nil_of_node? hFile
  refine .of_node? (locate_eq_ok.1 hLocate).1 hFile ?_ (fun p hp => ?_) rfl
  · rw [node?_erase hRoot, if_pos rfl]
    nofun
  · rw [node?_erase hRoot, if_neg hp]

/-- What was written can be read. -/
theorem content_put (h : s.put path content = .ok t) : t.content path = .ok content := by
  have hOnly := onlyAt_put h
  obtain ⟨hSlash, a, hLocate, hNode, rfl⟩ := put_eq_ok h
  have hFollow := hOnly.directories.follow_eq_ok.2 (locate_eq_ok.1 hLocate).1
  refine content_eq_ok.2 ⟨a, locate_of_follow hSlash hFollow, ?_⟩
  rw [node?_setFile (ne_nil_of_node? hNode), if_pos rfl]

-- ---------------------------------------------------------------------------
-- Several files
-- ---------------------------------------------------------------------------

variable {paths paths' more : List String}

/-- What changes from `s` to `t` are the files at some paths. -/
structure OnlyAmong (paths : List String) (s t : Store) : Prop where
  directories : SameDirectories s t
  elsewhere : ∀ p, (∀ path ∈ paths, s.follow [] (Path.names path) ≠ .ok p) →
    t.fileAt? p = s.fileAt? p

/-- No file stands at a path. -/
def Vacant (s : Store) (path : String) : Prop :=
  ∀ p, s.follow [] (Path.names path) = .ok p → s.fileAt? p = none

theorem vacant_of_isThere (hSlash : Path.isDirectoryPath path = false)
    (hFree : s.isThere path = false) : s.Vacant path := by
  intro p hFollow
  rw [fileAt?, isThere_eq_false.1 hFree p (locate_of_follow hSlash hFollow)]

theorem OnlyAt.among (h : OnlyAt path s t) : OnlyAmong [path] s t where
  directories := h.directories
  elsewhere p hp := fileAt?_of_node? (h.elsewhere p (hp path List.mem_cons_self))

namespace OnlyAmong

theorem refl : OnlyAmong paths s s := ⟨fun _ => .rfl, fun _ _ => rfl⟩

theorem trans (h : OnlyAmong paths s t) (h' : OnlyAmong paths t u) : OnlyAmong paths s u where
  directories p := (h'.directories p).trans (h.directories p)
  elsewhere p hp :=
    have hp' : ∀ path ∈ paths, t.follow [] (Path.names path) ≠ .ok p :=
      fun path hMem hFollow => hp path hMem (h.directories.follow_eq_ok.1 hFollow)
    (h'.elsewhere p hp').trans (h.elsewhere p hp)

theorem mono (h : OnlyAmong paths s t) (hPaths : paths ⊆ paths') : OnlyAmong paths' s t where
  directories := h.directories
  elsewhere p hp := h.elsewhere p fun path hMem => hp path (hPaths hMem)

theorem of_counter {n : Nat} : OnlyAmong paths s { s with counter := n } where
  directories p := by rw [node?_counter]
  elsewhere p _ := fileAt?_of_node? node?_counter

theorem sameFiles (h : OnlyAmong [] s t) : SameFiles s t := fun p => h.elsewhere p nofun

/-- No directory is made where nothing stood. -/
theorem node?_ne_directory (h : OnlyAmong paths s t) (hSlash : Path.isDirectoryPath path = false)
    (hFree : s.isThere path = false) (hLocate : t.locate path = .ok p) :
    t.node? p ≠ some .directory := by
  intro hDirectory
  have hFollow := h.directories.follow_eq_ok.1 (locate_eq_ok.1 hLocate).1
  have hNone := isThere_eq_false.1 hFree p (locate_of_follow hSlash hFollow)
  cases hNone.symm.trans ((h.directories p).1 hDirectory)

theorem of_move {source target : String} (hMove : s.move source target = .ok t)
    (hSource : ∀ p, s.locate source = .ok p → s.node? p ≠ some .directory) :
    OnlyAmong [source, target] s t := by
  obtain ⟨-, -, a, b, content, hFrom, -, hTo, ⟨-, rfl⟩ | hMoved⟩ := move_eq_ok hMove hSource
  · exact refl
  refine ⟨hMoved.directories, fun p hp => fileAt?_of_node? (hMoved.elsewhere p ?_ ?_)⟩
  · rintro rfl
    exact hp source List.mem_cons_self (locate_eq_ok.1 hFrom).1
  · rintro rfl
    exact hp target (by simp) (locate_eq_ok.1 hTo).1

/-- A path at which no file stands, before and behind, does not count. -/
theorem drop (h : OnlyAmong (path :: more) s t) (hBefore : s.Vacant path) (hBehind : t.Vacant path) :
    OnlyAmong more s t where
  directories := h.directories
  elsewhere p hp := by
    by_cases hFollow : s.follow [] (Path.names path) = .ok p
    · rw [hBefore p hFollow, hBehind p (h.directories.follow_eq_ok.2 hFollow)]
    · exact h.elsewhere p (List.forall_mem_cons.2 ⟨hFollow, hp⟩)

end OnlyAmong

end Store

/-- A fault of the files. -/
def Error.IsFile (e : Error) : Prop := ∃ path fault, e = .file path fault

namespace FileAction

open Store

variable {α β : Type} {x : FileAction α} {f : α → FileAction β} {s t u : Store} {a : α} {b : β}
  {e : Error} {path target : String}

-- ---------------------------------------------------------------------------
-- Running a computation
-- ---------------------------------------------------------------------------

/-- Takes one step of a `do` block apart. -/
theorem run_bind {r : Result β} : (x >>= f).run.run s = (r, u) ↔
    (∃ e, x.run.run s = (.error e, u) ∧ .error e = r) ∨
      ∃ a t, x.run.run s = (.ok a, t) ∧ (f a).run.run t = (r, u) := by
  simp only [ExceptT.run_bind, StateT.run_bind]
  generalize x.run.run s = first
  rcases first with ⟨_ | a, t⟩
  · constructor
    · intro h
      cases h
      exact .inl ⟨_, rfl, rfl⟩
    · rintro (⟨e, h, rfl⟩ | ⟨a, t, h, -⟩) <;> cases h
      rfl
  · constructor
    · exact fun h => .inr ⟨a, t, rfl, h⟩
    · rintro (⟨e, h, -⟩ | ⟨a', t', h, h'⟩) <;> cases h
      exact h'

/-- Inverts one step of a `do` block. -/
theorem run_bind_eq_ok : (x >>= f).run.run s = (.ok b, u) ↔
    ∃ a t, x.run.run s = (.ok a, t) ∧ (f a).run.run t = (.ok b, u) :=
  run_bind.trans (or_iff_right fun ⟨_, _, h⟩ => nomatch h)

theorem run_pure {r : Result α} : (pure a : FileAction α).run.run s = (r, t) ↔ .ok a = r ∧ s = t :=
  Prod.mk.injEq .. ▸ Iff.rfl

theorem run_throw {r : Result α} :
    (throw e : FileAction α).run.run s = (r, t) ↔ .error e = r ∧ s = t :=
  Prod.mk.injEq .. ▸ Iff.rfl

theorem run_lift {r r' : Result α} : (lift r).run.run s = (r', t) ↔ r = r' ∧ s = t := by
  cases r with
  | error e => exact run_throw
  | ok a => exact run_pure

theorem run_look {look? : Store → Except FileFault α} {r : Result α} :
    (look path look?).run.run s = (r, t) ↔ (look? s).mapError (.file path) = r ∧ s = t := by
  have hRun : (look path look?).run.run s = ((look? s).mapError (.file path), s) := by
    refine run_bind.2 (.inr ⟨s, s, rfl, ?_⟩)
    cases look? s <;> rfl
  rw [hRun, Prod.mk.injEq]

/-- A change that fails leaves the store as it is. -/
theorem run_change {f : Store → Except FileFault Store} {r : Result Unit} :
    (change path f).run.run s = (r, t) ↔
      (∃ fault, f s = .error fault ∧ .error (.file path fault) = r ∧ s = t) ∨
        f s = .ok t ∧ .ok () = r := by
  rw [change, run_bind]
  simp only [run_look]
  cases hf : f s with
  | error fault =>
    constructor
    · rintro (⟨e, ⟨he, rfl⟩, rfl⟩ | ⟨u, _, ⟨hu, -⟩, -⟩)
      · cases he
        exact .inl ⟨fault, rfl, rfl, rfl⟩
      · cases hu
    · rintro (⟨_, hFault, rfl, rfl⟩ | ⟨hu, -⟩)
      · cases hFault
        exact .inl ⟨_, ⟨rfl, rfl⟩, rfl⟩
      · cases hu
  | ok u =>
    constructor
    · rintro (⟨e, ⟨he, -⟩, -⟩ | ⟨u', _, ⟨hu, rfl⟩, hSet⟩)
      · cases he
      · cases hu
        cases hSet
        exact .inr ⟨rfl, rfl⟩
    · rintro (⟨_, hFault, -⟩ | ⟨hu, rfl⟩)
      · cases hFault
      · cases hu
        exact .inr ⟨_, s, ⟨rfl, rfl⟩, rfl⟩

theorem run_change_error {f : Store → Except FileFault Store}
    (h : (change path f).run.run s = (.error e, t)) : e.IsFile ∧ s = t := by
  obtain ⟨fault, -, hError, hSame⟩ | ⟨-, hOk⟩ := run_change.1 h
  · cases hError
    exact ⟨⟨path, fault, rfl⟩, hSame⟩
  · cases hOk

/-- A recovery that cannot fail runs behind a failure only. -/
theorem run_onFailure {recover : FileAction Unit} {after : Store → Store} {r : Result α}
    (hRecover : ∀ t, recover.run.run t = (.ok (), after t)) :
    (onFailure x recover).run.run s = (r, u) ↔
      (∃ e t, x.run.run s = (.error e, t) ∧ .error e = r ∧ after t = u) ∨
        ∃ a, x.run.run s = (.ok a, u) ∧ .ok a = r := by
  have hHandler : ∀ e t, (recover >>= fun _ => throw e : FileAction α).run.run t =
      (.error e, after t) := fun e t => run_bind.2 (.inr ⟨(), after t, hRecover t, rfl⟩)
  rw [onFailure, ExceptT.run_tryCatch, StateT.run_bind]
  generalize x.run.run s = first
  rcases first with ⟨e | a, t⟩
  · have hBoth := hHandler e t
    constructor
    · intro h
      obtain ⟨rfl, rfl⟩ := Prod.mk.inj (hBoth.symm.trans h)
      exact .inl ⟨e, t, rfl, rfl, rfl⟩
    · rintro (⟨_, _, h, rfl, rfl⟩ | ⟨_, h, -⟩) <;> cases h
      exact hBoth
  · constructor
    · intro h
      obtain ⟨rfl, rfl⟩ := Prod.mk.inj h
      exact .inr ⟨a, rfl, rfl⟩
    · rintro (⟨_, _, h, -⟩ | ⟨_, h, rfl⟩) <;> cases h
      rfl

/-- Another name for a failure does not change what was done. -/
theorem run_reporting {e : Error} {r : Result α} :
    (reporting e x).run.run s = (r, t) ↔
      (∃ e', x.run.run s = (.error e', t) ∧ .error e = r) ∨
        ∃ a, x.run.run s = (.ok a, t) ∧ .ok a = r := by
  rw [reporting, ExceptT.run_tryCatch, StateT.run_bind]
  generalize x.run.run s = first
  rcases first with ⟨e' | a, u⟩
  · constructor
    · intro h
      obtain ⟨rfl, rfl⟩ := Prod.mk.inj h
      exact .inl ⟨e', rfl, rfl⟩
    · rintro (⟨_, h, rfl⟩ | ⟨_, h, -⟩) <;> cases h
      rfl
  · constructor
    · intro h
      obtain ⟨rfl, rfl⟩ := Prod.mk.inj h
      exact .inr ⟨a, rfl, rfl⟩
    · rintro (⟨_, h, -⟩ | ⟨_, h, rfl⟩) <;> cases h
      rfl

/-- What removing a file leaves, if it can be removed. -/
def discarded (path : String) (s : Store) : Store := (s.remove path).toOption.getD s

theorem run_discard : (discard path).run.run s = (.ok (), discarded path s) := rfl

-- ---------------------------------------------------------------------------
-- Computations that change one file
-- ---------------------------------------------------------------------------

/-- Whatever comes out, the computation changes the file at `path` only. -/
def ChangesOnly (path : String) (x : FileAction α) : Prop :=
  ∀ {s r t}, x.run.run s = (r, t) → OnlyAt path s t

namespace ChangesOnly

theorem pure : ChangesOnly path (pure a : FileAction α) := by
  intro s r t h
  obtain ⟨-, rfl⟩ := run_pure.1 h
  exact .refl

theorem lift {r : Result α} : ChangesOnly path (lift r) := by
  intro s r t h
  obtain ⟨-, rfl⟩ := run_lift.1 h
  exact .refl

theorem write {content : Content} : ChangesOnly path (write path content) := by
  intro s r t h
  obtain ⟨_, -, -, rfl⟩ | ⟨hPut, -⟩ := run_change.1 h
  · exact .refl
  · exact onlyAt_put hPut

theorem bind (hx : ChangesOnly path x) (hf : ∀ a, ChangesOnly path (f a)) :
    ChangesOnly path (x >>= f) := by
  intro s r u h
  obtain ⟨e, h, -⟩ | ⟨a, t, h, h'⟩ := run_bind.1 h
  · exact hx h
  · exact (hx h).trans (hf a h')

theorem foldlM {step : β → α → FileAction β} (hStep : ∀ b a, ChangesOnly path (step b a)) {b : β}
    {l : List α} : ChangesOnly path (l.foldlM step b) := by
  induction l generalizing b with
  | nil => exact pure
  | cons a more ih =>
    rw [List.foldlM_cons]
    exact bind (hStep b a) fun _ => ih

end ChangesOnly

-- ---------------------------------------------------------------------------
-- Discarding a file
-- ---------------------------------------------------------------------------

theorem onlyAt_discarded : OnlyAt path s (discarded path s) := by
  unfold discarded
  cases hRemove : s.remove path with
  | error fault => exact .refl
  | ok t => exact onlyAt_remove hRemove

/-- No file stands where a file was discarded. -/
theorem vacant_discarded (hSlash : Path.isDirectoryPath path = false) :
    (discarded path s).Vacant path := by
  intro p hFollow
  have hFollow := onlyAt_discarded.directories.follow_eq_ok.1 hFollow
  have hLocate := locate_of_follow hSlash hFollow
  rw [Option.eq_none_iff_forall_ne_some]
  intro content hFile
  rw [fileAt?_eq_some] at hFile
  unfold discarded at hFile
  cases hRemove : s.remove path with
  | error fault =>
    rw [hRemove] at hFile
    cases (exists_remove hLocate hFile).symm.trans hRemove
  | ok u =>
    rw [hRemove] at hFile
    obtain ⟨a, found, hAt, hNode, rfl⟩ := remove_eq_ok hRemove
    obtain rfl := Except.ok.inj (hLocate.symm.trans hAt)
    have hNot : s.node? p ≠ some .directory := by simp [hNode]
    have hErased := node?_erase (s := s) (p := p) (ne_nil_of_node? hNot)
    rw [if_pos rfl] at hErased
    cases hErased.symm.trans hFile

/-- Discarding takes back what happened at a path at which no file stood before. -/
theorem onlyAmong_discarded {more : List String} (hSlash : Path.isDirectoryPath path = false)
    (hVacant : s.Vacant path) (h : OnlyAmong (path :: more) s t) :
    OnlyAmong more s (discarded path t) :=
  (h.trans (onlyAt_discarded.among.mono (by simp))).drop hVacant (vacant_discarded hSlash)

/-- Where nothing stood before, no file stands after it was discarded. -/
theorem sameFiles_discarded (hSlash : Path.isDirectoryPath path = false)
    (hFree : s.isThere path = false) (hOnly : OnlyAt path s t) :
    SameFiles s (discarded path t) :=
  (onlyAmong_discarded hSlash (vacant_of_isThere hSlash hFree) hOnly.among).sameFiles

end FileAction

end Jarsmith
