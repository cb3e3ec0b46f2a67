import Jarsmith.Proofs.Running
import Jarsmith.Proofs.Store.Staging

/-!
# Footprints

Which files a computation can change, and which it can remove, whatever comes out. Every operation
names its files by paths, so its footprint is told by the places of these paths.

* `Store.placeOf` — the place that a path leads to, if it leads anywhere.
* `Store.Within` — one store comes from another one by changes at some places; directories stay.
* `FileAction.frame_write`, `FileAction.frame_discard`, `FileAction.frame_writeAtomically` — the
  footprints of the computations on files.
* `Store.Within.isFile`, `Store.Within.content` — what a footprint leaves can be found as before.
-/

namespace Jarsmith

open Outcome

/-- A name of something that stands in a directory. -/
def Path.IsPlain (name : String) : Prop := Path.IsName name ∧ name ≠ ".."

instance Path.decidableIsPlain (name : String) : Decidable (Path.IsPlain name) :=
  inferInstanceAs (Decidable ((name ≠ "" ∧ name ≠ "." ∧ '/' ∉ name.toList) ∧ name ≠ ".."))

namespace Store

variable {s t u : Store} {path : String} {p q : List String} {names : List String}
  {content : Content} {touched dropped touched' dropped' : List String → Prop}

-- ---------------------------------------------------------------------------
-- Places of paths
-- ---------------------------------------------------------------------------

/-- The place that a path leads to, if it leads anywhere. -/
def placeOf (path : String) : List String := (Path.names path).foldl next []

theorem eq_of_follow (hFollow : s.follow p names = .ok q) : q = names.foldl next p := by
  induction names generalizing p with
  | nil => exact (Except.ok.inj hFollow).symm
  | cons name more ih =>
    obtain ⟨-, ⟨rfl, rfl⟩ | ⟨-, -, hRest⟩⟩ := follow_cons_eq_ok.1 hFollow
    · rfl
    · exact ih hRest

theorem eq_placeOf (hLocate : s.locate path = .ok p) : p = placeOf path :=
  eq_of_follow (locate_eq_ok.1 hLocate).1

-- ---------------------------------------------------------------------------
-- Proper stores
-- ---------------------------------------------------------------------------

/-- Every name in the store can stand in a path. -/
def IsProper (s : Store) : Prop :=
  ∀ p, s.node? p ≠ none → ∀ name ∈ p, Path.IsPlain name

theorem isProper_of_entries
    (h : ∀ entry ∈ s.nodes.entries, ∀ name ∈ entry.1, Path.IsPlain name) : s.IsProper := by
  intro p hThere name hMem
  cases p with
  | nil => cases hMem
  | cons first more =>
    obtain ⟨node, hNode⟩ := Option.ne_none_iff_exists'.1 hThere
    rw [node?_of_ne_nil (by simp)] at hNode
    exact h _ (OrderedMap.get?_eq_some.1 hNode) name hMem

theorem isPlain_next (hPlace : ∀ name ∈ p, Path.IsPlain name) {name : String}
    (hName : Path.IsName name) : ∀ other ∈ next p name, Path.IsPlain other := by
  unfold next
  split
  · exact fun other hMem => hPlace other ((List.dropLast_sublist p).mem hMem)
  · rename_i hUp
    intro other hMem
    obtain hMem | hMem := List.mem_append.1 hMem
    · exact hPlace other hMem
    · obtain rfl := List.mem_singleton.1 hMem
      exact ⟨hName, hUp⟩

/-- A path leads along names that can stand in a path. -/
theorem isPlain_of_mem_placeOf {name : String} (hMem : name ∈ placeOf path) :
    Path.IsPlain name := by
  have hFold : ∀ (names p : List String), (∀ name ∈ names, Path.IsName name) →
      (∀ name ∈ p, Path.IsPlain name) → ∀ name ∈ names.foldl next p, Path.IsPlain name := by
    intro names
    induction names with
    | nil => exact fun p _ hPlace => hPlace
    | cons first more ih =>
      intro p hNames hPlace
      obtain ⟨hFirst, hMore⟩ := List.forall_mem_cons.1 hNames
      exact ih _ hMore (isPlain_next hPlace hFirst)
  exact hFold _ [] (fun _ => Path.isName_of_mem) nofun _ hMem

-- ---------------------------------------------------------------------------
-- Changes at some places
-- ---------------------------------------------------------------------------

/-- From `s` to `t` files are changed at `touched` places only, and removed at `dropped` places only.
Directories stay. -/
structure Within (touched dropped : List String → Prop) (s t : Store) : Prop where
  proper : t.IsProper
  directories : ∀ p, s.node? p = some .directory → t.node? p = some .directory
  elsewhere : ∀ p, ¬ touched p → t.fileAt? p = s.fileAt? p
  kept : ∀ p, ¬ dropped p → s.fileAt? p ≠ none → t.fileAt? p ≠ none

/-- What happens to a proper store. -/
def Frame (touched dropped : List String → Prop) (s t : Store) : Prop :=
  s.IsProper → Within touched dropped s t

theorem Within.refl (h : s.IsProper) : Within touched dropped s s :=
  ⟨h, fun _ h => h, fun _ _ => rfl, fun _ _ h => h⟩

theorem Within.trans (h : Within touched dropped s t) (h' : Within touched dropped t u) :
    Within touched dropped s u where
  proper := h'.proper
  directories p hp := h'.directories p (h.directories p hp)
  elsewhere p hp := (h'.elsewhere p hp).trans (h.elsewhere p hp)
  kept p hp hFile := h'.kept p hp (h.kept p hp hFile)

instance : IsPreorder Store (Frame touched dropped) where
  refl _ := .refl
  trans _ _ _ h h' := fun hProper => (h hProper).trans (h' (h hProper).proper)

theorem Within.mono (h : Within touched dropped s t) (hTouched : ∀ p, touched p → touched' p)
    (hDropped : ∀ p, dropped p → dropped' p) : Within touched' dropped' s t where
  proper := h.proper
  directories := h.directories
  elsewhere p hp := h.elsewhere p fun hIn => hp (hTouched p hIn)
  kept p hp := h.kept p fun hIn => hp (hDropped p hIn)

theorem Frame.mono (h : Frame touched dropped s t) (hTouched : ∀ p, touched p → touched' p)
    (hDropped : ∀ p, dropped p → dropped' p) : Frame touched' dropped' s t :=
  fun hProper => (h hProper).mono hTouched hDropped

/-- The same files below at least the same directories. -/
theorem Within.of_sameFiles (hProper : t.IsProper)
    (hDirectories : ∀ p, s.node? p = some .directory → t.node? p = some .directory)
    (hFiles : SameFiles s t) : Within touched dropped s t :=
  ⟨hProper, hDirectories, fun p _ => hFiles p, fun p _ hFile => by rwa [hFiles p]⟩

/-- What touches nothing leaves every file. -/
theorem Within.sameFiles (h : Within (fun _ => False) dropped s t) : SameFiles s t :=
  fun p => h.elsewhere p id

-- ---------------------------------------------------------------------------
-- What is found as before
-- ---------------------------------------------------------------------------

theorem isFile_iff : s.isFile path = true ↔
    s.locate path = .ok (placeOf path) ∧ s.fileAt? (placeOf path) ≠ none := by
  unfold isFile at?
  cases hLocate : s.locate path with
  | error fault => simp
  | ok place =>
    obtain rfl := eq_placeOf hLocate
    rw [and_iff_right rfl, fileAt?]
    dsimp only
    cases s.node? (placeOf path) with
    | none => simp
    | some node => cases node <;> simp

theorem content_iff : s.content path = .ok content ↔
    s.locate path = .ok (placeOf path) ∧ s.fileAt? (placeOf path) = some content := by
  rw [content_eq_ok]
  constructor
  · rintro ⟨place, hLocate, hNode⟩
    obtain rfl := eq_placeOf hLocate
    exact ⟨hLocate, fileAt?_eq_some.2 hNode⟩
  · exact fun ⟨hLocate, hFile⟩ => ⟨_, hLocate, fileAt?_eq_some.1 hFile⟩

theorem isFile_of_content (h : s.content path = .ok content) : s.isFile path = true := by
  obtain ⟨hLocate, hFile⟩ := content_iff.1 h
  exact isFile_iff.2 ⟨hLocate, by rw [hFile]; nofun⟩

/-- A path along which directories stay leads to a file for as long as the file stays. -/
theorem locate_of_file (hDirectories : ∀ p, s.node? p = some .directory →
    t.node? p = some .directory) (hLocate : s.locate path = .ok p) (hFile : s.fileAt? p ≠ none) :
    t.locate path = .ok p := by
  obtain ⟨hFollow, hSlash⟩ := locate_eq_ok.1 hLocate
  refine locate_eq_ok.2 ⟨follow_mono hDirectories hFollow, fun hEnds => ?_⟩
  exact absurd (hSlash hEnds) hFile

theorem Within.isFile (h : Within touched dropped s t) (hKept : ¬ dropped (placeOf path))
    (hFile : s.isFile path = true) : t.isFile path = true := by
  obtain ⟨hLocate, hThere⟩ := isFile_iff.1 hFile
  exact isFile_iff.2 ⟨locate_of_file h.directories hLocate hThere, h.kept _ hKept hThere⟩

/-- A file that stays below directories that stay is read as before. -/
theorem content_of_same (hDirectories : ∀ p, s.node? p = some .directory →
    t.node? p = some .directory) (hSame : t.fileAt? (placeOf path) = s.fileAt? (placeOf path))
    (hContent : s.content path = .ok content) : t.content path = .ok content := by
  obtain ⟨hLocate, hFile⟩ := content_iff.1 hContent
  have hThere : s.fileAt? (placeOf path) ≠ none := by rw [hFile]; nofun
  exact content_iff.2 ⟨locate_of_file hDirectories hLocate hThere, hSame.trans hFile⟩

-- ---------------------------------------------------------------------------
-- Single operations
-- ---------------------------------------------------------------------------

/-- A change of one file. -/
theorem OnlyAt.frame (h : OnlyAt path s t)
    (hDropped : s.fileAt? (placeOf path) ≠ none → t.fileAt? (placeOf path) = none →
      dropped (placeOf path)) : Frame (· = placeOf path) dropped s t := by
  intro hProper
  have hOther : ∀ p, p ≠ placeOf path → t.node? p = s.node? p := fun p hp =>
    h.elsewhere p fun hFollow => hp (eq_of_follow hFollow)
  refine ⟨fun p hThere => ?_, fun p hp => (h.directories p).2 hp,
    fun p hp => fileAt?_of_node? (hOther p hp), fun p hKept hFile => ?_⟩
  · by_cases hp : p = placeOf path
    · subst hp
      exact fun _ => isPlain_of_mem_placeOf
    · rw [hOther p hp] at hThere
      exact hProper p hThere
  · by_cases hp : p = placeOf path
    · subst hp
      exact fun hNone => hKept (hDropped hFile hNone)
    · rwa [fileAt?_of_node? (hOther p hp)]

theorem frame_put (h : s.put path content = .ok t) :
    Frame (· = placeOf path) (fun _ => False) s t := by
  refine (onlyAt_put h).frame fun _ hNone => ?_
  obtain ⟨-, hFile⟩ := content_iff.1 (content_put h)
  cases hFile.symm.trans hNone

theorem frame_remove (h : s.remove path = .ok t) :
    Frame (· = placeOf path) (· = placeOf path) s t :=
  (onlyAt_remove h).frame fun _ _ => rfl

/-- A new directory. -/
theorem frame_insertDirectory (hNone : s.node? p = none) (hPlace : ∀ name ∈ p, Path.IsPlain name) :
    Frame touched dropped s { s with nodes := s.nodes.insert p .directory } := by
  intro hProper
  have hRoot : p ≠ [] := ne_nil_of_node? (by rw [hNone]; nofun)
  have hNode : ∀ q, ({ s with nodes := s.nodes.insert p .directory } : Store).node? q =
      if p = q then some .directory else s.node? q := fun q => node?_insert hRoot
  refine .of_sameFiles (fun q hThere => ?_) (fun q hq => ?_) fun q => ?_
  · rw [hNode] at hThere
    split at hThere
    · rename_i hSame
      exact hSame ▸ hPlace
    · exact hProper q hThere
  · rw [hNode, hq, ite_self]
  · by_cases hSame : p = q
    · rw [fileAt?, hNode, if_pos hSame, fileAt?, ← hSame, hNone]
    · exact fileAt?_of_node? (by rw [hNode, if_neg hSame])

theorem frame_makeAlong (h : s.makeAlong p names = .ok t) (hPlace : ∀ name ∈ p, Path.IsPlain name)
    (hNames : ∀ name ∈ names, Path.IsName name) : Frame touched dropped s t := by
  induction names generalizing s p with
  | nil =>
    obtain rfl := Except.ok.inj h
    exact .refl
  | cons name more ih =>
    obtain ⟨hName, hMore⟩ := List.forall_mem_cons.1 hNames
    have hNext := isPlain_next hPlace hName
    rw [makeAlong] at h
    split at h
    · cases h
    · extract_lets target at h
      split at h
      · exact ih h hNext hMore
      · cases h
      · rename_i hNone
        exact trans_of (Frame touched dropped) (frame_insertDirectory hNone hNext)
          (ih h hNext hMore)

/-- The next number for a temporary name. -/
theorem frame_counter {n : Nat} : Frame touched dropped s { s with counter := n } := fun hProper =>
  .of_sameFiles (fun p hThere => hProper p (by rwa [node?_counter] at hThere))
    (fun p hp => by rwa [node?_counter]) fun _ => fileAt?_of_node? node?_counter

/-- A file that moves to another place. -/
theorem Moved.frame {a b : List String} (h : Moved s t a b content)
    (hPlace : ∀ name ∈ b, Path.IsPlain name) :
    Frame (fun p => p = a ∨ p = b) (· = a) s t := by
  intro hProper
  have hOther : ∀ p, ¬ (p = a ∨ p = b) → t.node? p = s.node? p := fun p hp =>
    h.elsewhere p (fun hp' => hp (.inl hp')) fun hp' => hp (.inr hp')
  refine ⟨fun p hThere => ?_, fun p hp => (h.directories p).2 hp,
    fun p hp => fileAt?_of_node? (hOther p hp), fun p hKept hFile => ?_⟩
  · by_cases hp : p = a ∨ p = b
    · obtain rfl | rfl := hp
      · exact absurd h.gone hThere
      · exact hPlace
    · rw [hOther p hp] at hThere
      exact hProper p hThere
  · by_cases hp : p = b
    · subst hp
      rw [fileAt?_eq_some.2 h.after]
      nofun
    · rwa [fileAt?_of_node? (hOther p (not_or.2 ⟨hKept, hp⟩))]

end Store

namespace FileAction

open Store Running

variable {s t u : Store} {path source target : String} {content : Content} {α : Type}
  {x : FileAction α} {touched dropped : List String → Prop}

-- ---------------------------------------------------------------------------
-- Footprints of computations
-- ---------------------------------------------------------------------------

theorem frame_look {look? : Store → Except FileFault α} :
    Respects (Frame touched dropped) (look path look?) where
  run h := by
    obtain ⟨-, rfl⟩ := run_look.1 h
    exact .refl

theorem frame_change {f : Store → Except FileFault Store}
    (hf : ∀ {s t}, f s = .ok t → Frame touched dropped s t) :
    Respects (Frame touched dropped) (change path f) where
  run h := by
    obtain ⟨_, -, -, rfl⟩ | ⟨hOk, -⟩ := run_change.1 h
    · exact .refl
    · exact hf hOk

theorem frame_lift {r : Result α} : Respects (Frame touched dropped) (lift r) where
  run h := by
    obtain ⟨-, rfl⟩ := run_lift.1 h
    exact .refl

theorem frame_read : Respects (Frame touched dropped) (read path) := frame_look

theorem frame_readText : Respects (Frame touched dropped) (readText path) :=
  frame_read.bind fun content => by
    split
    · exact .pure
    · exact .throw

theorem frame_digest {a : HashAlgorithm} : Respects (Frame touched dropped) (digest a path) :=
  frame_read.bind fun _ => .pure

theorem frame_entries : Respects (Frame touched dropped) (entries path) :=
  frame_read.bind fun content => by
    split
    · exact .pure
    · exact .throw

theorem frame_isFile : Respects (Frame touched dropped) (isFile path) :=
  Respects.get.bind fun _ => .pure

theorem frame_isValid {a : HashAlgorithm} {digest : String} :
    Respects (Frame touched dropped) (isValid a path digest) :=
  Respects.get.bind fun s => by
    split
    · exact .pure
    · exact .pure

theorem frame_write : Respects (Frame (· = placeOf path) fun _ => False) (write path content) :=
  frame_change fun h => frame_put h

theorem frame_discarded : Frame (· = placeOf path) (· = placeOf path) s (discarded path s) := by
  unfold discarded
  cases hRemove : s.remove path with
  | error fault => exact .refl
  | ok t => exact frame_remove hRemove

theorem frame_discard :
    Respects (Frame (· = placeOf path) (· = placeOf path)) (discard path) where
  run h := by
    cases run_discard.symm.trans h
    exact frame_discarded

theorem frame_makeParents : Respects (Frame touched dropped) (makeParents path) := by
  unfold makeParents
  split
  · exact .pure
  · exact .pure
  · exact frame_change fun h => frame_makeAlong h nofun fun _ => Path.isName_of_mem

theorem Prepared.frame {start : Store} {number : Nat} (h : Prepared target s start number) :
    Frame touched dropped s start := by
  obtain ⟨ready, hParents, rfl⟩ := h.parents
  exact trans_of (Frame touched dropped) (frame_makeParents.run hParents) frame_counter

/-- The steps of a staged write keep directories and proper names. -/
theorem frame_writeAtomically_steps {y : System} {make : String → FileAction α}
    (hMake : ∀ staged, ChangesOnly staged (make staged)) :
    Respects (Frame (fun _ => True) fun _ => True) (writeAtomicallyOn y target make) where
  run h := by
    obtain ⟨_, hParents, -⟩ | ⟨start, number, hPrepared, made, t, hRun, hEnd⟩ :=
      run_writeAtomically h
    · exact frame_makeParents.run hParents
    have hOnly := hMake _ hRun
    have hMade : Frame _ (fun _ => True) start t := hOnly.frame fun _ _ => trivial
    refine trans_of _ hPrepared.frame
      (trans_of _ (hMade.mono (fun _ _ => trivial) fun _ _ => trivial) ?_)
    obtain ⟨_, -, -, rfl⟩ | ⟨_, _, v, -, -, hTorn, rfl⟩ | ⟨_, -, -, hMove⟩ := hEnd
    · exact frame_discarded.mono (fun _ _ => trivial) fun _ _ => trivial
    · have hPart : Frame _ (fun _ => True) t v := hTorn.onlyAt.frame fun _ _ => trivial
      exact trans_of _ (hPart.mono (fun _ _ => trivial) fun _ _ => trivial)
        (frame_discarded.mono (fun _ _ => trivial) fun _ _ => trivial)
    · obtain ⟨hDots, -, a, b, content, hFrom, -, hTarget, hSame | hMoved⟩ :=
        hMove.spec fun _ =>
          hOnly.among.node?_ne_directory isDirectoryPath_siblingPath hPrepared.free
      · exact absurd hSame
          (ne_of_siblingPath hDots (locate_eq_ok.1 hFrom).1 (locate_eq_ok.1 hTarget).1)
      · obtain rfl := eq_placeOf hTarget
        exact (hMoved.frame fun _ => isPlain_of_mem_placeOf).mono (fun _ _ => trivial)
          fun _ _ => trivial

/-- A file that stands at the target afterwards is the only change. -/
theorem within_of_written {place : List String} (hProper : u.IsProper)
    (hDirectories : ∀ p, s.node? p = some .directory → u.node? p = some .directory)
    (hTarget : u.locate target = .ok place) (hNode : u.node? place = some (.file content))
    (hOther : ∀ p, p ≠ place → u.fileAt? p = s.fileAt? p) :
    Within (· = placeOf target) (fun _ => False) s u := by
  obtain rfl := eq_placeOf hTarget
  refine ⟨hProper, hDirectories, hOther, fun p _ hFile => ?_⟩
  by_cases hp : p = placeOf target
  · rw [hp, fileAt?_eq_some.2 hNode]
    nofun
  · rwa [hOther p hp]

/-- A staged write touches its target, and removes nothing. -/
theorem frame_writeAtomically {y : System} {make : String → FileAction α}
    (hMake : ∀ staged, ChangesOnly staged (make staged)) :
    Respects (Frame (· = placeOf target) fun _ => False) (writeAtomicallyOn y target make) where
  run {s r u} h hProper := by
    obtain ⟨hNames, hDirectories, -, -⟩ := (frame_writeAtomically_steps hMake).run h hProper
    cases r with
    | error e =>
      obtain hSame | ⟨_, _, _, _, hHalfway⟩ := failed_writeAtomically (fun _ => hMake _) h
      · exact .of_sameFiles hNames hDirectories hSame
      · obtain ⟨_, _, _, place, -, -, hTarget, hNode, hOther, -⟩ := hHalfway.spec fun _ => hMake _
        exact within_of_written hNames hDirectories hTarget hNode hOther
    | ok a =>
      obtain ⟨-, -, -, place, content, -, -, -, hTarget, hNode, hOther, -⟩ :=
        writeAtomically_eq_ok (fun _ => hMake _) h
      exact within_of_written hNames hDirectories hTarget hNode hOther

end FileAction

end Jarsmith
