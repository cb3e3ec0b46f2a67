import Jarsmith.Jar.Merge
import Jarsmith.Jar.Transform
import Jarsmith.Proofs.Running
import Jarsmith.Proofs.Store.Footprint

/-!
# Jars as a whole or not at all

Transforming and merging write their jar entry by entry, and may fail at any of them. Others never
see a part of it: the jar is made at a sibling of its path, and the sibling is discarded on failure.

* `Jar.changesOnly_writeSteps` — writing step by step touches one file.
* `Jar.run_writeSteps` — what the file holds behind the last step.
* `Jar.allOrNothing` — transforming and merging either leave every file as it was, or put a complete
  jar at their target and leave every other file as it was.
-/

namespace Jarsmith

open Outcome

/-- The entries of the archive at a path. -/
def Store.entriesAt? (s : Store) (path : String) : Option (List ArchiveEntry) :=
  match s.content path with
  | .ok content => content.entries?
  | .error _ => none

namespace FileAction

variable {path : String} {s t : Store} {r : Result (List ArchiveEntry)}

/-- Reading an archive leaves the store as it is. -/
theorem run_entries (h : (FileAction.entries path).run.run s = (r, t)) :
    s = t ∧ ∀ entries, r = .ok entries → s.entriesAt? path = some entries := by
  obtain ⟨e, hRead, rfl⟩ | ⟨content, t', hRead, h'⟩ := run_bind.1 h
  · exact ⟨(run_look.1 hRead).2, nofun⟩
  · obtain ⟨hContent, rfl⟩ := run_look.1 hRead
    have hRead : s.content path = .ok content := by
      cases hLook : s.content path with
      | error fault => rw [hLook] at hContent; cases hContent
      | ok found => rw [hLook] at hContent; cases hContent; rfl
    split at h'
    · rename_i found hFound
      obtain ⟨rfl, rfl⟩ := run_pure.1 h'
      refine ⟨rfl, fun entries h => ?_⟩
      cases h
      rw [Store.entriesAt?, hRead]
      exact hFound
    · obtain ⟨rfl, rfl⟩ := run_throw.1 h'
      exact ⟨rfl, nofun⟩

/-- An archive that is there can be read. -/
theorem run_entries_of_entriesAt? {found : List ArchiveEntry} (h : s.entriesAt? path = some found) :
    (FileAction.entries path).run.run s = (.ok found, s) := by
  unfold Store.entriesAt? at h
  split at h
  · rename_i content hContent
    refine run_bind.2 (.inr ⟨content, s, run_look.2 ⟨by rw [hContent]; rfl, rfl⟩, ?_⟩)
    rw [h]
    exact run_pure.2 ⟨rfl, rfl⟩
  · cases h

theorem ChangesOnly.entries {other : String} : ChangesOnly path (entries other) := by
  intro s r t h
  obtain ⟨rfl, -⟩ := run_entries h
  exact .refl

end FileAction

namespace Jar

open FileAction Store

variable {α β : Type} {y : System} {s t : Store} {path client server target : String}
  {ours theirs out written : List ArchiveEntry}
  {step : List ArchiveEntry → α → Result (List ArchiveEntry)} {items : List α}

-- ---------------------------------------------------------------------------
-- Writing step by step
-- ---------------------------------------------------------------------------

/-- Whatever comes out, writing a jar touches one file. -/
theorem changesOnly_writeSteps : ChangesOnly path (writeSteps y path step written items) :=
  ChangesOnly.foldlM fun _ _ => ChangesOnly.lift.bind fun _ => ChangesOnly.write.bind fun _ =>
    ChangesOnly.pure

theorem run_write {content : Content} (h : (write path content).run.run s = (.ok (), t)) :
    t.content path = .ok content := by
  obtain ⟨_, -, h, -⟩ | ⟨hPut, -⟩ := run_change.1 h
  · cases h
  · exact content_put hPut

/-- A jar starts without entries. -/
theorem run_create (y : System) (h : (create path).run.run s = (.ok (), t)) :
    t.content path = .ok (y.archive []) := run_write h

/-- The file holds what the steps made, and nothing else. -/
theorem run_writeSteps (hHolds : s.content path = .ok (y.archive written))
    (h : (writeSteps y path step written items).run.run s = (.ok out, t)) :
    items.foldlM step written = .ok out ∧ t.content path = .ok (y.archive out) := by
  induction items generalizing s written with
  | nil =>
    obtain ⟨hOut, rfl⟩ := run_pure.1 h
    cases hOut
    exact ⟨rfl, hHolds⟩
  | cons item more ih =>
    rw [writeSteps, List.foldlM_cons] at h
    obtain ⟨next, u, hFirst, hMore⟩ := run_bind_eq_ok.1 h
    obtain ⟨made, _, hLift, h⟩ := run_bind_eq_ok.1 hFirst
    obtain ⟨hStep, rfl⟩ := run_lift.1 hLift
    obtain ⟨⟨⟩, _, hWrite, h⟩ := run_bind_eq_ok.1 h
    obtain ⟨hNext, rfl⟩ := run_pure.1 h
    cases hNext
    obtain ⟨hOut, hLast⟩ := ih (run_write hWrite) hMore
    exact ⟨by rw [List.foldlM_cons, hStep]; exact hOut, hLast⟩

/-- Writing step by step fails at a step, or at the files. -/
theorem error_of_writeSteps {e : Error}
    (h : (writeSteps y path step written items).run.run s = (.error e, t)) :
    e.IsFile ∨ items.foldlM step written = .error e := by
  induction items generalizing s written with
  | nil => exact nomatch (run_pure.1 h).1
  | cons item more ih =>
    rw [writeSteps, List.foldlM_cons] at h
    rw [List.foldlM_cons, bind_error_iff]
    obtain ⟨_, hFirst, hError⟩ | ⟨next, u, hFirst, hMore⟩ := run_bind.1 h
    · cases hError
      obtain ⟨_, hLift, hError⟩ | ⟨made, _, -, h⟩ := run_bind.1 hFirst
      · cases hError
        exact .inr (.inl (run_lift.1 hLift).1)
      · obtain ⟨_, hWrite, hError⟩ | ⟨⟨⟩, _, -, h⟩ := run_bind.1 h
        · cases hError
          exact .inl (run_change_error hWrite).1
        · exact nomatch (run_pure.1 h).1
    · obtain ⟨made, _, hLift, h⟩ := run_bind_eq_ok.1 hFirst
      obtain ⟨⟨⟩, _, -, h⟩ := run_bind_eq_ok.1 h
      obtain rfl := Except.ok.inj (run_pure.1 h).1
      exact (ih hMore).imp_right fun hFold => .inr ⟨made, (run_lift.1 hLift).1, hFold⟩

/-- What stands in a file can be written over. -/
theorem exists_run_write (content : Content) {old : Content} (hHolds : s.content path = .ok old) :
    ∃ t, (write path content).run.run s = (.ok (), t) := by
  obtain ⟨place, hLocate, hNode⟩ := content_eq_ok.1 hHolds
  have hPut : s.put path content = .ok (s.setFile place content) := by
    refine bind_ok_iff.2 ⟨place, hLocate, ?_⟩
    rw [hNode]
    rfl
  exact ⟨_, run_change.2 (.inr ⟨hPut, rfl⟩)⟩

/-- Once the file is there, nothing but the steps can fail. -/
theorem exists_run_writeSteps (hHolds : s.content path = .ok (y.archive written))
    (hSteps : items.foldlM step written = .ok out) :
    ∃ t, (writeSteps y path step written items).run.run s = (.ok out, t) := by
  induction items generalizing s written with
  | nil => exact ⟨s, run_pure.2 ⟨hSteps, rfl⟩⟩
  | cons item more ih =>
    rw [List.foldlM_cons] at hSteps
    obtain ⟨next, hStep, hMore⟩ := bind_ok_iff.1 hSteps
    obtain ⟨t, hWrite⟩ := exists_run_write (y.archive next) hHolds
    obtain ⟨u, hRest⟩ := ih (run_write hWrite) hMore
    refine ⟨u, ?_⟩
    rw [writeSteps, List.foldlM_cons]
    exact run_bind_eq_ok.2 ⟨next, t, run_bind_eq_ok.2 ⟨next, s, run_lift.2 ⟨hStep, rfl⟩,
      run_bind_eq_ok.2 ⟨(), t, hWrite, run_pure.2 ⟨rfl, rfl⟩⟩⟩, hRest⟩

-- ---------------------------------------------------------------------------
-- As a whole or not at all
-- ---------------------------------------------------------------------------

/-- The jar with the given entries was made at a sibling of `target`. The system did not rename it, and
its copy went wrong halfway: it broke off, so that `target` holds a part of the jar, or the sibling
could not be removed behind it. Every other file is as it was. -/
structure HalfMoved (y : System) (target : String) (entries : List ArchiveEntry) (s t : Store)
    (e : Error) : Prop where
  torn : ∃ number fault left place,
    y.settled (siblingPath target number) target = .unable fault ∧
    t.locate target = .ok place ∧ t.node? place = some (.file left) ∧
    (∀ p, p ≠ place → t.fileAt? p = s.fileAt? p) ∧
    ((∃ count, y.copy (siblingPath target number) target = .brokenOff count ∧
        left = .raw ((y.archive entries).bytes.take count) ∧ e = .file target fault) ∨
      y.copy (siblingPath target number) target = .whole ∧
        y.removes (siblingPath target number) = false ∧ left = y.archive entries ∧
        e = .file (siblingPath target number) .unusable)

theorem HalfMoved.not_whole {e : Error} (h : HalfMoved y target written s t e) : ¬ y.Whole := by
  intro hWhole
  obtain ⟨number, fault, left, place, -, -, -, -, ⟨count, hCopy, -⟩ | ⟨-, hRemoves, -⟩⟩ := h.torn
  · exact hWhole.copy _ _ _ hCopy
  · cases hRemoves.symm.trans (hWhole.removes _)

/-- A computation that makes a jar at `target`, where `Makes` tells which jars can be made, and what
comes out. When it fails and no jar can be made, every file is as it was, an older one at `target`
included, and none is new. This also holds of a jar that was made and could not be put at `target`,
unless the system left it halfway. When the computation succeeds, the file at `target` holds all
entries of the jar, the sibling at which they were written is gone, and every other file is as it
was. -/
structure AllOrNothing (y : System) (target : String) (action : FileAction α)
    (Makes : Store → α → List ArchiveEntry → Prop) : Prop where
  failed : ∀ {s e t}, action.run.run s = (.error e, t) → (¬ ∃ a written, Makes s a written) →
    SameFiles s t
  unpublished : ∀ {s e t}, action.run.run s = (.error e, t) → SameFiles s t ∨
    ∃ a written, Makes s a written ∧ HalfMoved y target written s t e
  whole : y.Whole → ∀ {s e t}, action.run.run s = (.error e, t) → SameFiles s t
  succeeded : ∀ {s a t}, action.run.run s = (.ok a, t) → ∃ place written, Makes s a written ∧
    t.locate target = .ok place ∧ t.node? place = some (.file (y.archive written)) ∧
    (∀ p, p ≠ place → t.fileAt? p = s.fileAt? p) ∧
    ∃ number, t.counter = number + 1 ∧ t.isThere (siblingPath target number) = false

section Wholes

variable {action : FileAction α} {Makes Makes' : Store → α → List ArchiveEntry → Prop}

/-- What happens to jars that cannot be made, and on systems that leave nothing halfway, follows from
what happens to jars that were made. -/
theorem AllOrNothing.mk' (hUnpublished : ∀ {s e t}, action.run.run s = (.error e, t) →
      SameFiles s t ∨ ∃ a written, Makes s a written ∧ HalfMoved y target written s t e)
    (hSucceeded : ∀ {s a t}, action.run.run s = (.ok a, t) → ∃ place written, Makes s a written ∧
      t.locate target = .ok place ∧ t.node? place = some (.file (y.archive written)) ∧
      (∀ p, p ≠ place → t.fileAt? p = s.fileAt? p) ∧
      ∃ number, t.counter = number + 1 ∧ t.isThere (siblingPath target number) = false) :
    AllOrNothing y target action Makes where
  failed h hNone := (hUnpublished h).resolve_right fun ⟨a, written, hMakes, _⟩ =>
    hNone ⟨a, written, hMakes⟩
  unpublished := hUnpublished
  whole hWhole _ _ _ h := (hUnpublished h).resolve_right fun ⟨_, _, _, hHalf⟩ =>
    hHalf.not_whole hWhole
  succeeded := hSucceeded

/-- A jar that is made at a sibling. -/
theorem allOrNothing_writeAtomically {make : String → FileAction α}
    (Makes : Store → α → List ArchiveEntry → Prop)
    (hMake : ∀ staged, ChangesOnly staged (make staged))
    (hMakes : ∀ {staged s a t}, (make staged).run.run s = (.ok a, t) →
      ∃ written, Makes s a written ∧ t.content staged = .ok (y.archive written)) :
    AllOrNothing y target (writeAtomicallyOn y target make) fun s a written =>
      ∃ start number, Prepared target s start number ∧ Makes start a written := by
  refine .mk' (fun {s e t} h => ?_) fun {s a t} h => ?_
  · obtain hSame | ⟨a, start, made, number, hHalfway⟩ := failed_writeAtomically (fun _ => hMake _) h
    · exact .inl hSame
    obtain ⟨content, left, fault, place, hContent, hRest⟩ := hHalfway.spec fun _ => hMake _
    obtain ⟨written, hWritten, hHolds⟩ := hMakes hHalfway.made
    obtain rfl := Except.ok.inj (hContent.symm.trans hHolds)
    exact .inr ⟨a, written, ⟨start, number, hHalfway.prepared, hWritten⟩,
      ⟨number, fault, left, place, hRest⟩⟩
  · obtain ⟨start, number, made, place, content, hPrepared, hRun, hContent, hTarget, hNode, hOther,
      hGone, hCounter⟩ := writeAtomically_eq_ok (fun _ => hMake _) h
    obtain ⟨written, hWritten, hHolds⟩ := hMakes hRun
    obtain rfl := Except.ok.inj (hContent.symm.trans hHolds)
    exact ⟨place, written, ⟨start, number, hPrepared, hWritten⟩, hTarget, hNode, hOther, number,
      hCounter, hGone⟩

/-- A jar that can be made may be told in other words. -/
theorem AllOrNothing.imp (h : AllOrNothing y target action Makes)
    (hMakes : ∀ {s a written}, Makes s a written → Makes' s a written) :
    AllOrNothing y target action Makes' := by
  refine .mk' (fun hRun => ?_) fun hRun => ?_
  · exact (h.unpublished hRun).imp_right fun ⟨a, written, hWritten, hHalf⟩ =>
      ⟨a, written, hMakes hWritten, hHalf⟩
  · obtain ⟨place, written, hWritten, hRest⟩ := h.succeeded hRun
    exact ⟨place, written, hMakes hWritten, hRest⟩

/-- Reading an archive first. -/
theorem AllOrNothing.entries {action : List ArchiveEntry → FileAction α}
    {Makes : List ArchiveEntry → Store → α → List ArchiveEntry → Prop}
    (h : ∀ found, AllOrNothing y target (action found) (Makes found)) :
    AllOrNothing y target (FileAction.entries path >>= action) fun s a written =>
      ∃ found, s.entriesAt? path = some found ∧ Makes found s a written := by
  refine .mk' (fun hRun => ?_) fun hRun => ?_
  · obtain ⟨_, hRead, -⟩ | ⟨found, _, hRead, hAction⟩ := run_bind.1 hRun
    · obtain ⟨rfl, -⟩ := run_entries hRead
      exact .inl fun _ => rfl
    · obtain ⟨rfl, hFound⟩ := run_entries hRead
      exact ((h found).unpublished hAction).imp_right fun ⟨a, written, hMakes, hHalf⟩ =>
        ⟨a, written, ⟨found, hFound _ rfl, hMakes⟩, hHalf⟩
  · obtain ⟨found, _, hRead, hAction⟩ := run_bind_eq_ok.1 hRun
    obtain ⟨rfl, hFound⟩ := run_entries hRead
    obtain ⟨place, written, hMakes, hRest⟩ := (h found).succeeded hAction
    exact ⟨place, written, ⟨found, hFound _ rfl, hMakes⟩, hRest⟩

end Wholes

theorem allOrNothing_transform {source : String} {stages : List Transformer} :
    AllOrNothing y target (transformOn y source target stages) fun s count written =>
      ∃ start number, Prepared target s start number ∧
        ∃ entries, start.entriesAt? source = some entries ∧
          transformEntries source stages entries = .ok written ∧ count = written.length := by
  refine allOrNothing_writeAtomically _ (fun staged => ?_) fun {staged s count t} h => ?_
  · exact ChangesOnly.entries.bind fun _ => ChangesOnly.write.bind fun _ =>
      changesOnly_writeSteps.bind fun _ => ChangesOnly.pure
  · obtain ⟨entries, _, hRead, h⟩ := run_bind_eq_ok.1 h
    obtain ⟨rfl, hEntries⟩ := run_entries hRead
    obtain ⟨⟨⟩, _, hCreate, h⟩ := run_bind_eq_ok.1 h
    obtain ⟨written, _, hSteps, h⟩ := run_bind_eq_ok.1 h
    obtain ⟨hCount, rfl⟩ := run_pure.1 h
    cases hCount
    obtain ⟨hWritten, hHolds⟩ := run_writeSteps (run_create y hCreate) hSteps
    exact ⟨written, ⟨entries, hEntries _ rfl, hWritten, rfl⟩, hHolds⟩

theorem allOrNothing_merge :
    AllOrNothing y target (mergeOn y client server target) fun s counts written =>
      ∃ ours, s.entriesAt? client = some ours ∧ ∃ theirs, s.entriesAt? server = some theirs ∧
        mergeEntries client ours theirs = .ok written ∧ counts = mergeCounts ours theirs := by
  refine AllOrNothing.entries fun ours => AllOrNothing.entries fun theirs => ?_
  let Makes : Store → MergeCounts → List ArchiveEntry → Prop := fun _ counts written =>
    mergeEntries client ours theirs = .ok written ∧ counts = mergeCounts ours theirs
  refine (allOrNothing_writeAtomically Makes (fun staged => ?_) fun {staged s counts t} h => ?_).imp
    fun ⟨_, _, _, hMakes⟩ => hMakes
  · exact ChangesOnly.write.bind fun _ => changesOnly_writeSteps.bind fun _ =>
      changesOnly_writeSteps.bind fun _ => ChangesOnly.pure
  · obtain ⟨⟨⟩, _, hCreate, h⟩ := run_bind_eq_ok.1 h
    obtain ⟨first, _, hFirst, h⟩ := run_bind_eq_ok.1 h
    obtain ⟨written, _, hSecond, h⟩ := run_bind_eq_ok.1 h
    obtain ⟨hCounts, rfl⟩ := run_pure.1 h
    cases hCounts
    obtain ⟨hOurs, hHolds⟩ := run_writeSteps (run_create y hCreate) hFirst
    obtain ⟨hTheirs, hHolds⟩ := run_writeSteps hHolds hSecond
    exact ⟨written, ⟨bind_ok_iff.2 ⟨first, hOurs, hTheirs⟩, rfl⟩, hHolds⟩

/-- Merging two archives fails because they cannot be merged, or at the files. -/
theorem error_of_merge {e : Error} (hOurs : s.entriesAt? client = some ours)
    (hTheirs : s.entriesAt? server = some theirs)
    (h : (mergeOn y client server target).run.run s = (.error e, t)) :
    e.IsFile ∨ mergeEntries client ours theirs = .error e := by
  have hFirst := run_entries_of_entriesAt? hOurs
  have hSecond := run_entries_of_entriesAt? hTheirs
  obtain ⟨_, hRead, -⟩ | ⟨_, _, hRead, h⟩ := run_bind.1 h
  · exact nomatch hFirst.symm.trans hRead
  cases hFirst.symm.trans hRead
  obtain ⟨_, hRead, -⟩ | ⟨_, _, hRead, h⟩ := run_bind.1 h
  · exact nomatch hSecond.symm.trans hRead
  cases hSecond.symm.trans hRead
  obtain hFile | ⟨start, number, _, -, h⟩ := error_of_writeAtomically h
  · exact .inl hFile
  obtain ⟨_, hCreate, hError⟩ | ⟨⟨⟩, _, hCreate, h⟩ := run_bind.1 h
  · cases hError
    exact .inl (run_change_error hCreate).1
  obtain ⟨_, hSteps, hError⟩ | ⟨first, _, hSteps, h⟩ := run_bind.1 h
  · cases hError
    exact (error_of_writeSteps hSteps).imp_right fun hFold => bind_error_iff.2 (.inl hFold)
  obtain ⟨hFront, -⟩ := run_writeSteps (run_create y hCreate) hSteps
  obtain ⟨_, hSteps, hError⟩ | ⟨_, _, -, h⟩ := run_bind.1 h
  · cases hError
    exact (error_of_writeSteps hSteps).imp_right fun hFold =>
      bind_error_iff.2 (.inr ⟨_, hFront, hFold⟩)
  · exact nomatch (run_pure.1 h).1

/-- An archive is there as before when the sibling is to be written. -/
theorem entriesAt?_of_prepared {start : Store} {number : Nat} {found : List ArchiveEntry}
    (hPrepared : Prepared target s start number) (h : s.entriesAt? path = some found) :
    start.entriesAt? path = some found := by
  unfold entriesAt? at h ⊢
  split at h
  · rename_i content hContent
    rw [content_of_same hPrepared.directories (hPrepared.sameFiles _) hContent]
    exact h
  · cases h

/-- Transforming an archive fails because its entries cannot be transformed, or at the files. -/
theorem error_of_transform {source : String} {stages : List Transformer}
    {entries : List ArchiveEntry} {e : Error} (hEntries : s.entriesAt? source = some entries)
    (h : (transformOn y source target stages).run.run s = (.error e, t)) :
    e.IsFile ∨ transformEntries source stages entries = .error e := by
  obtain hFile | ⟨start, number, _, hPrepared, h⟩ := error_of_writeAtomically h
  · exact .inl hFile
  have hThere := run_entries_of_entriesAt? (entriesAt?_of_prepared hPrepared hEntries)
  obtain ⟨_, hRead, -⟩ | ⟨_, _, hRead, h⟩ := run_bind.1 h
  · exact nomatch hThere.symm.trans hRead
  cases hThere.symm.trans hRead
  obtain ⟨_, hCreate, hError⟩ | ⟨⟨⟩, _, -, h⟩ := run_bind.1 h
  · cases hError
    exact .inl (run_change_error hCreate).1
  obtain ⟨_, hSteps, hError⟩ | ⟨_, _, -, h⟩ := run_bind.1 h
  · cases hError
    exact error_of_writeSteps hSteps
  · exact nomatch (run_pure.1 h).1

/-- **Transforming a file is transforming its entries**, unless there is a fault of the files. -/
theorem run_transform {source : String} {stages : List Transformer} {entries : List ArchiveEntry}
    {r : Result Nat} (hEntries : s.entriesAt? source = some entries)
    (h : (transformOn y source target stages).run.run s = (r, t)) :
    (∃ path fault, r = .error (.file path fault)) ∨
      r = (transformEntries source stages entries).map List.length ∧
        ∀ out, transformEntries source stages entries = .ok out →
          t.content target = .ok (y.archive out) := by
  cases r with
  | error e =>
    obtain ⟨path, fault, rfl⟩ | hTransform := error_of_transform hEntries h
    · exact .inl ⟨path, fault, rfl⟩
    · rw [hTransform]
      exact .inr ⟨rfl, nofun⟩
  | ok count =>
    obtain ⟨place, written, hWritten, hTarget, hNode, -⟩ := allOrNothing_transform.succeeded h
    obtain ⟨start, number, hPrepared, entries', hEntries', hTransform, hCount⟩ := hWritten
    obtain rfl :=
      Option.some.inj ((entriesAt?_of_prepared hPrepared hEntries).symm.trans hEntries')
    rw [hTransform, hCount]
    refine .inr ⟨rfl, fun out hOut => ?_⟩
    obtain rfl := Except.ok.inj hOut
    exact content_eq_ok.2 ⟨place, hTarget, hNode⟩

/-- A jar can be written at `target`, be it an empty one. -/
def Writable (y : System) (target : String) (s : Store) : Prop :=
  ∃ t, (writeAtomicallyOn y target create).run.run s = (.ok (), t)

/-- Where a jar can be written, a file is transformed if its entries can be. -/
theorem exists_run_transform {source : String} {stages : List Transformer}
    {entries : List ArchiveEntry} (hEntries : s.entriesAt? source = some entries)
    (hWritable : Writable y target s) (hOut : transformEntries source stages entries = .ok out) :
    ∃ t, (transformOn y source target stages).run.run s = (.ok out.length, t) := by
  obtain ⟨u, hEmpty⟩ := hWritable
  have hMade : ∃ count t, (transformOn y source target stages).run.run s = (.ok count, t) := by
    refine exists_writeAtomically (fun _ => ChangesOnly.write) (fun staged => ?_)
      (fun {start number a t} hPrepared hCreate => ?_) hEmpty
    · exact ChangesOnly.entries.bind fun _ => ChangesOnly.write.bind fun _ =>
        changesOnly_writeSteps.bind fun _ => ChangesOnly.pure
    · have hRead := run_entries_of_entriesAt? (entriesAt?_of_prepared hPrepared hEntries)
      have hStarted := run_create y hCreate
      obtain ⟨u, hSteps⟩ := exists_run_writeSteps hStarted hOut
      refine ⟨out.length, u, y.archive out, ?_, (run_writeSteps hStarted hSteps).2⟩
      exact run_bind_eq_ok.2 ⟨entries, start, hRead, run_bind_eq_ok.2 ⟨(), t, hCreate,
        run_bind_eq_ok.2 ⟨out, u, hSteps, run_pure.2 ⟨rfl, rfl⟩⟩⟩⟩
  obtain ⟨count, t, hRun⟩ := hMade
  obtain ⟨path, fault, hFault⟩ | ⟨hResult, -⟩ := run_transform hEntries hRun
  · cases hFault
  · rw [hOut] at hResult
    exact ⟨t, hRun.trans (congrArg (·, t) hResult)⟩

end Jar

end Jarsmith
