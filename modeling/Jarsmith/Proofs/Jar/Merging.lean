import Jarsmith.Proofs.Jar.BothSides
import Jarsmith.Proofs.Jar.Entries
import Jarsmith.Proofs.Jar.Replacing
import Mathlib.Data.List.Forall2

/-!
# Merging two jars

Every entry of the client comes out in its order, and behind them those that only the server has. A
class of both sides comes out marked, anything else as the client has it. Two jars cannot be merged
if something that both have differs or is a class that cannot be marked; the first such entry of the
client is the one that is reported.

* `Jar.CanMerge`, `Jar.FaultOf` — whether and why an entry of both sides cannot be merged.
* `Jar.MergedAs`, `Jar.Merged` — what comes out for an entry of the client, and for two jars.
* `Jar.FirstFault` — the first entry of the client that cannot be merged, and why.
* `Jar.mergeEntries_eq_ok`, `Jar.mergeEntries_eq_error` — when two jars can be merged, and the fault
  that is reported if they cannot.
* `Jar.merge_spec` — merging as a whole.
-/

namespace Jarsmith.Jar

open Outcome

variable {client : String} {ours theirs out before after : List ArchiveEntry}
  {e o other : ArchiveEntry} {err : Error}

-- ---------------------------------------------------------------------------
-- One entry of both sides
-- ---------------------------------------------------------------------------

/-- An entry of the client and that of the server with its name can be merged. -/
inductive CanMerge (e other : ArchiveEntry) : Prop
  | kept (kind : e.kind = .manifest ∨ e.kind = .directory)
  | resource (kind : e.kind = .resource) (same : e.data = other.data)
  | classFile (c : ClassFile) (kind : e.kind = .classFile) (same : e.data = other.data)
      (read : ClassFile.parse e.data = .ok c) (canMark : c.CanMark)

/-- Why two entries of one name cannot be merged. -/
inductive FaultOf (client : String) (e other : ArchiveEntry) : Error → Prop
  | differs (kind : e.kind = .classFile ∨ e.kind = .resource) (differ : e.data ≠ other.data) :
      FaultOf client e other (.ambiguousMerge e.name)
  | malformed (fault : ClassFault) (kind : e.kind = .classFile) (same : e.data = other.data)
      (failed : markEntry (.ofArchive e) = .error fault) :
      FaultOf client e other (.malformedClass e.name client fault)

/-- What comes out for an entry of the client: a class of both sides with the marker, anything else
as it is. -/
inductive MergedAs (theirs : List ArchiveEntry) (e o : ArchiveEntry) : Prop
  | alone (alone : e.name ∉ names theirs) (same : o = (JarEntry.ofArchive e).stored)
  | shared (shared : e.name ∈ names theirs) (kind : e.kind ≠ .classFile)
      (same : o = (JarEntry.ofArchive e).stored)
  | marked (shared : e.name ∈ names theirs) (kind : e.kind = .classFile) (c m : ClassFile)
      (read : ClassFile.parse e.data = .ok c) (written : ClassFile.parse o.data = .ok m)
      (marked : c.Marked m) (name : o.name = e.name) (time : o.time = e.time)

theorem mergeEntry_kept (kind : e.kind = .manifest ∨ e.kind = .directory) :
    mergeEntry client (.ofArchive e) other.data = .ok (.ofArchive e) := by
  rw [mergeEntry, JarEntry.kind_ofArchive]
  rcases kind with h | h <;> rw [h]

theorem mergeEntry_differs (kind : e.kind = .classFile ∨ e.kind = .resource)
    (differ : e.data ≠ other.data) :
    mergeEntry client (.ofArchive e) other.data = .error (.ambiguousMerge e.name) := by
  rw [mergeEntry, JarEntry.kind_ofArchive]
  rcases kind with h | h <;> rw [h] <;> exact if_pos differ

theorem mergeEntry_resource (kind : e.kind = .resource) (same : e.data = other.data) :
    mergeEntry client (.ofArchive e) other.data = .ok (.ofArchive e) := by
  rw [mergeEntry, JarEntry.kind_ofArchive, kind]
  exact if_neg (not_not.2 same)

theorem mergeEntry_classFile (kind : e.kind = .classFile) (same : e.data = other.data) :
    mergeEntry client (.ofArchive e) other.data =
      (markEntry (.ofArchive e)).mapError (.malformedClass e.name client) := by
  rw [mergeEntry, JarEntry.kind_ofArchive, kind]
  exact if_neg (not_not.2 same)

/-- What an entry of both sides becomes: a class is marked, anything else stays. -/
theorem CanMerge.mergeEntry_eq_ok (client : String) (h : CanMerge e other) :
    ∃ e', mergeEntry client (.ofArchive e) other.data = .ok e' ∧ e'.name = e.name ∧
      (e.kind ≠ .classFile ∧ e' = .ofArchive e ∨
        e.kind = .classFile ∧ markEntry (.ofArchive e) = .ok e') := by
  cases h with
  | kept kind =>
    refine ⟨_, mergeEntry_kept kind, rfl, .inl ⟨?_, rfl⟩⟩
    rcases kind with h | h <;> rw [h] <;> nofun
  | resource kind same =>
    exact ⟨_, mergeEntry_resource kind same, rfl, .inl ⟨by rw [kind]; nofun, rfl⟩⟩
  | classFile c kind same read canMark =>
    obtain ⟨e', hMark⟩ := (exists_markEntry (e := .ofArchive e)).2 ⟨c, read, canMark⟩
    have hName : e'.name = e.name := by
      obtain ⟨c, m, written, -, -, -, rfl⟩ := marked_of_markEntry hMark
      rfl
    exact ⟨e', by rw [mergeEntry_classFile kind same, hMark]; rfl, hName, .inr ⟨kind, hMark⟩⟩

theorem FaultOf.mergeEntry_eq_error (h : FaultOf client e other err) :
    mergeEntry client (.ofArchive e) other.data = .error err := by
  cases h with
  | differs kind differ => exact mergeEntry_differs kind differ
  | malformed fault kind same failed => rw [mergeEntry_classFile kind same, failed]; rfl

/-- Two entries of one name can be merged, or there is a reason why not. -/
theorem canMerge_or_faultOf (client : String) (e other : ArchiveEntry) :
    CanMerge e other ∨ ∃ err, FaultOf client e other err := by
  by_cases hSame : e.data = other.data
  · cases hKind : e.kind with
    | manifest => exact .inl (.kept (.inl hKind))
    | directory => exact .inl (.kept (.inr hKind))
    | resource => exact .inl (.resource hKind hSame)
    | classFile =>
      cases hMark : markEntry (.ofArchive e) with
      | ok e' =>
        obtain ⟨c, hRead, hCan⟩ := exists_markEntry.1 ⟨e', hMark⟩
        exact .inl (.classFile c hKind hSame hRead hCan)
      | error fault => exact .inr ⟨_, .malformed fault hKind hSame hMark⟩
  · cases hKind : e.kind with
    | manifest => exact .inl (.kept (.inl hKind))
    | directory => exact .inl (.kept (.inr hKind))
    | resource => exact .inr ⟨_, .differs (.inr hKind) hSame⟩
    | classFile => exact .inr ⟨_, .differs (.inl hKind) hSame⟩

theorem FaultOf.not_canMerge (h : FaultOf client e other err) : ¬ CanMerge e other := fun hCan => by
  obtain ⟨e', hOk, -⟩ := hCan.mergeEntry_eq_ok client
  exact nomatch h.mergeEntry_eq_error.symm.trans hOk

-- ---------------------------------------------------------------------------
-- The entries of the client
-- ---------------------------------------------------------------------------

theorem named?_eq_none {name : String} : named? theirs name = none ↔ name ∉ names theirs := by
  simp [named?, List.find?_eq_none]

/-- In a jar without a name twice, an entry is found under its name. -/
theorem named?_eq_some (hTheirs : (names theirs).Nodup) {name : String} :
    named? theirs name = some other ↔ other ∈ theirs ∧ other.name = name := by
  constructor
  · intro h
    exact ⟨List.mem_of_find?_eq_some h, by simpa using List.find?_some h⟩
  · rintro ⟨hMem, rfl⟩
    cases hFound : named? theirs other.name with
    | none => exact absurd (List.mem_map_of_mem hMem) (named?_eq_none.1 hFound)
    | some found =>
      have hName : found.name = other.name := by simpa using List.find?_some hFound
      rw [List.inj_on_of_nodup_map hTheirs (List.mem_of_find?_eq_some hFound) hMem hName]

/-- An entry of the client can be merged with that of the server, if there is one. -/
def Mergeable (theirs : List ArchiveEntry) (e : ArchiveEntry) : Prop :=
  ∀ other ∈ theirs, other.name = e.name → CanMerge e other

theorem mergeable_of_alone (h : named? theirs e.name = none) : Mergeable theirs e :=
  fun _ hMem hName => absurd (hName ▸ List.mem_map_of_mem hMem) (named?_eq_none.1 h)

theorem mergeable_iff (hTheirs : (names theirs).Nodup) (h : named? theirs e.name = some other) :
    Mergeable theirs e ↔ CanMerge e other := by
  obtain ⟨hMem, hName⟩ := (named?_eq_some hTheirs).1 h
  refine ⟨fun hAll => hAll other hMem hName, fun hCan found hFound hSame => ?_⟩
  obtain rfl := List.inj_on_of_nodup_map hTheirs hFound hMem (hSame.trans hName.symm)
  exact hCan

/-- What is written for an entry of the client. -/
def merged? (client : String) (theirs : List ArchiveEntry) (e : ArchiveEntry) :
    Option ArchiveEntry :=
  match named? theirs e.name with
  | none => some (JarEntry.ofArchive e).stored
  | some other => (mergeEntry client (.ofArchive e) other.data).toOption.map JarEntry.stored

theorem appends_clientStep (hTheirs : (names theirs).Nodup) :
    Appends (clientStep client theirs) (Mergeable theirs) (merged? client theirs) where
  eq_ok {written e out} := by
    unfold clientStep merged?
    cases hFound : named? theirs e.name with
    | none => simp [append_eq_ok, JarEntry.ofArchive, mergeable_of_alone hFound]
    | some other =>
      rw [mergeable_iff hTheirs hFound]
      simp only [bind_ok_iff]
      obtain hCan | ⟨err, hFault⟩ := canMerge_or_faultOf client e other
      · obtain ⟨e', hMerge, -⟩ := hCan.mergeEntry_eq_ok client
        rw [hMerge]
        simp [hCan, append_eq_ok, Except.toOption]
      · rw [hFault.mergeEntry_eq_error]
        exact iff_of_false (fun ⟨_, h, _⟩ => nomatch h) fun h => hFault.not_canMerge h.1

/-- What is written for an entry of the client that can be merged. -/
theorem exists_merged? (client : String) (h : Mergeable theirs e) :
    ∃ o, merged? client theirs e = some o ∧ o.name = e.name ∧ MergedAs theirs e o := by
  unfold merged?
  cases hFound : named? theirs e.name with
  | none => exact ⟨_, rfl, JarEntry.name_stored, .alone (named?_eq_none.1 hFound) rfl⟩
  | some other =>
    have hMem : other ∈ theirs := List.mem_of_find?_eq_some hFound
    have hSame : other.name = e.name := by simpa using List.find?_some hFound
    have hShared : e.name ∈ names theirs := hSame ▸ List.mem_map_of_mem hMem
    obtain ⟨e', hMerge, hName, hCase⟩ := (h other hMem hSame).mergeEntry_eq_ok client
    refine ⟨e'.stored, ?_, JarEntry.name_stored.trans hName, ?_⟩
    · dsimp only
      rw [hMerge]
      rfl
    obtain ⟨hKind, rfl⟩ | ⟨hKind, hMark⟩ := hCase
    · exact .shared hShared hKind rfl
    · obtain ⟨c, m, written, hRead, hWritten, hMarked, rfl⟩ := marked_of_markEntry hMark
      have hStored : ((JarEntry.ofArchive e).withData written).stored =
          { e with data := written } := by
        have hNot : ((JarEntry.ofArchive e).withData written).kind ≠ .directory := by
          show e.kind ≠ _
          rw [hKind]
          nofun
        rw [JarEntry.stored, if_neg hNot]
        rfl
      rw [hStored]
      exact .marked hShared hKind c m hRead hWritten hMarked rfl rfl

/-- What is written for the client: one entry for each of its entries, under the same name. -/
theorem merged?_of_mergeable (client : String) (h : ∀ e ∈ ours, Mergeable theirs e) :
    names (ours.filterMap (merged? client theirs)) = names ours ∧
      List.Forall₂ (MergedAs theirs) ours (ours.filterMap (merged? client theirs)) := by
  induction ours with
  | nil => exact ⟨rfl, .nil⟩
  | cons e more ih =>
    obtain ⟨he, hMore⟩ := List.forall_mem_cons.1 h
    obtain ⟨o, ho, hName, hMerged⟩ := exists_merged? client he
    obtain ⟨hNames, hAll⟩ := ih hMore
    rw [List.filterMap_cons_some ho]
    exact ⟨congrArg₂ List.cons hName hNames, .cons hMerged hAll⟩

/-- The entries of the client are written if all of them can be merged. -/
theorem foldlM_clientStep (client : String) (hOurs : (names ours).Nodup)
    (hTheirs : (names theirs).Nodup) (h : ∀ e ∈ ours, Mergeable theirs e) :
    ours.foldlM (clientStep client theirs) [] = .ok (ours.filterMap (merged? client theirs)) := by
  have hNone : (names []).Nodup := List.nodup_nil
  refine ((appends_clientStep hTheirs).foldlM_eq_ok hNone).2 ⟨h, ?_, rfl⟩
  rw [List.nil_append, (merged?_of_mergeable client h).1]
  exact hOurs

-- ---------------------------------------------------------------------------
-- The entries of the server
-- ---------------------------------------------------------------------------

/-- What is written for an entry of the server: nothing if the client has its name. -/
def serverOnly? (ours : List ArchiveEntry) (e : ArchiveEntry) : Option ArchiveEntry :=
  if e.name ∈ names ours then none else some (JarEntry.ofArchive e).stored

/-- The entries whose names the client does not have. -/
def serverOnly (ours theirs : List ArchiveEntry) : List ArchiveEntry :=
  theirs.filter fun e => e.name ∉ names ours

theorem appends_serverStep : Appends (serverStep ours) (fun _ => True) (serverOnly? ours) where
  eq_ok {written e out} := by
    unfold serverStep serverOnly?
    by_cases hName : e.name ∈ names ours
    · have hContains : (ours.map (·.name)).contains e.name = true := List.contains_iff_mem.2 hName
      rw [if_pos hContains, if_pos hName]
      simp
    · have hContains : ¬ (ours.map (·.name)).contains e.name = true :=
        fun h => hName (List.contains_iff_mem.1 h)
      rw [if_neg hContains, if_neg hName]
      simp [append_eq_ok, JarEntry.ofArchive]

theorem filterMap_serverOnly? : theirs.filterMap (serverOnly? ours) =
    (serverOnly ours theirs).map fun e => (JarEntry.ofArchive e).stored := by
  induction theirs with
  | nil => rfl
  | cons e more ih =>
    unfold serverOnly at ih ⊢
    by_cases hName : e.name ∈ names ours
    · rw [List.filterMap_cons_none (by rw [serverOnly?, if_pos hName]), ih,
        List.filter_cons_of_neg (by simpa using hName)]
    · rw [List.filterMap_cons_some (by rw [serverOnly?, if_neg hName]), ih,
        List.filter_cons_of_pos (by simpa using hName), List.map_cons]

theorem names_serverOnly : names ((serverOnly ours theirs).map fun e =>
    (JarEntry.ofArchive e).stored) = (names theirs).filter fun name => name ∉ names ours := by
  rw [names, List.map_map, serverOnly, List.filter_map]
  refine List.map_congr_left fun e _ => ?_
  exact JarEntry.name_stored

theorem nodup_merged (hOurs : (names ours).Nodup) (hTheirs : (names theirs).Nodup) :
    (names ours ++ (names theirs).filter fun name => name ∉ names ours).Nodup := by
  refine List.nodup_append.2 ⟨hOurs, hTheirs.filter _, fun name hName other hOther => ?_⟩
  rintro rfl
  have hNot := (List.mem_filter.1 hOther).2
  exact of_decide_eq_true hNot hName

-- ---------------------------------------------------------------------------
-- Two jars
-- ---------------------------------------------------------------------------

/-- The first entry of the client that cannot be merged, and why. -/
def FirstFault (client : String) (ours theirs : List ArchiveEntry) (err : Error) : Prop :=
  ∃ before e after, ours = before ++ e :: after ∧ (∀ b ∈ before, Mergeable theirs b) ∧
    ∃ other ∈ theirs, other.name = e.name ∧ FaultOf client e other err

/-- All entries of the client can be merged, or there is a first one that cannot. -/
theorem mergeable_or_firstFault (client : String) (ours : List ArchiveEntry)
    (hTheirs : (names theirs).Nodup) :
    (∀ e ∈ ours, Mergeable theirs e) ∨ ∃ err, FirstFault client ours theirs err := by
  induction ours with
  | nil => exact .inl nofun
  | cons e more ih =>
    by_cases he : Mergeable theirs e
    · obtain hMore | ⟨err, before, b, after, rfl, hBefore, hFault⟩ := ih
      · exact .inl (List.forall_mem_cons.2 ⟨he, hMore⟩)
      · exact .inr ⟨err, e :: before, b, after, rfl, List.forall_mem_cons.2 ⟨he, hBefore⟩, hFault⟩
    · cases hFound : named? theirs e.name with
      | none => exact absurd (mergeable_of_alone hFound) he
      | some other =>
        rw [mergeable_iff hTheirs hFound] at he
        obtain ⟨hMem, hName⟩ := (named?_eq_some hTheirs).1 hFound
        obtain ⟨err, hFault⟩ := (canMerge_or_faultOf client e other).resolve_left he
        exact .inr ⟨err, [], e, more, rfl, nofun, other, hMem, hName, hFault⟩

/-- The entries of the merged jar. -/
theorem mergeEntries_of_mergeable (client : String) (hOurs : (names ours).Nodup)
    (hTheirs : (names theirs).Nodup) (h : ∀ e ∈ ours, Mergeable theirs e) :
    mergeEntries client ours theirs = .ok (ours.filterMap (merged? client theirs) ++
      (serverOnly ours theirs).map fun e => (JarEntry.ofArchive e).stored) := by
  have hFront := (merged?_of_mergeable client h).1
  refine bind_ok_iff.2 ⟨_, foldlM_clientStep client hOurs hTheirs h, ?_⟩
  rw [← filterMap_serverOnly?]
  refine (appends_serverStep.foldlM_eq_ok (by rw [hFront]; exact hOurs)).2
    ⟨fun _ _ => trivial, ?_, rfl⟩
  rw [filterMap_serverOnly?, names, List.map_append]
  exact (congrArg₂ (· ++ ·) hFront names_serverOnly) ▸ nodup_merged hOurs hTheirs

/-- The fault of the first entry that cannot be merged is reported. -/
theorem mergeEntries_of_firstFault (hOurs : (names ours).Nodup) (hTheirs : (names theirs).Nodup)
    (h : FirstFault client ours theirs err) : mergeEntries client ours theirs = .error err := by
  obtain ⟨before, e, after, rfl, hBefore, other, hMem, hName, hFault⟩ := h
  have hFront : (names before).Nodup := by
    rw [names, List.map_append] at hOurs
    exact (List.nodup_append.1 hOurs).1
  have hStep : ∀ written, clientStep client theirs written e = .error err := fun written => by
    rw [clientStep, (named?_eq_some hTheirs).2 ⟨hMem, hName⟩]
    exact bind_error_iff.2 (.inl hFault.mergeEntry_eq_error)
  refine bind_error_iff.2 (.inl ?_)
  rw [List.foldlM_append, foldlM_clientStep client hFront hTheirs hBefore]
  refine bind_error_iff.2 (.inr ⟨_, rfl, ?_⟩)
  rw [List.foldlM_cons]
  exact bind_error_iff.2 (.inl (hStep _))

/-- Two jars can be merged if and only if all entries of the client can be. -/
theorem mergeEntries_eq_ok (hOurs : (names ours).Nodup) (hTheirs : (names theirs).Nodup) :
    mergeEntries client ours theirs = .ok out ↔ (∀ e ∈ ours, Mergeable theirs e) ∧
      ours.filterMap (merged? client theirs) ++
        (serverOnly ours theirs).map (fun e => (JarEntry.ofArchive e).stored) = out := by
  obtain hAll | ⟨err, hFault⟩ := mergeable_or_firstFault client ours hTheirs
  · rw [mergeEntries_of_mergeable client hOurs hTheirs hAll, Except.ok.injEq, and_iff_right hAll]
  · refine iff_of_false ?_ fun ⟨hAll, _⟩ => ?_
    · rw [mergeEntries_of_firstFault hOurs hTheirs hFault]
      nofun
    · exact nomatch (mergeEntries_of_firstFault hOurs hTheirs hFault).symm.trans
        (mergeEntries_of_mergeable client hOurs hTheirs hAll)

/-- The error of two jars that cannot be merged is the fault of the first entry that cannot be. -/
theorem mergeEntries_eq_error (hOurs : (names ours).Nodup) (hTheirs : (names theirs).Nodup) :
    mergeEntries client ours theirs = .error err ↔ FirstFault client ours theirs err := by
  refine ⟨fun h => ?_, mergeEntries_of_firstFault hOurs hTheirs⟩
  obtain hAll | ⟨other, hFault⟩ := mergeable_or_firstFault client ours hTheirs
  · exact nomatch h.symm.trans (mergeEntries_of_mergeable client hOurs hTheirs hAll)
  · obtain rfl := Except.error.inj (h.symm.trans (mergeEntries_of_firstFault hOurs hTheirs hFault))
    exact hFault

/-- The names of `out` are those of the client in its order, then those that only the server has.
Its entries are those of the client, marked where they are classes of both sides, then the others of
the server. -/
structure Merged (ours theirs out : List ArchiveEntry) : Prop where
  entries : ∃ front, List.Forall₂ (MergedAs theirs) ours front ∧
    out = front ++ (serverOnly ours theirs).map fun e => (JarEntry.ofArchive e).stored
  names : names out = names ours ++ (names theirs).filter fun name => name ∉ names ours
  union : ∀ name, name ∈ Jar.names out ↔ name ∈ Jar.names ours ∨ name ∈ Jar.names theirs
  once : (Jar.names out).Nodup

theorem merged_of_mergeEntries (hOurs : (names ours).Nodup) (hTheirs : (names theirs).Nodup)
    (h : mergeEntries client ours theirs = .ok out) : Merged ours theirs out := by
  obtain ⟨hAll, rfl⟩ := (mergeEntries_eq_ok hOurs hTheirs).1 h
  obtain ⟨hFront, hMerged⟩ := merged?_of_mergeable client hAll
  have hNames : names (ours.filterMap (merged? client theirs) ++
      (serverOnly ours theirs).map fun e => (JarEntry.ofArchive e).stored) =
        names ours ++ (names theirs).filter fun name => name ∉ names ours := by
    rw [names, List.map_append]
    exact congrArg₂ (· ++ ·) hFront names_serverOnly
  refine ⟨⟨_, hMerged, rfl⟩, hNames, fun name => ?_, hNames ▸ nodup_merged hOurs hTheirs⟩
  rw [hNames, List.mem_append, List.mem_filter, decide_eq_true_iff]
  tauto

theorem shared_add_clientOnly :
    (mergeCounts ours theirs).shared + (mergeCounts ours theirs).clientOnly = ours.length := by
  rw [List.length_eq_countP_add_countP fun e : ArchiveEntry => (named? theirs e.name).isSome]
  refine congrArg (_ + ·) (List.countP_congr fun e _ => ?_)
  cases named? theirs e.name <;> simp

theorem shared_eq : (mergeCounts ours theirs).shared =
    (ours.filter fun e => e.name ∈ names theirs).length := by
  show ours.countP _ = _
  rw [List.countP_eq_length_filter]
  refine congrArg List.length (List.filter_congr fun e _ => ?_)
  rw [Bool.eq_iff_iff, decide_eq_true_iff, Option.isSome_iff_ne_none, Ne, named?_eq_none, not_not]

theorem serverOnly_eq : (mergeCounts ours theirs).serverOnly = (serverOnly ours theirs).length := by
  show theirs.countP _ = _
  rw [List.countP_eq_length_filter, serverOnly]
  refine congrArg List.length (List.filter_congr fun e _ => ?_)
  rw [Bool.eq_iff_iff, Bool.not_eq_true', decide_eq_true_iff, ← Bool.not_eq_true,
    List.contains_iff_mem]

/-- Merging two files is merging their entries, unless there is a fault of the files. -/
theorem run_merge {y : System} {s t : Store} {server target : String} {r : Result MergeCounts}
    (hOurs : s.entriesAt? client = some ours) (hTheirs : s.entriesAt? server = some theirs)
    (h : (mergeOn y client server target).run.run s = (r, t)) :
    (∃ path fault, r = .error (.file path fault)) ∨
      r = (mergeEntries client ours theirs).map (fun _ => mergeCounts ours theirs) ∧
        ∀ out, mergeEntries client ours theirs = .ok out →
          t.content target = .ok (y.archive out) := by
  cases r with
  | error e =>
    obtain ⟨path, fault, rfl⟩ | hMerge := error_of_merge hOurs hTheirs h
    · exact .inl ⟨path, fault, rfl⟩
    · rw [hMerge]
      exact .inr ⟨rfl, nofun⟩
  | ok counts =>
    obtain ⟨place, written, hWritten, hTarget, hNode, -⟩ := allOrNothing_merge.succeeded h
    obtain ⟨ours', hOurs', theirs', hTheirs', hMerge, hCounts⟩ := hWritten
    obtain rfl := Option.some.inj (hOurs.symm.trans hOurs')
    obtain rfl := Option.some.inj (hTheirs.symm.trans hTheirs')
    rw [hMerge, hCounts]
    refine .inr ⟨rfl, fun out hOut => ?_⟩
    obtain rfl := Except.ok.inj hOut
    exact Store.content_eq_ok.2 ⟨place, hTarget, hNode⟩

/-- **Merging two jars**, for all jars without a name twice: when it succeeds, what comes out, how
the entries are counted, which fault is reported, and that the files hold just that. -/
theorem merge_spec (client : String) (hOurs : (names ours).Nodup) (hTheirs : (names theirs).Nodup) :
    ((∃ out, mergeEntries client ours theirs = .ok out) ↔
      ∀ e ∈ ours, ∀ other ∈ theirs, other.name = e.name → CanMerge e other) ∧
    (∀ out, mergeEntries client ours theirs = .ok out → Merged ours theirs out) ∧
    (∀ err, mergeEntries client ours theirs = .error err ↔ FirstFault client ours theirs err) ∧
    ((mergeCounts ours theirs).shared + (mergeCounts ours theirs).clientOnly = ours.length ∧
      (mergeCounts ours theirs).shared = (ours.filter fun e => e.name ∈ names theirs).length ∧
      (mergeCounts ours theirs).serverOnly = (serverOnly ours theirs).length) ∧
    ∀ y s server target r t, s.entriesAt? client = some ours → s.entriesAt? server = some theirs →
      (mergeOn y client server target).run.run s = (r, t) →
        (∃ path fault, r = .error (.file path fault)) ∨
          r = (mergeEntries client ours theirs).map (fun _ => mergeCounts ours theirs) ∧
            ∀ out, mergeEntries client ours theirs = .ok out →
              t.content target = .ok (y.archive out) :=
  ⟨⟨fun ⟨_, h⟩ => ((mergeEntries_eq_ok hOurs hTheirs).1 h).1,
      fun h => ⟨_, (mergeEntries_eq_ok hOurs hTheirs).2 ⟨h, rfl⟩⟩⟩,
    fun _ => merged_of_mergeEntries hOurs hTheirs,
    fun _ => mergeEntries_eq_error hOurs hTheirs,
    ⟨shared_add_clientOnly, shared_eq, serverOnly_eq⟩,
    fun _ _ _ _ _ _ hClient hServer h => run_merge hClient hServer h⟩

/-- A class without members, with its attributes and their number. -/
def emptyClass (attributes : Bytes) : Bytes :=
  [0xca, 0xfe, 0xba, 0xbe, 0, 0, 0, 0x3d, 0, 3, 1, 0, 1, 0x61, 7, 0, 1, 0, 0x21, 0, 2, 0, 0, 0, 0,
    0, 0, 0, 0] ++ attributes

/-- A class entry of both sides whose class has no attributes. -/
def plainEntry : ArchiveEntry := ⟨"a.class", none, emptyClass [0, 0]⟩

/-- A client with a manifest, a directory and a class. -/
def clientEntries : List ArchiveEntry :=
  [⟨"META-INF/MANIFEST.MF", none, [1]⟩, ⟨"a/", none, [2]⟩, plainEntry]

/-- A server with the same class, a file and another manifest. -/
def serverEntries : List ArchiveEntry :=
  [plainEntry, ⟨"b.txt", none, [3]⟩, ⟨"META-INF/MANIFEST.MF", none, [4]⟩]

theorem canMerge_plainEntry : CanMerge plainEntry plainEntry := by
  have hRead : (ClassFile.parse plainEntry.data).map (fun c => (c.attributes, c.pool.entries)) =
      .ok ([], #[.unusable, .utf8 [0x61], .classRef 1]) := by decide +kernel
  obtain ⟨c, hParse, hc⟩ := map_ok_iff.1 hRead
  obtain ⟨hAttributes, hEntries⟩ := Prod.mk.inj hc
  refine .classFile c (by decide) rfl hParse (.first ?_ ?_ ?_)
  · rw [ClassFile.Unannotated, hAttributes]
    nofun
  · rw [hAttributes]
    decide
  · simp only [Pool.size, Pool.lacking, Pool.Holds, hEntries]
    decide +kernel

theorem merge_spec_manifestAndClass : (names clientEntries).Nodup ∧ (names serverEntries).Nodup ∧
    mergeCounts clientEntries serverEntries = ⟨2, 1, 1⟩ ∧
    ∃ out, mergeEntries "client.jar" clientEntries serverEntries = .ok out ∧
      names out = ["META-INF/MANIFEST.MF", "a/", "a.class", "b.txt"] := by
  have hOurs : (names clientEntries).Nodup := by decide
  have hTheirs : (names serverEntries).Nodup := by decide
  have hSpec := merge_spec "client.jar" hOurs hTheirs
  have hAll : ∀ e ∈ clientEntries, ∀ other ∈ serverEntries, other.name = e.name →
      CanMerge e other := by
    intro e he other hOther hName
    simp only [clientEntries, serverEntries, List.mem_cons, List.not_mem_nil, or_false] at he hOther
    obtain rfl | rfl | rfl := he
    · exact .kept (.inl (by decide))
    · exact .kept (.inr (by decide))
    · obtain rfl | rfl | rfl := hOther
      · exact canMerge_plainEntry
      · exact absurd hName (by decide)
      · exact absurd hName (by decide)
  obtain ⟨out, hOut⟩ := hSpec.1.2 hAll
  exact ⟨hOurs, hTheirs, by decide, out, hOut, (hSpec.2.1 out hOut).names.trans (by decide)⟩

/-- A class entry of both sides whose only attribute is named by a class constant. -/
def unnamedEntry : ArchiveEntry := ⟨"a.class", none, emptyClass [0, 1, 0, 2, 0, 0, 0, 0]⟩

/-- A class of both sides can be read and has room for the marker, but the names of its attributes
cannot be read; and the data of a directory are lost. -/
theorem mergeEntries_unnamedEntry :
    (unnamedEntry.kind = .classFile ∧
      (∃ c, ClassFile.parse unnamedEntry.data = .ok c ∧ c.pool.size + 2 < 65536 ∧
        c.attributes.length + 1 < 65536 ∧
        ∀ a ∈ c.attributes, c.pool.text a.name ≠ .ok AttributeName.invisibleAnnotations) ∧
      ∀ out, mergeEntries "client.jar" [unnamedEntry] [unnamedEntry] ≠ .ok out) ∧
    mergeEntries "client.jar" [⟨"a/", none, [1]⟩] [] = .ok [⟨"a/", none, []⟩] := by
  have hRead : (ClassFile.parse unnamedEntry.data).map (fun c => (c.attributes, c.pool.entries)) =
      .ok ([⟨2, []⟩], #[.unusable, .utf8 [0x61], .classRef 1]) := by decide +kernel
  obtain ⟨c, hParse, hc⟩ := map_ok_iff.1 hRead
  obtain ⟨hAttributes, hEntries⟩ := Prod.mk.inj hc
  have hName : ∀ raw, c.pool.find? 2 ≠ some (.utf8 raw) := by
    simp [Pool.find?, hEntries]
  refine ⟨⟨by decide, ⟨c, hParse, ?_, ?_, ?_⟩, fun out hOut => ?_⟩, by rfl⟩
  · rw [Pool.size, hEntries]
    decide
  · rw [hAttributes]
    decide
  · rw [hAttributes, List.forall_mem_singleton]
    intro hText
    obtain ⟨raw, hRaw, -⟩ := Pool.text_eq_ok.1 hText
    exact hName raw hRaw
  · have hNodup : (names [unnamedEntry]).Nodup := by decide
    have hCan := ((mergeEntries_eq_ok hNodup hNodup).1 hOut).1 _ (List.mem_singleton_self _) _
      (List.mem_singleton_self _) rfl
    cases hCan with
    | kept kind => exact absurd kind (by decide)
    | resource kind => exact absurd kind (by decide)
    | classFile other kind same read canMark =>
      obtain rfl := Except.ok.inj (hParse.symm.trans read)
      exact ClassFile.not_canMark_of_unnamed hAttributes hName canMark

end Jarsmith.Jar
