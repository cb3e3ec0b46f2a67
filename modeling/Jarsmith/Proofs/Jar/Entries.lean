import Jarsmith.Jar.Transformer
import Jarsmith.Jar.Writer
import Jarsmith.Proofs.Outcome

/-!
# Entries on their way into a jar

A jar is written by steps each of which puts at most one entry behind those that are there. When all
steps succeed, the jar holds what they put there, in their order, and no name twice.

An entry carries its kind and its release along while stages change its data and its name. Both are
always what the name tells, so an entry that is written and read again goes on as it is.

* `Appends` — a step that writes at most one entry; `Appends.foldlM_eq_ok` — steps behind steps.
* `JarEntry.IsConsistent` — an entry carries what its name tells.
* `Transformer.isConsistent_apply`, `Transformer.isConsistent_run` — no stage breaks this.
* `Transformer.written_stored` — stages do to an entry that was written what they do to the entry.
* `Transformer.written_append` — stages behind stages.
-/

namespace Jarsmith.Jar

open Outcome

variable {α : Type} {written out : List ArchiveEntry}

/-- The names of entries. -/
abbrev names (entries : List ArchiveEntry) : List String := entries.map (·.name)

theorem append_eq_ok {e : JarEntry} :
    append written e = .ok out ↔ e.name ∉ names written ∧ written ++ [e.stored] = out := by
  unfold append
  split
  · rename_i hTaken
    rw [List.contains_iff_mem] at hTaken
    exact iff_of_false nofun fun h => h.1 hTaken
  · rename_i hFree
    rw [List.contains_iff_mem] at hFree
    rw [Except.ok.injEq, and_iff_right hFree]

/-- Where `P` holds, the step writes what `g` gives, if its name is not taken. -/
structure Appends (step : List ArchiveEntry → α → Result (List ArchiveEntry)) (P : α → Prop)
    (g : α → Option ArchiveEntry) : Prop where
  eq_ok : ∀ {written a out}, step written a = .ok out ↔
    P a ∧ (∀ o ∈ g a, o.name ∉ names written) ∧ written ++ (g a).toList = out

theorem nodup_names_append {o? : Option ArchiveEntry} (hWritten : (names written).Nodup) :
    (names (written ++ o?.toList)).Nodup ↔ ∀ o ∈ o?, o.name ∉ names written := by
  cases o? with
  | none => simpa using hWritten
  | some o =>
    have hNames : names (written ++ [o]) = names written ++ [o.name] := List.map_append
    have hOne : [o.name].Nodup := by simp
    rw [Option.toList_some, hNames, List.nodup_append, and_iff_right hWritten, and_iff_right hOne]
    constructor
    · rintro h o' ho' hTaken
      obtain rfl := Option.some.inj ho'
      exact h _ hTaken _ (List.mem_singleton_self _) rfl
    · rintro h name hName other hOther rfl
      obtain rfl := List.mem_singleton.1 hOther
      exact h o rfl hName

/-- **Steps behind steps** write what each of them writes, in order, if all of them succeed and no
name comes up twice. -/
theorem Appends.foldlM_eq_ok {step : List ArchiveEntry → α → Result (List ArchiveEntry)}
    {P : α → Prop} {g : α → Option ArchiveEntry} (h : Appends step P g) {items : List α}
    (hWritten : (names written).Nodup) : items.foldlM step written = .ok out ↔
      (∀ a ∈ items, P a) ∧ (names (written ++ items.filterMap g)).Nodup ∧
        written ++ items.filterMap g = out := by
  induction items generalizing written with
  | nil =>
    rw [List.foldlM_nil, pure_ok_iff, List.filterMap_nil, List.append_nil]
    exact ⟨fun hOut => ⟨nofun, hWritten, hOut⟩, fun hOut => hOut.2.2⟩
  | cons a more ih =>
    have hSplit : written ++ (a :: more).filterMap g =
        (written ++ (g a).toList) ++ more.filterMap g := by
      cases hg : g a <;> simp [hg]
    rw [List.foldlM_cons, bind_ok_iff, List.forall_mem_cons, hSplit]
    constructor
    · rintro ⟨mid, hStep, hMore⟩
      obtain ⟨ha, hFree, rfl⟩ := h.eq_ok.1 hStep
      obtain ⟨hAll, hNodup, hOut⟩ := (ih ((nodup_names_append hWritten).2 hFree)).1 hMore
      exact ⟨⟨ha, hAll⟩, hNodup, hOut⟩
    · rintro ⟨⟨ha, hAll⟩, hNodup, hOut⟩
      have hFirst : (names (written ++ (g a).toList)).Nodup := by
        rw [names, List.map_append] at hNodup
        exact (List.nodup_append.1 hNodup).1
      exact ⟨_, h.eq_ok.2 ⟨ha, (nodup_names_append hWritten).1 hFirst, rfl⟩,
        (ih hFirst).2 ⟨hAll, hNodup, hOut⟩⟩

end Jarsmith.Jar

namespace Jarsmith

open Outcome

-- ---------------------------------------------------------------------------
-- What an entry carries
-- ---------------------------------------------------------------------------

namespace JarEntry

variable {e : JarEntry}

/-- The kind and the release are those that the name tells. -/
def IsConsistent (e : JarEntry) : Prop := ofArchive e.toArchiveEntry = e

@[simp] theorem kind_ofArchive {e : ArchiveEntry} : (ofArchive e).kind = e.kind := rfl

theorem isConsistent_ofArchive (e : ArchiveEntry) : (ofArchive e).IsConsistent := rfl

theorem isConsistent_iff :
    e.IsConsistent ↔ e.toArchiveEntry.kind = e.kind ∧ e.toArchiveEntry.release? = e.release := by
  constructor
  · intro h
    exact ⟨congrArg kind h, congrArg release h⟩
  · rintro ⟨hKind, hRelease⟩
    rw [IsConsistent, ofArchive, hKind, hRelease]

/-- Other data under the same name. -/
theorem IsConsistent.withData (h : e.IsConsistent) (data : Bytes) :
    (e.withData data).IsConsistent := by
  obtain ⟨hKind, hRelease⟩ := isConsistent_iff.1 h
  exact isConsistent_iff.2 ⟨hKind, hRelease⟩

@[simp] theorem name_stored : e.stored.name = e.name := by
  unfold stored
  split <;> rfl

/-- An entry that is no directory is read as it was written. -/
theorem ofArchive_stored (h : e.IsConsistent) (hKind : e.kind ≠ .directory) :
    ofArchive e.stored = e := by
  rw [stored, if_neg hKind]
  exact h

/-- A directory is read without its data. -/
theorem ofArchive_stored_directory (h : e.IsConsistent) (hKind : e.kind = .directory) :
    ofArchive e.stored = e.withData [] := by
  rw [stored, if_pos hKind]
  exact h.withData []

theorem stored_withData (hKind : e.kind = .directory) (data : Bytes) :
    (e.withData data).stored = e.stored := by
  have hKind' : (e.withData data).kind = .directory := hKind
  rw [stored, if_pos hKind', stored, if_pos hKind]
  rfl

end JarEntry

namespace Transformer

variable {t : Transformer} {e e' : JarEntry} {stages before after : List Transformer}

-- ---------------------------------------------------------------------------
-- One stage
-- ---------------------------------------------------------------------------

/-- An edited class stands under the same name. -/
theorem editClass_eq_ok {f : ClassFile → ClassResult ClassFile}
    {changed : ClassFile → ClassFile → Bool} (h : editClass f changed e = .ok e') :
    ∃ data, e' = e.withData data := by
  simp only [editClass, bind_ok_iff] at h
  obtain ⟨c, -, edited, -, h⟩ := h
  split at h
  · obtain ⟨data, -, h⟩ := bind_ok_iff.1 h
    exact ⟨data, (pure_ok_iff.1 h).symm⟩
  · exact ⟨e.data, (pure_ok_iff.1 h).symm⟩

/-- So does an entry that is edited only if it is a class with something to edit. -/
theorem editClass_if_eq_ok {P : Prop} [Decidable P] {f : ClassFile → ClassResult ClassFile}
    {changed : ClassFile → ClassFile → Bool}
    (h : (if P then some <$> editClass f changed e else .ok (some e)) = .ok (some e')) :
    ∃ data, e' = e.withData data := by
  split at h
  · obtain ⟨edited, hEdit, hEq⟩ := map_ok_iff.1 h
    exact editClass_eq_ok (Option.some.inj hEq ▸ hEdit)
  · exact ⟨e.data, (Option.some.inj (Except.ok.inj h)).symm⟩

/-- A fixed class stands under the same name. -/
theorem withData_of_fixClass {f : ClassFile → Pool.Edit (Option ClassFile)}
    (h : fixClass f e = .ok e') : ∃ data, e' = e.withData data := by
  simp only [fixClass, bind_ok_iff] at h
  obtain ⟨c, -, fixed, -, h⟩ := h
  cases fixed with
  | none => exact ⟨e.data, (pure_ok_iff.1 h).symm⟩
  | some fixed =>
    obtain ⟨data, -, h⟩ := bind_ok_iff.1 h
    exact ⟨data, (pure_ok_iff.1 h).symm⟩

/-- So does an entry that is fixed only if it is a class. -/
theorem fixClass_if_eq_ok {f : ClassFile → Pool.Edit (Option ClassFile)}
    (h : (if e.kind = .classFile then some <$> fixClass f e else .ok (some e)) = .ok (some e')) :
    ∃ data, e' = e.withData data := by
  split at h
  · obtain ⟨fixed, hFix, hEq⟩ := map_ok_iff.1 h
    exact withData_of_fixClass (Option.some.inj hEq ▸ hFix)
  · exact ⟨e.data, (Option.some.inj (Except.ok.inj h)).symm⟩

/-- A remapped class stands under the same name, or the entry was made anew from the path of its new
name. -/
theorem remapClass_eq_ok {r : Remapper} (h : remapClass r e = .ok e') :
    ∃ data, e' = e.withData data ∨ ∃ name, e' = .ofArchive ⟨e.pathForClass name, e.time, data⟩ := by
  simp only [remapClass, bind_ok_iff] at h
  obtain ⟨c, -, old, -, applied, -, remapped, -, c', -, fixed, -, renamed, -, data, -, h⟩ := h
  refine ⟨data, ?_⟩
  split at h
  · exact .inl (pure_ok_iff.1 h).symm
  · exact .inr ⟨renamed, (pure_ok_iff.1 h).symm⟩

/-- The manifest stays the manifest. -/
theorem exists_remapManifest (r : Remapper) (e : JarEntry) :
    ∃ data, remapManifest r e = e.withData data := by
  unfold remapManifest
  dsimp only
  split
  · exact ⟨_, rfl⟩
  · exact ⟨e.data, rfl⟩

theorem stripSignature_eq_some (h : stripSignature e = some e') : ∃ data, e' = e.withData data := by
  unfold stripSignature at h
  dsimp only at h
  split at h
  · split at h
    · exact ⟨_, (Option.some.inj h).symm⟩
    · exact ⟨e.data, (Option.some.inj h).symm⟩
  · split at h
    · cases h
    · exact ⟨e.data, (Option.some.inj h).symm⟩
  · exact ⟨e.data, (Option.some.inj h).symm⟩

/-- **What one stage does** to an entry that it does not delete: it gives it other data, or makes it
anew under another name. -/
theorem apply_eq_ok (h : t.apply e = .ok (some e')) :
    (∃ data, e' = e.withData data) ∨ ∃ entry, e' = .ofArchive entry := by
  cases t with
  | filter allowed =>
    simp only [apply, Except.ok.injEq] at h
    split at h
    · exact .inl ⟨e.data, (Option.some.inj h).symm⟩
    · cases h
  | stripSignatures => exact .inl (stripSignature_eq_some (Except.ok.inj h))
  | remap r =>
    simp only [apply] at h
    split at h
    · obtain ⟨remapped, hRemap, hEq⟩ := map_ok_iff.1 h
      obtain ⟨data, hData | ⟨name, hNew⟩⟩ := remapClass_eq_ok (Option.some.inj hEq ▸ hRemap)
      · exact .inl ⟨data, hData⟩
      · exact .inr ⟨_, hNew⟩
    · obtain ⟨data, hData⟩ := exists_remapManifest r e
      exact .inl ⟨data, (Option.some.inj (Except.ok.inj h)).symm.trans hData⟩
    · exact .inl ⟨e.data, (Option.some.inj (Except.ok.inj h)).symm⟩
  | fixLocalNames => exact .inl (fixClass_if_eq_ok h)
  | widenAccess w => exact .inl (editClass_if_eq_ok h)
  | fixSourceFile => exact .inl (fixClass_if_eq_ok h)

/-- No stage breaks the bond between the name of an entry and what it carries. -/
theorem isConsistent_apply (he : e.IsConsistent) (h : t.apply e = .ok (some e')) :
    e'.IsConsistent := by
  obtain ⟨data, rfl⟩ | ⟨entry, rfl⟩ := apply_eq_ok h
  · exact he.withData data
  · exact JarEntry.isConsistent_ofArchive entry

/-- Whether a stage lets directories pass. -/
def keepsDirectories : Transformer → Bool
  | filter _ => false
  | _ => true

/-- A directory is deleted or passes as it is. -/
theorem apply_directory (hKind : e.kind = .directory) :
    t.apply e = .ok (if t.keepsDirectories then some e else none) := by
  cases t with
  | filter allowed => simp [apply, passes, hKind, keepsDirectories]
  | stripSignatures => simp [apply, stripSignature, hKind, keepsDirectories]
  | _ => simp [apply, hKind, keepsDirectories]

-- ---------------------------------------------------------------------------
-- Several stages
-- ---------------------------------------------------------------------------

/-- At every time an entry carries what its name tells. -/
theorem isConsistent_run (he : e.IsConsistent) (h : run stages e = .ok (some e')) :
    e'.IsConsistent := by
  induction stages generalizing e with
  | nil =>
    obtain rfl := Option.some.inj (Except.ok.inj h)
    exact he
  | cons t more ih =>
    obtain ⟨next, hApply, hRun⟩ := bind_ok_iff.1 h
    cases next with
    | none => cases hRun
    | some next => exact ih (isConsistent_apply he hApply) hRun

/-- The stages `after` behind the stages `before`. -/
theorem run_append : run (before ++ after) e =
    run before e >>= fun
      | some e => run after e
      | none => pure none := by
  induction before generalizing e with
  | nil => rfl
  | cons t more ih =>
    rw [List.cons_append, run, run, bind_assoc]
    refine congrArg _ (funext fun next => ?_)
    cases next with
    | none => rfl
    | some next => exact ih

theorem run_singleton : run [t] e = t.apply e := by
  rw [run]
  cases t.apply e with
  | error fault => rfl
  | ok o => cases o <;> rfl

theorem run_pair {first second : Transformer} : run [first, second] e =
    first.apply e >>= fun
      | some e => second.apply e
      | none => pure none := by
  rw [run]
  refine bind_congr fun o => ?_
  cases o with
  | none => rfl
  | some e => exact run_singleton

theorem run_directory (hKind : e.kind = .directory) :
    run stages e = .ok (if stages.all keepsDirectories then some e else none) := by
  induction stages with
  | nil => rfl
  | cons t more ih =>
    rw [run, apply_directory hKind, List.all_cons]
    cases t.keepsDirectories with
    | true => exact ih
    | false => rfl

/-- What the stages make of an entry, as it is written; none if they delete it. -/
def written (stages : List Transformer) (e : JarEntry) : ClassResult (Option ArchiveEntry) :=
  Option.map JarEntry.stored <$> run stages e

/-- Stages do to an entry that was written and is read again what they do to the entry itself. -/
theorem written_stored (he : e.IsConsistent) :
    written stages (.ofArchive e.stored) = written stages e := by
  unfold written
  by_cases hKind : e.kind = .directory
  · have hKind' : (e.withData []).kind = .directory := hKind
    rw [JarEntry.ofArchive_stored_directory he hKind, run_directory hKind', run_directory hKind]
    cases stages.all keepsDirectories with
    | true => exact congrArg (Except.ok ∘ some) (JarEntry.stored_withData hKind [])
    | false => rfl
  · rw [JarEntry.ofArchive_stored he hKind]

/-- **Stages behind stages** do what the first ones do, and then the others to the entry that was
written in between. -/
theorem written_append (he : e.IsConsistent) : written (before ++ after) e =
    written before e >>= fun
      | some o => written after (.ofArchive o)
      | none => pure none := by
  rw [written, run_append, written]
  cases hRun : run before e with
  | error fault => rfl
  | ok r =>
    cases r with
    | none => rfl
    | some mid => exact (written_stored (isConsistent_run he hRun)).symm

end Transformer

end Jarsmith
