import Jarsmith.Proofs.Jar.ClassPaths
import Jarsmith.Proofs.Jar.Passes
import Jarsmith.Proofs.Jar.PlainClass
import Jarsmith.Proofs.Jar.Replacing
import Jarsmith.Proofs.Jar.Rereading
import Jarsmith.Proofs.Remap.WayBack

/-!
# Jars of renamed classes

Renaming the classes of a jar neither loses an entry nor brings two entries to one path, as long as
every class stands at the path of its name, different classes get different names, and no new name
leads into a release.

* `Transformer.exists_of_remapClass` — the entry of a renamed class.
* `EntryRenamed` — what has become of an entry; `Transformer.exists_entryRenamed` says that one
  entry comes out, and `RenamesApart.name_ne` that two of them stay apart.
* `Jar.transform_remap` — what becomes of a jar.
* `Jar.not_transform_remap` — paths that meet although names are apart.
* `pathForClass_className` — which classes come back to their paths.
-/

namespace Jarsmith

open Outcome

-- ---------------------------------------------------------------------------
-- One class
-- ---------------------------------------------------------------------------

namespace ClassFile

variable {c c' d : ClassFile} {r : Remapper} {n : String} {bytes written : Bytes}

/-- A renamed class has the new name of the class that it was made of. -/
theorem name_of_apply (hParse : parse bytes = .ok c) (hName : c.name = .ok n)
    (hApply : r.apply c = .ok c') : c'.name = .ok (Descriptor.renameInternal r.className n) := by
  obtain ⟨_, _, -, -, hRenamed⟩ := classRenamed_of_apply (decode_of_parse hParse) hApply
  obtain ⟨text, hSlot, -⟩ := Pool.className_eq_ok.1 hName
  obtain ⟨n', hOld, hNew⟩ := hRenamed.constants _ _ hSlot
  obtain rfl := Except.ok.inj (hName.symm.trans hOld)
  rw [name, hRenamed.thisClass]
  exact hNew

/-- It is read again under its new name. -/
theorem name_of_parse_apply (hParse : parse bytes = .ok c) (hName : c.name = .ok n)
    (hApply : r.apply c = .ok c') (hWritten : c'.toBytes = .ok written)
    (hAgain : parse written = .ok d) :
    d.name = .ok (Descriptor.renameInternal r.className n) := by
  obtain ⟨hEntries, hEq⟩ := eq_of_parse_apply hParse hApply hWritten hAgain
  rw [← name_of_apply hParse hName hApply, name, Pool.className_of_entries hEntries, hEq]
  rfl

end ClassFile

namespace Transformer

open ClassFile

variable {r : Remapper} {e e' : JarEntry}

/-- **The entry of a renamed class**: its bytes are read as a class with the new name. -/
theorem exists_of_remapClass (h : remapClass r e = .ok e') :
    ∃ c d n data, parse e.data = .ok c ∧ c.name = .ok n ∧ parse data = .ok d ∧
      d.name = .ok (Descriptor.renameInternal r.className n) ∧
        e' = moved e n (Descriptor.renameInternal r.className n) data := by
  obtain ⟨c, n, remapped, d, new, o, data, hRemapped, hFix, hData, rfl⟩ := remapClass_iff.1 h
  obtain ⟨hParse, hName, ⟨c', hApply, hBytes⟩, hAgain, hNew⟩ := hRemapped
  obtain rfl := Except.ok.inj
    (hNew.symm.trans (name_of_parse_apply hParse hName hApply hBytes hAgain))
  refine ⟨c, o.getD d, n, data, hParse, hName, ?_,
    name_of_fixNames (e := e.withData remapped) hAgain hNew hFix, rfl⟩
  cases o with
  | none =>
    obtain rfl := Except.ok.inj hData
    exact hAgain
  | some fixed => exact parse_of_fixNames hAgain hFix hData

end Transformer

-- ---------------------------------------------------------------------------
-- One entry
-- ---------------------------------------------------------------------------

namespace ArchiveEntry

/-- The entry holds a class called `n`. -/
def Holds (e : ArchiveEntry) (n : String) : Prop :=
  e.kind = .classFile ∧ ∃ c, ClassFile.parse e.data = .ok c ∧ c.name = .ok n

/-- A class has one name. -/
theorem Holds.unique {e : ArchiveEntry} {n n' : String} (h : e.Holds n) (h' : e.Holds n') :
    n = n' := by
  obtain ⟨-, c, hParse, hName⟩ := h
  obtain ⟨-, c', hParse', hName'⟩ := h'
  obtain rfl := Except.ok.inj (hParse.symm.trans hParse')
  exact Except.ok.inj (hName.symm.trans hName')

theorem kind_of_name {e o : ArchiveEntry} (h : o.name = e.name) : o.kind = e.kind := by
  rw [kind, kind, h]

theorem release?_of_name {e o : ArchiveEntry} (h : o.name = e.name) : o.release? = e.release? := by
  rw [release?, release?, h]

end ArchiveEntry

/-- An entry that says no more than its name does. -/
def named (name : String) : ArchiveEntry := ⟨name, none, []⟩

theorem pathForClass_named (e : ArchiveEntry) (n : String) :
    (named e.name).pathForClass n = e.pathForClass n :=
  ArchiveEntry.pathForClass_of_release? (ArchiveEntry.release?_of_name rfl) n

/-- What has become of an entry of some kind when the classes of its jar are renamed. -/
def ContentRenamed (rename : String → String) (e o : ArchiveEntry) : EntryKind → Prop
  | .classFile => ∃ n, e.Holds n ∧ o.Holds (rename n) ∧ o.name = e.pathForClass (rename n)
  | .manifest => o.name = e.name
  | .resource => o = e
  | .directory => o = { e with data := [] }

/-- What has become of an entry when the classes of its jar are renamed. -/
structure EntryRenamed (rename : String → String) (e o : ArchiveEntry) : Prop where
  kind : o.kind = e.kind
  release : o.release? = e.release?
  time : o.time = e.time
  content : ContentRenamed rename e o e.kind

namespace EntryRenamed

variable {rename : String → String} {e o : ArchiveEntry}

/-- What is no class stays where it is. -/
theorem name (h : EntryRenamed rename e o) (hKind : e.kind ≠ .classFile) : o.name = e.name := by
  have hContent := h.content
  cases hCase : e.kind with
  | classFile => exact absurd hCase hKind
  | manifest =>
    rw [hCase] at hContent
    exact hContent
  | resource =>
    rw [hCase] at hContent
    exact congrArg ArchiveEntry.name hContent
  | directory =>
    rw [hCase] at hContent
    obtain rfl : o = { e with data := [] } := hContent
    rfl

/-- A class stands at the path of its new name. -/
theorem name_of_holds {n : String}
    (h : EntryRenamed rename e o) (hHolds : e.Holds n) : o.name = e.pathForClass (rename n) := by
  have hContent := h.content
  rw [hHolds.1] at hContent
  obtain ⟨n', hHolds', -, hPath⟩ := hContent
  rw [hPath, hHolds.unique hHolds']

theorem of_name (hName : o.name = e.name) (hTime : o.time = e.time)
    (hContent : ContentRenamed rename e o e.kind) : EntryRenamed rename e o :=
  ⟨ArchiveEntry.kind_of_name hName, ArchiveEntry.release?_of_name hName, hTime, hContent⟩

end EntryRenamed

namespace Transformer

variable {r : Remapper} {e : ArchiveEntry} {n new : String} {data : Bytes}

/-- A class moves from the path of its old name to the path of its new one. -/
theorem stored_moved (hPlaced : e.name = e.pathForClass n) :
    (moved (.ofArchive e) n new data).stored = ⟨e.pathForClass new, e.time, data⟩ := by
  let o : ArchiveEntry := ⟨e.pathForClass new, e.time, data⟩
  have hMoved : moved (.ofArchive e) n new data = .ofArchive o := by
    unfold moved
    split
    · rename_i hSame
      have hName : o.name = e.name := by
        rw [hPlaced, ← hSame]
      have hRelease := ArchiveEntry.release?_of_name hName
      rw [JarEntry.ofArchive, JarEntry.ofArchive, hRelease, ArchiveEntry.kind_of_name hName]
      exact congrArg (fun name => JarEntry.mk ⟨name, e.time, data⟩ e.kind e.release?) hName.symm
    · rfl
  have hKind : o.kind = .classFile := ArchiveEntry.kind_pathForClass rfl
  rw [hMoved, JarEntry.stored, JarEntry.kind_ofArchive, hKind]
  rfl

/-- What is written for an entry by a single stage. -/
theorem written_of_apply {stage : Transformer} {e' : JarEntry} {o : ArchiveEntry}
    (hApply : stage.apply (.ofArchive e) = .ok (some e')) (hStored : e'.stored = o) :
    written [stage] (.ofArchive e) = .ok (some o) := by
  rw [written, run_singleton, hApply, ← hStored]
  rfl

/-- The entry of a class, as it is written under its new name. -/
theorem exists_written_of_remapClass {e' : JarEntry} (hKind : e.kind = .classFile)
    (hPlaced : ∀ n, e.Holds n → e.name = e.pathForClass n)
    (hRemap : remapClass r (.ofArchive e) = .ok e') : ∃ n data, e.Holds n ∧
      (∃ d, ClassFile.parse data = .ok d ∧
        d.name = .ok (Descriptor.renameInternal r.className n)) ∧
      written [remap r] (.ofArchive e) =
        .ok (some ⟨e.pathForClass (Descriptor.renameInternal r.className n), e.time, data⟩) := by
  obtain ⟨c, d, n, data, hParse, hName, hAgain, hNew, rfl⟩ := exists_of_remapClass hRemap
  have hHolds : e.Holds n := ⟨hKind, c, hParse, hName⟩
  refine ⟨n, data, hHolds, ⟨d, hAgain, hNew⟩, written_of_apply ?_ (stored_moved (hPlaced n hHolds))⟩
  rw [apply, JarEntry.kind_ofArchive, hKind, hRemap]
  rfl

/-- **What becomes of one entry** when the classes are renamed. -/
theorem exists_entryRenamed
    (hPlaced : ∀ n, e.Holds n → e.name = e.pathForClass n)
    (hOutside : ∀ n, e.Holds n → e.release? = none →
      (named (e.pathForClass (Descriptor.renameInternal r.className n))).release? = none)
    (hRemap : e.kind = .classFile → ∃ e', remapClass r (.ofArchive e) = .ok e') :
    ∃ o, written [remap r] (.ofArchive e) = .ok (some o) ∧
      EntryRenamed (Descriptor.renameInternal r.className) e o := by
  cases hKind : e.kind with
  | classFile =>
    obtain ⟨e', he'⟩ := hRemap hKind
    obtain ⟨n, data, hHolds, hNew, hWritten⟩ := exists_written_of_remapClass hKind hPlaced he'
    refine ⟨_, hWritten, ?_⟩
    generalize hPath : e.pathForClass (Descriptor.renameInternal r.className n) = path at *
    have hNewKind : (⟨path, e.time, data⟩ : ArchiveEntry).kind = .classFile :=
      ArchiveEntry.kind_pathForClass hPath.symm
    have hRelease : (⟨path, e.time, data⟩ : ArchiveEntry).release? = e.release? := by
      cases hOld : e.release? with
      | none =>
        rw [← hOutside n hHolds hOld, hPath]
        exact ArchiveEntry.release?_of_name rfl
      | some release =>
        exact ArchiveEntry.release?_pathForClass hOld hPath.symm
    refine ⟨hNewKind.trans hKind.symm, hRelease, rfl, ?_⟩
    rw [hKind]
    exact ⟨n, hHolds, ⟨hNewKind, hNew⟩, hPath.symm⟩
  | manifest =>
    obtain ⟨data, hData⟩ := exists_remapManifest r (.ofArchive e)
    have hApply : (remap r).apply (.ofArchive e) =
        .ok (some ((JarEntry.ofArchive e).withData data)) := by
      rw [apply, JarEntry.kind_ofArchive, hKind, hData]
    have hStored : ((JarEntry.ofArchive e).withData data).stored = { e with data := data } := by
      refine if_neg fun h => ?_
      cases hKind.symm.trans h
    refine ⟨_, written_of_apply hApply hStored, .of_name rfl rfl ?_⟩
    rw [hKind]
    rfl
  | resource =>
    have hStored : (JarEntry.ofArchive e).stored = e := by
      refine if_neg fun h => ?_
      cases hKind.symm.trans h
    have hApply : (remap r).apply (.ofArchive e) = .ok (some (.ofArchive e)) := by
      rw [apply, JarEntry.kind_ofArchive, hKind]
    refine ⟨e, written_of_apply hApply hStored, .of_name rfl rfl ?_⟩
    rw [hKind]
    rfl
  | directory =>
    have hStored : (JarEntry.ofArchive e).stored = { e with data := [] } := if_pos hKind
    have hApply : (remap r).apply (.ofArchive e) = .ok (some (.ofArchive e)) := by
      rw [apply, JarEntry.kind_ofArchive, hKind]
    refine ⟨_, written_of_apply hApply hStored, .of_name rfl rfl ?_⟩
    rw [hKind]
    rfl

end Transformer

-- ---------------------------------------------------------------------------
-- All entries
-- ---------------------------------------------------------------------------

open Jar (names)

/-- The classes of a jar get new names that bring no two entries to one path. -/
structure RenamesApart (rename : String → String) (entries : List ArchiveEntry) : Prop where
  /-- No name comes up twice. -/
  names : (names entries).Nodup
  /-- Every class stands at the path of its name. -/
  placed : ∀ e ∈ entries, ∀ n, e.Holds n → e.name = e.pathForClass n
  /-- Different classes get different names. -/
  injective : ∀ e ∈ entries, ∀ e' ∈ entries, ∀ n n', e.Holds n → e'.Holds n' →
    rename n = rename n' → n = n'
  /-- No class gets into a release by its new name. -/
  outside : ∀ e ∈ entries, ∀ n, e.Holds n → e.release? = none →
    (named (e.pathForClass (rename n))).release? = none

/-- Two entries stay apart. -/
theorem RenamesApart.name_ne {rename : String → String} {entries : List ArchiveEntry}
    {e e' o o' : ArchiveEntry} (h : RenamesApart rename entries) (he : e ∈ entries)
    (he' : e' ∈ entries) (ho : EntryRenamed rename e o) (ho' : EntryRenamed rename e' o')
    (hNe : e.name ≠ e'.name) : o.name ≠ o'.name := by
  intro hSame
  have hKinds : e.kind = e'.kind := by
    rw [← ho.kind, ← ho'.kind, ArchiveEntry.kind_of_name hSame]
  by_cases hKind : e.kind = .classFile
  · have hClass := ho.content
    have hClass' := ho'.content
    rw [hKind] at hClass
    rw [← hKinds, hKind] at hClass'
    obtain ⟨n, hHolds, -, hPath⟩ := hClass
    obtain ⟨n', hHolds', -, hPath'⟩ := hClass'
    have hReleases : e.release? = e'.release? := by
      rw [← ho.release, ← ho'.release, ArchiveEntry.release?_of_name hSame]
    -- one release, so one path is one new name, and one new name is one old name
    rw [hPath, hPath', ← ArchiveEntry.pathForClass_of_release? hReleases] at hSame
    obtain rfl := h.injective e he e' he' n n' hHolds hHolds' (ArchiveEntry.pathForClass_inj hSame)
    rw [h.placed e he n hHolds, h.placed e' he' n hHolds',
      ArchiveEntry.pathForClass_of_release? hReleases] at hNe
    exact hNe rfl
  · rw [ho.name hKind, ho'.name (hKinds ▸ hKind)] at hSame
    exact hNe hSame

/-- Whether a renaming keeps entries apart can be seen from the names of the entries and of the
classes in them. -/
theorem RenamesApart.of_held {rename : String → String} {entries : List ArchiveEntry}
    {held : List (String × String)} (hNames : (Jar.names entries).Nodup)
    (hHolds : ∀ e ∈ entries, ∀ n, e.Holds n → (e.name, n) ∈ held)
    (hHeld : ∀ x ∈ held, x.1 = (named x.1).pathForClass x.2 ∧
      ((named x.1).release? = none →
        (named ((named x.1).pathForClass (rename x.2))).release? = none) ∧
      ∀ y ∈ held, rename x.2 = rename y.2 → x.2 = y.2) : RenamesApart rename entries where
  names := hNames
  placed e he n h := by
    obtain ⟨hPath, -⟩ := hHeld _ (hHolds e he n h)
    rwa [pathForClass_named] at hPath
  injective e he e' he' n n' h h' := by
    obtain ⟨-, -, hNew⟩ := hHeld _ (hHolds e he n h)
    exact hNew _ (hHolds e' he' n' h')
  outside e he n h hRelease := by
    obtain ⟨-, hOutside, -⟩ := hHeld _ (hHolds e he n h)
    rw [pathForClass_named] at hOutside
    exact hOutside hRelease

namespace Jar

open Transformer

/-- A filter that leaves something of every item leaves as much as there was. -/
theorem forall₂_filterMap {α β : Type} {R : α → β → Prop} {f : α → Option β} {l : List α}
    (h : ∀ a ∈ l, ∃ b, f a = some b ∧ R a b) : List.Forall₂ R l (l.filterMap f) := by
  induction l with
  | nil => exact .nil
  | cons a more ih =>
    obtain ⟨⟨b, hb, hR⟩, hMore⟩ := List.forall_mem_cons.1 h
    rw [List.filterMap_cons_some hb]
    exact .cons hR (ih hMore)

/-- **What becomes of a jar whose classes are renamed**, if the renaming keeps its entries apart and
no class is malformed: every entry is written, in the order of the source, at a path of its own. A
class stands at the path of its new name, in the release where it was. A manifest stays where it is,
and files and directories stay as they are, but for data of a directory. The jar is there unless no
jar can be written at all. -/
theorem transform_remap {set : MappingSet} {hierarchy : ClassHierarchy}
    {entries : List ArchiveEntry} (source : String)
    (hApart : RenamesApart (Descriptor.renameInternal set.className) entries)
    (hRemap : ∀ e ∈ entries, e.kind = .classFile →
      ∃ e', remapClass (set.remapper hierarchy) (.ofArchive e) = .ok e') :
    ∃ out, transformEntries source [.remap (set.remapper hierarchy)] entries = .ok out ∧
      out.length = entries.length ∧ (names out).Nodup ∧
      List.Forall₂ (EntryRenamed (Descriptor.renameInternal set.className)) entries out ∧
      ∀ y s t target r, s.entriesAt? source = some entries →
        (transformOn y source target [.remap (set.remapper hierarchy)]).run.run s = (r, t) →
          r = .ok entries.length ∧ t.content target = .ok (y.archive out) ∨
            ¬ Writable y target s ∧ ∃ path fault, r = .error (.file path fault) := by
  have hNames : (set.remapper hierarchy).className = set.className :=
    MappingRemapper.className_toRemapper
  have hEach : ∀ e ∈ entries, ∃ o, written [.remap (set.remapper hierarchy)] (.ofArchive e) =
      .ok (some o) ∧ EntryRenamed (Descriptor.renameInternal set.className) e o := by
    intro e he
    rw [← hNames]
    exact exists_entryRenamed (hApart.placed e he) (hNames ▸ hApart.outside e he) (hRemap e he)
  have hSurvives : ∀ e ∈ entries, ∃ o, survivor? [.remap (set.remapper hierarchy)] e = some o ∧
      EntryRenamed (Descriptor.renameInternal set.className) e o := by
    intro e he
    obtain ⟨o, hWritten, ho⟩ := hEach e he
    exact ⟨o, by rw [survivor?, hWritten], ho⟩
  have hAll := forall₂_filterMap hSurvives
  have hNodup : (names (entries.filterMap
      (survivor? [.remap (set.remapper hierarchy)]))).Nodup := by
    refine List.pairwise_map.2 (List.Pairwise.filterMap _ ?_
      (List.Pairwise.and_mem.1 (List.pairwise_map.1 hApart.names)))
    rintro e e' ⟨he, he', hNe⟩ o ho o' ho'
    obtain ⟨_, hSome, hRenamed⟩ := hSurvives e he
    obtain ⟨_, hSome', hRenamed'⟩ := hSurvives e' he'
    obtain rfl := Option.some.inj (hSome.symm.trans ho)
    obtain rfl := Option.some.inj (hSome'.symm.trans ho')
    exact hApart.name_ne he he' hRenamed hRenamed' hNe
  have hOut : transformEntries source [.remap (set.remapper hierarchy)] entries = .ok _ :=
    transformEntries_eq_ok.2 ⟨fun e he => ⟨_, (hEach e he).choose_spec.1⟩, hNodup, rfl⟩
  refine ⟨_, hOut, hAll.length_eq.symm, hNodup, hAll, fun y s t target r hEntries hRun => ?_⟩
  obtain hFault | ⟨hResult, hHolds⟩ := run_transform hEntries hRun
  · refine .inr ⟨fun hWritable => ?_, hFault⟩
    obtain ⟨path, fault, rfl⟩ := hFault
    obtain ⟨_, hTransformed⟩ := exists_run_transform hEntries hWritable hOut
    cases hTransformed.symm.trans hRun
  · rw [hOut] at hResult
    exact .inl ⟨hResult.trans (congrArg Except.ok hAll.length_eq.symm), hHolds _ hOut⟩

-- ---------------------------------------------------------------------------
-- Jars of plain classes
-- ---------------------------------------------------------------------------

section Plain

variable {classes : List PlainClass} {others : List ArchiveEntry}

/-- The names of the entries with classes, and of the classes in them. -/
def heldBy (classes : List PlainClass) : List (String × String) :=
  classes.map fun x => (x.path, x.name)

theorem holds_plainJar (hFits : ∀ x ∈ classes, PlainFits x.name x.new)
    (hOthers : ∀ e ∈ others, e.kind ≠ .classFile) :
    ∀ e ∈ plainJar classes others, ∀ n, e.Holds n → (e.name, n) ∈ heldBy classes := by
  refine forall_mem_plainJar.2 ⟨fun x hx n hHolds => ?_, fun e he n hHolds => ?_⟩
  · have hEntry : x.entry.Holds x.name := ⟨hHolds.1, x.parse_entry (hFits x hx)⟩
    rw [hHolds.unique hEntry]
    exact List.mem_map_of_mem hx
  · exact absurd hHolds.1 (hOthers e he)

end Plain

/-- The table that gives the class `a` the name `p/b`. -/
def movesOne : MappingSet := ⟨.ofList [("a", .new "p/b")]⟩

/-- A class, a class in it, and the class of a release. -/
def movedClasses : List PlainClass :=
  [⟨"a.class", "a", "p/b"⟩, ⟨"a$1.class", "a$1", "p/b$1"⟩,
    ⟨"META-INF/versions/9/a.class", "a", "p/b"⟩]

/-- A manifest, a file, and a directory with data. -/
def otherEntries : List ArchiveEntry :=
  [⟨"META-INF/MANIFEST.MF", none, []⟩, ⟨"c.txt", none, [1]⟩, ⟨"d/", none, [2]⟩]

/-- A jar of them. -/
def movedFiles : Store where
  nodes := .ofList [(["in.jar"], .file (.archive (plainJar movedClasses otherEntries)))]
  counter := 0

/-- The classes move, and the other entries stay. -/
theorem transform_remap_moved :
    RenamesApart (Descriptor.renameInternal movesOne.className)
      (plainJar movedClasses otherEntries) ∧
    (∀ e ∈ plainJar movedClasses otherEntries, e.kind = .classFile →
      ∃ e', remapClass (movesOne.remapper .empty) (.ofArchive e) = .ok e') ∧
    ∃ out, transformEntries "in.jar" [.remap (movesOne.remapper .empty)]
        (plainJar movedClasses otherEntries) = .ok out ∧
      names out = ["p/b.class", "p/b$1.class", "META-INF/versions/9/p/b.class",
        "META-INF/MANIFEST.MF", "c.txt", "d/"] ∧
      ∃ t, (transform "in.jar" "out.jar" [.remap (movesOne.remapper .empty)]).run.run movedFiles =
        (.ok 6, t) ∧ t.content "out.jar" = .ok (System.calm.archive out) := by
  have hFits : ∀ x ∈ movedClasses, PlainFits x.name x.new := by decide +kernel
  have hOthers : ∀ e ∈ otherEntries, e.kind ≠ .classFile := by decide
  have hHolds := holds_plainJar hFits hOthers
  have hApart : RenamesApart (Descriptor.renameInternal movesOne.className)
      (plainJar movedClasses otherEntries) := .of_held (by decide) hHolds (by decide +kernel)
  have hRemap := exists_remapClass_plainJar (r := movesOne.remapper .empty) hFits
    (by decide +kernel) hOthers
  obtain ⟨out, hOut, -, -, hAll, hRuns⟩ := transform_remap "in.jar" hApart hRemap
  have hWritable : Writable .calm "out.jar" movedFiles := by
    have hEmpty : ((FileAction.writeAtomically "out.jar" create).run.run movedFiles).1 =
        .ok () := by decide +kernel
    rcases hRun : (FileAction.writeAtomically "out.jar" create).run.run movedFiles with ⟨r, t⟩
    rw [hRun] at hEmpty
    obtain rfl : r = .ok () := hEmpty
    exact ⟨t, hRun⟩
  have hEntries : movedFiles.entriesAt? "in.jar" = some (plainJar movedClasses otherEntries) := by
    have hLocate : movedFiles.locate "in.jar" = .ok ["in.jar"] := by decide +kernel
    rw [Store.entriesAt?, Store.content_eq_ok.2 ⟨_, hLocate, rfl⟩]
    rfl
  have hWritten : ∃ t, (transform "in.jar" "out.jar" [.remap (movesOne.remapper .empty)]).run.run
      movedFiles = (.ok 6, t) ∧ t.content "out.jar" = .ok (System.calm.archive out) := by
    rcases hRun : (transform "in.jar" "out.jar" [.remap (movesOne.remapper .empty)]).run.run
      movedFiles with ⟨r, t⟩
    obtain ⟨rfl, hContent⟩ | ⟨hNot, -⟩ := hRuns .calm movedFiles t "out.jar" r hEntries hRun
    · exact ⟨t, rfl, hContent⟩
    · exact absurd hWritable hNot
  refine ⟨hApart, hRemap, out, hOut, ?_, hWritten⟩
  have hClass : ∀ x ∈ movedClasses, x.entry.Holds x.name := fun x hx =>
    ⟨by revert x; decide, x.parse_entry (hFits x hx)⟩
  obtain _ | ⟨h₁, _ | ⟨h₂, _ | ⟨h₃, _ | ⟨h₄, _ | ⟨h₅, _ | ⟨h₆, _ | _⟩⟩⟩⟩⟩⟩ := hAll
  rw [names, List.map_cons, List.map_cons, List.map_cons, List.map_cons, List.map_cons,
    List.map_cons, List.map_nil, h₄.name (by decide), h₅.name (by decide), h₆.name (by decide),
    h₁.name_of_holds (hClass _ (by simp [movedClasses])),
    h₂.name_of_holds (hClass _ (by simp [movedClasses])),
    h₃.name_of_holds (hClass _ (by simp [movedClasses]))]
  decide +kernel

-- ---------------------------------------------------------------------------
-- Paths that meet
-- ---------------------------------------------------------------------------

/-- Two classes of a jar that come to one path make no jar. -/
theorem transformEntries_ne_ok {jar : String} {r : Remapper} {entries : List ArchiveEntry}
    {e₁ e₂ : ArchiveEntry} {n₁ n₂ : String} (hBoth : [e₁, e₂].Sublist entries)
    (hHolds₁ : e₁.Holds n₁) (hHolds₂ : e₂.Holds n₂) (hPlaced₁ : e₁.name = e₁.pathForClass n₁)
    (hPlaced₂ : e₂.name = e₂.pathForClass n₂)
    (hRemap₁ : ∃ e', remapClass r (.ofArchive e₁) = .ok e')
    (hRemap₂ : ∃ e', remapClass r (.ofArchive e₂) = .ok e')
    (hPath : e₁.pathForClass (Descriptor.renameInternal r.className n₁) =
      e₂.pathForClass (Descriptor.renameInternal r.className n₂)) (out : List ArchiveEntry) :
    transformEntries jar [.remap r] entries ≠ .ok out := by
  intro h
  obtain ⟨-, hNodup, -⟩ := transformEntries_eq_ok.1 h
  have hSurvives : ∀ {e : ArchiveEntry} {n : String}, e.Holds n → e.name = e.pathForClass n →
      (∃ e', remapClass r (.ofArchive e) = .ok e') → ∃ o, survivor? [.remap r] e = some o ∧
        o.name = e.pathForClass (Descriptor.renameInternal r.className n) := by
    rintro e n hHolds hPlaced ⟨e', hRemap⟩
    obtain ⟨n', data, hHolds', -, hWritten⟩ := exists_written_of_remapClass hHolds.1
      (fun n' h => hHolds.unique h ▸ hPlaced) hRemap
    refine ⟨_, by rw [survivor?, hWritten], ?_⟩
    rw [hHolds.unique hHolds']
  obtain ⟨o₁, ho₁, hName₁⟩ := hSurvives hHolds₁ hPlaced₁ hRemap₁
  obtain ⟨o₂, ho₂, hName₂⟩ := hSurvives hHolds₂ hPlaced₂ hRemap₂
  have hOut := (hBoth.filterMap (survivor? [.remap r])).map (·.name)
  rw [List.filterMap_cons_some ho₁, List.filterMap_cons_some ho₂] at hOut
  have hTwo := hNodup.sublist hOut
  simp [hName₁, hName₂, hPath] at hTwo

/-- Conditions that keep the names of classes apart, but not all paths: a class of a release may
stand anywhere in the release, and nothing is said of where new names lead. -/
structure NamesApart (set : MappingSet) (entries : List ArchiveEntry) : Prop where
  names : (names entries).Nodup
  placed : ∀ e ∈ entries, ∀ n, e.Holds n → e.release? = none → e.name = e.pathForClass n
  canonical : ∀ e ∈ entries, ∀ n, e.Holds n → ∀ release, e.release? = some release →
    Text.startsWith e.name (ArchiveEntry.releasePath (some release)) = true
  injective : ∀ e ∈ entries, ∀ e' ∈ entries, ∀ n n', e.Holds n → e'.Holds n' →
    set.className n = set.className n' → n = n'
  remaps : ∀ e ∈ entries, e.kind = .classFile →
    ∃ e', remapClass (set.remapper .empty) (.ofArchive e) = .ok e'

theorem namesApart_plainJar {set : MappingSet} {classes : List PlainClass}
    {others : List ArchiveEntry} (hFits : ∀ x ∈ classes, PlainFits x.name x.new)
    (hOthers : ∀ e ∈ others, e.kind ≠ .classFile)
    (hNames : (names (plainJar classes others)).Nodup)
    (hNew : ∀ x ∈ classes,
      Descriptor.renameInternal (set.remapper .empty).className x.name = x.new)
    (hHeld : ∀ x ∈ heldBy classes,
      ((named x.1).release? = none → x.1 = (named x.1).pathForClass x.2) ∧
      (∀ release ∈ (named x.1).release?,
        Text.startsWith x.1 (ArchiveEntry.releasePath (some release)) = true) ∧
      ∀ y ∈ heldBy classes, set.className x.2 = set.className y.2 → x.2 = y.2) :
    NamesApart set (plainJar classes others) where
  names := hNames
  placed e he n h hRelease := by
    obtain ⟨hPath, -⟩ := hHeld _ (holds_plainJar hFits hOthers e he n h)
    rw [pathForClass_named] at hPath
    exact hPath hRelease
  canonical e he n h := by
    obtain ⟨-, hCanonical, -⟩ := hHeld _ (holds_plainJar hFits hOthers e he n h)
    exact hCanonical
  injective e he e' he' n n' h h' := by
    obtain ⟨-, -, hNew⟩ := hHeld _ (holds_plainJar hFits hOthers e he n h)
    exact hNew _ (holds_plainJar hFits hOthers e' he' n' h')
  remaps := exists_remapClass_plainJar hFits hNew hOthers

/-- Two plain classes that come to one path. -/
theorem plainJar_ne_ok {jar : String} {r : Remapper} {x y : PlainClass}
    (hFits : ∀ z ∈ [x, y], PlainFits z.name z.new)
    (hNew : ∀ z ∈ [x, y], Descriptor.renameInternal r.className z.name = z.new)
    (hPlaced : ∀ z ∈ [x, y], z.entry.kind = .classFile ∧ z.path = z.entry.pathForClass z.name)
    (hPath : x.entry.pathForClass x.new = y.entry.pathForClass y.new) (out : List ArchiveEntry) :
    transformEntries jar [.remap r] (plainJar [x, y] []) ≠ .ok out := by
  simp only [List.forall_mem_cons] at hFits hNew hPlaced
  obtain ⟨hx, hy, -⟩ := hFits
  obtain ⟨hNewX, hNewY, -⟩ := hNew
  obtain ⟨⟨hKindX, hPlacedX⟩, ⟨hKindY, hPlacedY⟩, -⟩ := hPlaced
  have hHoldsX : x.entry.Holds x.name := ⟨hKindX, x.parse_entry hx⟩
  have hHoldsY : y.entry.Holds y.name := ⟨hKindY, y.parse_entry hy⟩
  refine transformEntries_ne_ok (.refl _) hHoldsX hHoldsY hPlacedX hPlacedY
    (x.exists_remapClass hx hNewX) (y.exists_remapClass hy hNewY) ?_ out
  rw [hNewX, hNewY, hPath]

/-- A class of a release that does not stand at the path of its name. -/
def strayClass : PlainClass := ⟨"META-INF/versions/9/x.class", "a", "a"⟩

/-- A class that gets a name in a release, and a class of that release. -/
def besideRelease : List PlainClass :=
  [⟨"a.class", "a", "META-INF/versions/9/b"⟩, ⟨"META-INF/versions/9/b.class", "b", "b"⟩]

/-- Two classes that are called like arrays. -/
def arrayClasses : List PlainClass :=
  [⟨"[La;.class", "[La;", "[LA;"⟩, ⟨"[LA;.class", "[LA;", "[LA;"⟩]

/-- **Names that are apart do not keep paths apart.** A class of a release that does not stand at
the path of its name stays there if its name does. A class may get a name that leads to a class of a
release. The name of an array is renamed at its elements, also where a class is called so. And a
directory is written without its data. -/
theorem not_transform_remap :
    (NamesApart ∅ (plainJar [strayClass] []) ∧
      transformEntries "in.jar" [.remap ((∅ : MappingSet).remapper .empty)]
          (plainJar [strayClass] []) = .ok [strayClass.entry] ∧
        strayClass.entry.name ≠ strayClass.entry.pathForClass ((∅ : MappingSet).className "a")) ∧
    (NamesApart ⟨.ofList [("a", .new "META-INF/versions/9/b")]⟩ (plainJar besideRelease []) ∧
      ∀ out, transformEntries "in.jar"
        [.remap (MappingSet.remapper ⟨.ofList [("a", .new "META-INF/versions/9/b")]⟩ .empty)]
          (plainJar besideRelease []) ≠ .ok out) ∧
    (NamesApart ⟨.ofList [("a", .new "A")]⟩ (plainJar arrayClasses []) ∧
      ∀ out, transformEntries "in.jar"
        [.remap (MappingSet.remapper ⟨.ofList [("a", .new "A")]⟩ .empty)]
          (plainJar arrayClasses []) ≠ .ok out) ∧
    NamesApart ∅ [⟨"a/", none, [1]⟩] ∧
      transformEntries "in.jar" [.remap ((∅ : MappingSet).remapper .empty)] [⟨"a/", none, [1]⟩] =
        .ok [⟨"a/", none, []⟩] := by
  refine ⟨⟨?_, by decide +kernel, by decide +kernel⟩, ⟨?_, ?_⟩, ⟨?_, ?_⟩, ?_, by rfl⟩
  · exact namesApart_plainJar (by decide +kernel) nofun (by decide) (by decide +kernel)
      (by decide +kernel)
  · exact namesApart_plainJar (by decide +kernel) nofun (by decide) (by decide +kernel)
      (by decide +kernel)
  · exact plainJar_ne_ok (by decide +kernel) (by decide +kernel) (by decide +kernel)
      (by decide +kernel)
  · exact namesApart_plainJar (by decide +kernel) nofun (by decide) (by decide +kernel)
      (by decide +kernel)
  · exact plainJar_ne_ok (by decide +kernel) (by decide +kernel) (by decide +kernel)
      (by decide +kernel)
  · show NamesApart ∅ (plainJar [] [⟨"a/", none, [1]⟩])
    exact namesApart_plainJar nofun (by decide) (by decide) nofun nofun

end Jar

-- ---------------------------------------------------------------------------
-- Names and paths
-- ---------------------------------------------------------------------------

open Transformer ArchiveEntry

/-- A class that gets another name is written to the path of this name. -/
theorem Transformer.name_of_remapClass {r : Remapper} {e : ArchiveEntry} {e' : JarEntry}
    {n : String} (hHolds : e.Holds n) (hNew : Descriptor.renameInternal r.className n ≠ n)
    (hRemap : remapClass r (.ofArchive e) = .ok e') :
    e'.name = e.pathForClass (Descriptor.renameInternal r.className n) := by
  obtain ⟨c, -, n', data, hParse, hName, -, -, rfl⟩ := exists_of_remapClass hRemap
  obtain rfl := hHolds.unique ⟨hHolds.1, c, hParse, hName⟩
  rw [moved, if_neg hNew]
  rfl

/-- **The path of a class** is a start, its name and an ending. A class that gets another name moves
to the path of this name, which tells its release and the name. The class comes back to its path
exactly if the path starts as the release is printed, both when the path is made of the name and
when a class of the release gets the name. -/
theorem pathForClass_className (e : ArchiveEntry) (hKind : e.kind = .classFile) : ∃ start n,
    IsStart e.release? start ∧ e.name = start ++ n ++ ".class" ∧ e.className? = some n ∧
    (e.pathForClass n = e.name ↔ start = releasePath e.release?) ∧
    (∀ d, ∀ o : ArchiveEntry, o.name = e.pathForClass d → o.kind = .classFile ∧
      (e.release?.isSome → o.release? = e.release?) ∧
      (o.release? = e.release? → o.className? = some d ∧ o.pathForClass n = e.pathForClass n)) ∧
    (∀ r m e', e.Holds m → Descriptor.renameInternal r.className m ≠ m →
      remapClass r (.ofArchive e) = .ok e' →
      e'.name = e.pathForClass (Descriptor.renameInternal r.className m)) ∧
    ∀ r d o o', o.Holds d → d ≠ n → Descriptor.renameInternal r.className d = n →
      o.release? = e.release? → remapClass r (.ofArchive o) = .ok o' →
      (o'.name = e.name ↔ start = releasePath e.release?) := by
  obtain ⟨start, n, hStart, hName, hClass⟩ := exists_className? hKind
  have hBack := pathForClass_eq_name hName
  refine ⟨start, n, hStart, hName, hClass, hBack, fun d o hNew => ⟨kind_pathForClass hNew, ?_, ?_⟩,
    fun _ _ _ => name_of_remapClass, ?_⟩
  · intro hSome
    obtain ⟨release, hRelease⟩ := Option.isSome_iff_exists.1 hSome
    rw [release?_pathForClass hRelease hNew, hRelease]
  · intro hRelease
    exact ⟨className?_pathForClass hRelease hNew, pathForClass_of_release? hRelease n⟩
  · rintro r d o o' hHolds hOther rfl hRelease hRemap
    rw [name_of_remapClass hHolds hOther.symm hRemap, pathForClass_of_release? hRelease, hBack]

/-- A class of a release whose number is written with a zero in front, and the class that it
becomes, which gets the old name back. -/
def paddedClass : PlainClass := ⟨"META-INF/versions/017/a.class", "a", "b"⟩

def returningClass : PlainClass := ⟨"META-INF/versions/17/b.class", "b", "a"⟩

theorem pathForClass_className_paddedClass :
    paddedClass.entry.kind = .classFile ∧ paddedClass.entry.className? = some "a" ∧
    paddedClass.entry.pathForClass "a" ≠ paddedClass.entry.name ∧
    (∃ e', remapClass (MappingSet.remapper ⟨.ofList [("a", .new "b")]⟩ .empty)
      (.ofArchive paddedClass.entry) = .ok e' ∧ e'.name = returningClass.path) ∧
    ∃ o', remapClass (MappingSet.remapper ⟨.ofList [("b", .new "a")]⟩ .empty)
      (.ofArchive returningClass.entry) = .ok o' ∧ o'.name ≠ paddedClass.entry.name := by
  have hKind : paddedClass.entry.kind = .classFile := by decide +kernel
  have hClass : paddedClass.entry.className? = some "a" := by decide +kernel
  have hAway : paddedClass.entry.pathForClass "a" ≠ paddedClass.entry.name := by decide +kernel
  have hFits : PlainFits "a" "b" ∧ PlainFits "b" "a" := by decide +kernel
  obtain ⟨start, n, -, -, hName, hBack, -, hMoves, hReturns⟩ := pathForClass_className _ hKind
  obtain rfl := Option.some.inj (hClass.symm.trans hName)
  obtain ⟨e', hRemap⟩ := paddedClass.exists_remapClass
    (r := MappingSet.remapper ⟨.ofList [("a", .new "b")]⟩ .empty) hFits.1 (by decide +kernel)
  obtain ⟨o', hReturn⟩ := returningClass.exists_remapClass
    (r := MappingSet.remapper ⟨.ofList [("b", .new "a")]⟩ .empty) hFits.2 (by decide +kernel)
  refine ⟨hKind, hClass, hAway, ⟨e', hRemap, ?_⟩, o', hReturn, fun hSame => hAway ?_⟩
  · have hHolds : paddedClass.entry.Holds "a" := ⟨hKind, paddedClass.parse_entry hFits.1⟩
    rw [hMoves _ "a" e' hHolds (by decide +kernel) hRemap]
    decide +kernel
  · have hHolds : returningClass.entry.Holds "b" :=
      ⟨by decide +kernel, returningClass.parse_entry hFits.2⟩
    have hIff := hReturns _ "b" returningClass.entry o' hHolds (by decide) (by decide +kernel)
      (by decide +kernel) hReturn
    exact hBack.2 (hIff.1 hSame)

end Jarsmith
