import Jarsmith.Proofs.Jar.Staged

/-!
# Plain classes

A class that says no more than its name and its source file can be renamed by every remapper, if the
source file goes with the new name and there is room for it.

* `Transformer.plainClass` — such a class.
* `Transformer.exists_remapClass_plain` — it is renamed.
* `PlainClass` — such a class in a jar, with the new name that it gets.
-/

namespace Jarsmith.Transformer

open Outcome ClassFile
open Pool (Yields yields_bind yields_pure yields_liftM)

/-- The constants of a class that says no more than its name and its source file. The class refers
to its name by `slot`; `more` stands behind. -/
def plainConstants (slot : UInt16) (name source : String) (more : List Constant) : List Constant :=
  .utf8 (ModifiedUtf8.encode name) :: .classRef slot ::
    .utf8 (ModifiedUtf8.encode AttributeName.sourceFile) ::
      .utf8 (ModifiedUtf8.encode source) :: more

/-- A class with such constants. -/
def plainClass (p : Pool) : ClassFile := ⟨0, 52, p, 0x20, 2, none, [], [], [], [⟨3, [0, 4]⟩]⟩

/-- The bytes that hold a class with such constants. -/
def plainBytes (constants : List Constant) : Bytes :=
  magic ++ putU16 0 ++ putU16 52 ++ Pool.written constants ++
    (plainClass (Pool.ofConstants constants)).behindPool

variable {r : Remapper} {constants more : List Constant} {n new source : String} {p : Pool}
  {slot : UInt16}

/-- A text fits into a class file. -/
def IsShort (s : String) : Prop := (ModifiedUtf8.encode s).length < 65536

instance : DecidablePred IsShort := fun _ => inferInstanceAs (Decidable (_ < _))

theorem fits_encode {s : String} (h : IsShort s) : (Constant.utf8 (ModifiedUtf8.encode s)).Fits :=
  ⟨h, by rw [ModifiedUtf8.units?_encode]; rfl⟩

theorem decodeText_encode (s : String) : Pool.decodeText (ModifiedUtf8.encode s) = .ok s := by
  rw [Pool.decodeText, ModifiedUtf8.textOf_encode]
  rfl

theorem text_encode {i : UInt16} {s : String}
    (h : p.find? i = some (.utf8 (ModifiedUtf8.encode s))) : p.text i = .ok s :=
  Pool.text_eq_ok.2 ⟨_, h, decodeText_encode s⟩

theorem fits_plainClass (p : Pool) : (plainClass p).Fits where
  interfaces := show 0 < 65536 by decide
  fields := ⟨show 0 < 65536 by decide, nofun⟩
  methods := ⟨show 0 < 65536 by decide, nofun⟩
  attributes := by
    refine ⟨show 1 < 65536 by decide, fun a ha => ?_⟩
    obtain rfl := List.mem_singleton.1 ha
    exact ⟨by decide, by decide⟩
  thisClass := show (2 : UInt16) ≠ 0 by decide
  superClass := nofun
  interfaceIndices := nofun

/-- Any pool with the slots makes the bytes. -/
theorem toBytes_plainClass (hFits : ∀ k ∈ constants, k.Fits)
    (hSlots : p.entries.toList = .unusable :: constants.flatMap Pool.slotsOf)
    (hSize : p.size < 65536) :
    (plainClass p).toBytes = .ok (plainBytes constants) :=
  (fits_plainClass p).toBytes (Pool.toBytes_of_slots hSlots
    (fun k hk => ⟨(hFits k hk).usable, (hFits k hk).textFits⟩) hSize)

/-- The bytes are read as the class. -/
theorem parse_plainBytes (hFits : ∀ k ∈ constants, k.Fits)
    (hSize : (Pool.ofConstants constants).size < 65536)
    (hName : (plainClass (Pool.ofConstants constants)).name = .ok n) :
    parse (plainBytes constants) = .ok (plainClass (Pool.ofConstants constants)) := by
  obtain ⟨written, hWritten, hRead⟩ :=
    (fits_plainClass _).exists_toBytes ⟨constants, rfl, hFits⟩ hSize hName
  have hBytes := toBytes_plainClass hFits (Pool.entries_ofConstants constants) hSize
  obtain rfl := Except.ok.inj (hWritten.symm.trans hBytes)
  exact hRead

/-- A class whose source file goes with its name has nothing to fix. -/
theorem fix_plainClass (hName : (plainClass p).name = .ok n)
    (hAttribute : p.find? 3 = some (.utf8 (ModifiedUtf8.encode AttributeName.sourceFile)))
    (hSource : p.find? 4 = some (.utf8 (ModifiedUtf8.encode (sourceFileName n)))) :
    (plainClass p).fix (fixNames (plainClass p)) = .ok none := by
  have hFound : p.attribute? [⟨3, [0, 4]⟩] AttributeName.sourceFile =
      .ok (some (0, ⟨3, [0, 4]⟩)) :=
    Pool.attribute?_eq_some.2 ⟨[], [], rfl, rfl, nofun, text_encode hAttribute⟩
  have hCurrent : p.rawText 4 = .ok (ModifiedUtf8.encode (sourceFileName n)) := by
    rw [Pool.rawText, hSource]
  have hFirst : Yields (plainClass p).fixSourceFile p none p := by
    refine yields_bind.2 ⟨n, p, yields_liftM.2 ⟨hName, rfl⟩, ?_⟩
    refine yields_bind.2 ⟨_, p, yields_liftM.2 ⟨hFound, rfl⟩, ?_⟩
    refine yields_bind.2 ⟨_, p, yields_liftM.2 ⟨bind_ok_iff.2 ⟨4, rfl, hCurrent⟩, rfl⟩, ?_⟩
    rw [if_pos (Pool.spells_iff.2 (decodeText_encode _))]
    exact yields_pure.2 ⟨rfl, rfl⟩
  exact fixNames_eq_ok.2 ⟨none, p, none, p, hFirst, rfl, rfl⟩

-- ---------------------------------------------------------------------------
-- Renaming
-- ---------------------------------------------------------------------------

/-- The attribute for the source file is left alone. -/
theorem yields_remapAttributes_plain {s : ClassRemapping} {q : Pool} {a : Attribute}
    (hKind : s.source.storedText a.name = .ok AttributeName.sourceFile) :
    Yields ([a].mapM s.remapClassAttribute) q [a] q ∧ Yields (s.remapCommon [a]) q [a] q := by
  have hInner : ¬ AttributeName.sourceFile = AttributeName.innerClasses := by decide
  have hEnclosing : ¬ AttributeName.sourceFile = AttributeName.enclosingMethod := by decide
  have hRecord : ¬ AttributeName.sourceFile = AttributeName.record := by decide
  have hSignature : ¬ AttributeName.sourceFile = AttributeName.signature := by decide
  have hShape : AnnotationShape.ofName? AttributeName.sourceFile = none := by decide +kernel
  have hClass : Yields (s.remapClassAttribute a) q a q := by
    refine yields_bind.2 ⟨_, q, yields_liftM.2 ⟨hKind, rfl⟩, ?_⟩
    rw [if_neg hInner, if_neg hEnclosing, if_neg hRecord]
    exact yields_pure.2 ⟨rfl, rfl⟩
  have hCommon : Yields (s.remapCommonAttribute a) q a q := by
    refine yields_bind.2 ⟨_, q, yields_liftM.2 ⟨hKind, rfl⟩, ?_⟩
    rw [if_neg hSignature, hShape]
    exact yields_pure.2 ⟨rfl, rfl⟩
  constructor
  · rw [List.mapM_cons]
    exact yields_bind.2 ⟨a, q, hClass, yields_pure.2 ⟨rfl, rfl⟩⟩
  · rw [ClassRemapping.remapCommon, List.mapM_cons]
    exact yields_bind.2 ⟨a, q, hCommon, yields_pure.2 ⟨rfl, rfl⟩⟩

/-- Only the constant for the class itself can change. -/
theorem apply_plainClass {q : Pool} (hName : (plainClass p).name = .ok n)
    (hIndices : p.indices = [1, 2, 3, 4])
    (hTexts : ∀ i ∈ [1, 3, 4], ∃ raw, p.find? i = some (.utf8 raw))
    (hAttribute : p.find? 3 = some (.utf8 (ModifiedUtf8.encode AttributeName.sourceFile)))
    (hSlot : Yields (ClassRemapping.remapConstant ⟨r, p, n⟩ [] 2) p () q) :
    r.apply (plainClass p) = .ok (plainClass q) := by
  let s : ClassRemapping := ⟨r, p, n⟩
  have hText : ∀ i ∈ [1, 3, 4], ∀ t, Yields (s.remapConstant [] i) t () t := by
    intro i hi t
    obtain ⟨raw, hRaw⟩ := hTexts i hi
    exact yields_bind.2
      ⟨_, t, yields_liftM.2 ⟨Pool.get_eq_ok.2 hRaw, rfl⟩, yields_pure.2 ⟨rfl, rfl⟩⟩
  have hPool : Yields (s.remapPool []) p () q := by
    rw [ClassRemapping.remapPool, show s.source.indices = [1, 2, 3, 4] from hIndices]
    exact yields_bind.2 ⟨(), p, hText 1 (by decide) p, yields_bind.2 ⟨(), q, hSlot,
      yields_bind.2 ⟨(), q, hText 3 (by decide) q, yields_bind.2 ⟨(), q, hText 4 (by decide) q,
        yields_pure.2 ⟨rfl, rfl⟩⟩⟩⟩⟩
  have hKind : p.storedText 3 = .ok AttributeName.sourceFile :=
    bind_ok_iff.2 ⟨_, Pool.rawText_eq_ok.2 hAttribute, decodeText_encode _⟩
  obtain ⟨hClass, hCommon⟩ :=
    yields_remapAttributes_plain (s := s) (q := q) (a := ⟨3, [0, 4]⟩) hKind
  have hMethods : (plainClass p).bootstrapMethods = .ok [] := by
    refine bind_ok_iff.2 ⟨none, Pool.attribute?_eq_none.2 fun a ha => ?_, rfl⟩
    obtain rfl := List.mem_singleton.1 ha
    refine ⟨_, hAttribute, fun hText => ?_⟩
    exact absurd (Except.ok.inj ((decodeText_encode _).symm.trans hText)) (by decide)
  refine bind_ok_iff.2 ⟨n, hName, bind_ok_iff.2 ⟨[], hMethods,
    edit_eq_ok.2 ⟨plainClass p, q, ?_, rfl⟩⟩⟩
  exact yields_bind.2 ⟨(), q, hPool, yields_bind.2 ⟨[], q, yields_pure.2 ⟨rfl, rfl⟩,
    yields_bind.2 ⟨[], q, yields_pure.2 ⟨rfl, rfl⟩, yields_bind.2 ⟨_, q, hClass,
      yields_bind.2 ⟨_, q, hCommon, yields_pure.2 ⟨rfl, rfl⟩⟩⟩⟩⟩⟩

/-- A renamed class whose source file goes with its new name. -/
theorem exists_remapClass_of_apply {e : JarEntry} {q : Pool}
    (hParse : parse e.data = .ok (plainClass p)) (hName : (plainClass p).name = .ok n)
    (hApply : r.apply (plainClass p) = .ok (plainClass q)) (hFits : ∀ k ∈ constants, k.Fits)
    (hSlots : q.entries.toList = .unusable :: constants.flatMap Pool.slotsOf)
    (hSize : (Pool.ofConstants constants).size < 65536)
    (hNew : (plainClass (Pool.ofConstants constants)).name = .ok new)
    (hAttribute : (Pool.ofConstants constants).find? 3 =
      some (.utf8 (ModifiedUtf8.encode AttributeName.sourceFile)))
    (hSource : (Pool.ofConstants constants).find? 4 =
      some (.utf8 (ModifiedUtf8.encode (sourceFileName new)))) : ∃ e', remapClass r e = .ok e' := by
  have hRoom : q.size < 65536 := by
    rwa [Pool.size, ← Array.length_toList, hSlots, List.length_cons, ← Pool.size_ofConstants]
  have hRemapped : Remapped r e (plainClass p) n (plainBytes constants)
      (plainClass (Pool.ofConstants constants)) new :=
    ⟨hParse, hName, ⟨_, hApply, toBytes_plainClass hFits hSlots hRoom⟩,
      parse_plainBytes hFits hSize hNew, hNew⟩
  exact ⟨_, remapClass_iff.2 ⟨_, n, _, _, new, none, plainBytes constants, hRemapped,
    fix_plainClass hNew hAttribute hSource, rfl, rfl⟩⟩

theorem fits_plainConstants (hSlot : slot ≠ 0) (hName : IsShort n) (hSource : IsShort source)
    (hMore : ∀ k ∈ more, k.Fits) : ∀ k ∈ plainConstants slot n source more, k.Fits := by
  simp only [plainConstants, List.forall_mem_cons]
  exact ⟨fits_encode hName, hSlot, fits_encode (by decide), fits_encode hSource, hMore⟩

theorem name_plainClass :
    (plainClass (Pool.ofConstants (plainConstants 1 n source []))).name = .ok n :=
  Pool.className_eq_ok.2 ⟨1, rfl, text_encode rfl⟩

theorem parse_plain (hName : IsShort n) (hSource : IsShort source) :
    parse (plainBytes (plainConstants 1 n source [])) =
      .ok (plainClass (Pool.ofConstants (plainConstants 1 n source []))) :=
  parse_plainBytes (fits_plainConstants (by decide) hName hSource nofun)
    (show 5 < 65536 by decide) name_plainClass

/-- The texts of a plain class that is called `n` and will be called `new` fit into a class file,
and the new name is none of those that are there before. -/
def PlainFits (n new : String) : Prop :=
  IsShort n ∧ IsShort new ∧ IsShort (sourceFileName new) ∧
    (new ≠ n → Constant.utf8 (ModifiedUtf8.encode new) ∉ plainConstants 1 n (sourceFileName new) [])

instance : Decidable (PlainFits n new) := inferInstanceAs (Decidable (_ ∧ _ ∧ _ ∧ (_ → _)))

/-- **A plain class is renamed**, if its source file goes with the new name. -/
theorem exists_remapClass_plain {e : JarEntry}
    (hData : e.data = plainBytes (plainConstants 1 n (sourceFileName new) []))
    (hNew : Descriptor.renameInternal r.className n = new) (hFits : PlainFits n new) :
    ∃ e', remapClass r e = .ok e' := by
  obtain ⟨hOldShort, hNewShort, hSourceShort, hFresh⟩ := hFits
  let p := Pool.ofConstants (plainConstants 1 n (sourceFileName new) [])
  have hName : (plainClass p).name = .ok n := name_plainClass
  have hText : p.text 1 = .ok n := text_encode rfl
  have hParse : parse e.data = .ok (plainClass p) := hData ▸ parse_plain hOldShort hSourceShort
  have hTexts : ∀ i ∈ [1, 3, 4], ∃ raw, p.find? i = some (.utf8 raw) := by
    simp only [List.forall_mem_cons]
    exact ⟨⟨_, rfl⟩, ⟨_, rfl⟩, ⟨_, rfl⟩, nofun⟩
  by_cases hSame : new = n
  · have hSlot : Yields (ClassRemapping.remapConstant ⟨r, p, n⟩ [] 2) p () p := by
      refine yields_bind.2 ⟨.classRef 1, p, yields_liftM.2 ⟨Pool.get_eq_ok.2 rfl, rfl⟩, ?_⟩
      refine yields_bind.2 ⟨n, p, yields_liftM.2 ⟨hText, rfl⟩, ?_⟩
      simp only [hNew, if_neg (not_not.2 hSame)]
      exact yields_pure.2 ⟨rfl, rfl⟩
    have hApply := apply_plainClass (r := r) hName rfl hTexts rfl hSlot
    have hFits : ∀ k ∈ plainConstants 1 n (sourceFileName new) [], k.Fits :=
      fits_plainConstants (by decide) hOldShort hSourceShort nofun
    exact exists_remapClass_of_apply hParse hName hApply hFits rfl (show 5 < 65536 by decide)
      (hName.trans (congrArg Except.ok hSame.symm)) rfl rfl
  · have hSound : p.Sound := sound_decode (decode_of_parse hParse)
    have hNotThere : Constant.utf8 (ModifiedUtf8.encode new) ∉ p.entries.toList := by
      have hEntries : p.entries.toList =
        .unusable :: plainConstants 1 n (sourceFileName new) [] := rfl
      rw [hEntries, List.mem_cons, not_or]
      exact ⟨nofun, hFresh hSame⟩
    obtain ⟨-, hSlot⟩ := ClassRemapping.remapConstant_new (r := ⟨r, p, n⟩) [] hSound
      (show p.find? 2 = some (.classRef 1) from rfl) hText hNew hSame hNewShort hNotThere
      (show 5 < Pool.maxSize by decide)
    have hApply := apply_plainClass (r := r) hName rfl hTexts rfl hSlot
    -- the new name stands behind the others, in slot 5
    have hSlotFive : (5 : UInt16) ≠ 0 := by decide
    have hFits := fits_plainConstants hSlotFive hOldShort hSourceShort
      (List.forall_mem_singleton.2 (fits_encode hNewShort))
    exact exists_remapClass_of_apply hParse hName hApply hFits rfl (show 6 < 65536 by decide)
      (Pool.className_eq_ok.2 ⟨5, rfl, text_encode rfl⟩) rfl rfl

end Jarsmith.Transformer

namespace Jarsmith

open Outcome Transformer

/-- A plain class of a jar: the path where it stands, its name, and the name that it gets. Its
source file goes with the new name. -/
structure PlainClass where
  path : String
  name : String
  new : String

namespace PlainClass

variable {x : PlainClass} {n : String}

/-- The entry of the class. -/
def entry (x : PlainClass) : ArchiveEntry :=
  ⟨x.path, none, plainBytes (plainConstants 1 x.name (sourceFileName x.new) [])⟩

theorem parse_entry (hFits : PlainFits x.name x.new) :
    ∃ c, ClassFile.parse x.entry.data = .ok c ∧ c.name = .ok x.name :=
  ⟨_, parse_plain hFits.1 hFits.2.2.1, name_plainClass⟩

theorem exists_remapClass {r : Remapper} (hFits : PlainFits x.name x.new)
    (hNew : Descriptor.renameInternal r.className x.name = x.new) :
    ∃ e', remapClass r (.ofArchive x.entry) = .ok e' :=
  exists_remapClass_plain rfl hNew hFits

end PlainClass

/-- A jar of plain classes, with other entries behind them. -/
def plainJar (classes : List PlainClass) (others : List ArchiveEntry) : List ArchiveEntry :=
  classes.map PlainClass.entry ++ others

section PlainJar

variable {classes : List PlainClass} {others : List ArchiveEntry}

theorem forall_mem_plainJar {P : ArchiveEntry → Prop} :
    (∀ e ∈ plainJar classes others, P e) ↔ (∀ x ∈ classes, P x.entry) ∧ ∀ e ∈ others, P e := by
  rw [plainJar, List.forall_mem_append, List.forall_mem_map]

/-- Every class of the jar is renamed. -/
theorem exists_remapClass_plainJar {r : Remapper}
    (hFits : ∀ x ∈ classes, PlainFits x.name x.new)
    (hNew : ∀ x ∈ classes, Descriptor.renameInternal r.className x.name = x.new)
    (hOthers : ∀ e ∈ others, e.kind ≠ .classFile) : ∀ e ∈ plainJar classes others,
      e.kind = .classFile → ∃ e', remapClass r (.ofArchive e) = .ok e' :=
  forall_mem_plainJar.2 ⟨fun x hx _ => x.exists_remapClass (hFits x hx) (hNew x hx),
    fun e he hKind => absurd hKind (hOthers e he)⟩

end PlainJar

end Jarsmith
