import Jarsmith.Proofs.Remap.Written
import Jarsmith.Proofs.Text.Split

/-!
# The simple names of nested classes

A row of nested classes that has a simple name gets the one that follows from the new name of its
class: what stands behind the name of the outer class, or else what stands behind the last `$` and
the number of a local class. A class that is only numbered has none, and its row keeps the old name.

* `IsSimpleFor` — a name by which the source language can call a class.
* `simpleName_of_extends`, `exists_numbered` — the simple name of a class.
* `InnerNamed` — what the name of a row is under the new name of its class.
* `innersNamed_of_apply` — the rows of a renamed class.
-/

namespace Jarsmith

open Outcome Reader
open Pool (Edit Yields Grows Lasting yields_bind yields_pure yields_map yields_liftM
  yields_reading)

-- ---------------------------------------------------------------------------
-- Segments
-- ---------------------------------------------------------------------------

/-- What stands behind the last `/` of the name of a class. -/
def lastSegment (name : String) : String := ((Text.splitLast? '/' name).map (·.2)).getD name

/-- The directory of a class and its last segment. -/
theorem exists_directory (name : String) : '/' ∉ (lastSegment name).toList ∧
    ∃ directory, name.toList = directory ++ (lastSegment name).toList := by
  cases hCut : Text.cutLast? '/' name.toList with
  | none =>
    have hSelf : lastSegment name = name := by
      rw [lastSegment, Text.splitLast?, hCut]
      rfl
    rw [hSelf]
    exact ⟨Text.not_mem_of_cutLast? hCut, [], rfl⟩
  | some cut =>
    obtain ⟨before, after⟩ := cut
    obtain ⟨hAfter, hText⟩ := Text.cutLast?_eq_some.1 hCut
    have hLast : (lastSegment name).toList = after := by
      rw [lastSegment, Text.splitLast?, hCut]
      exact String.toList_ofList
    rw [hLast]
    exact ⟨hAfter, before ++ ['/'], by rw [hText, List.append_assoc]; rfl⟩

/-- What a name ends in without a `/` is the end of its last segment. -/
theorem suffix_lastSegment {name : String} {word : List Char} (hWord : word <:+ name.toList)
    (hSlash : '/' ∉ word) : word <:+ (lastSegment name).toList := by
  cases hCut : Text.cutLast? '/' name.toList with
  | none =>
    rw [lastSegment, Text.splitLast?, hCut]
    exact hWord
  | some cut =>
    obtain ⟨before, after⟩ := cut
    obtain ⟨-, hText⟩ := Text.cutLast?_eq_some.1 hCut
    have hLast : (lastSegment name).toList = after := by
      rw [lastSegment, Text.splitLast?, hCut]
      exact String.toList_ofList
    have hAfter : '/' :: after <:+ name.toList := ⟨before, hText.symm⟩
    rw [hLast]
    -- the shorter of the two ends of the name is an end of the other one
    rcases List.suffix_or_suffix_of_suffix hWord hAfter with hShort | hLong
    · exact (List.suffix_cons_iff.1 hShort).resolve_left fun hEq =>
        hSlash (hEq ▸ List.mem_cons_self)
    · exact absurd (hLong.subset List.mem_cons_self) hSlash

/-- A name that the source language can call a class by: it has no `/` and ends the last segment of
the name of the class. -/
def IsSimpleFor (className name : String) : Prop :=
  '/' ∉ name.toList ∧ name.toList <:+ (lastSegment className).toList

instance (className name : String) : Decidable (IsSimpleFor className name) :=
  inferInstanceAs (Decidable (_ ∧ _))

-- ---------------------------------------------------------------------------
-- Simple names
-- ---------------------------------------------------------------------------

namespace ClassRemapping

/-- The name of the class is the name of the outer class, a `$` and the rest. -/
def Extends (outer : Option String) (inner rest : String) : Prop :=
  ∃ name, outer = some name ∧ inner = name ++ "$" ++ rest

theorem simpleName_of_extends {outer : Option String} {inner rest : String}
    (h : Extends outer inner rest) : simpleName outer inner = rest := by
  obtain ⟨name, rfl, rfl⟩ := h
  rw [simpleName, Option.bind_some, Text.stripPrefix?_append]

theorem isSimpleFor_of_extends {outer : Option String} {inner rest : String}
    (h : Extends outer inner rest) (hSlash : '/' ∉ rest.toList) : IsSimpleFor inner rest := by
  obtain ⟨name, -, rfl⟩ := h
  refine ⟨hSlash, suffix_lastSegment ?_ hSlash⟩
  rw [String.toList_append]
  exact List.suffix_append _ _

/-- The last segment ends in a `$`, a number and the simple name of the class. -/
structure Numbered (segment number simple : String) : Prop where
  front : ∃ front, segment = front ++ "$" ++ number ++ simple
  digits : ∀ c ∈ number.toList, c.isDigit = true
  noDigit : ∀ c, simple.toList.head? = some c → c.isDigit = false
  last : '$' ∉ simple.toList

/-- A class that does not extend the outer one is called as its last segment says. -/
theorem exists_numbered {outer : Option String} {inner : String}
    (hOuter : ∀ rest, ¬ Extends outer inner rest) (hDollar : '$' ∈ (lastSegment inner).toList) :
    ∃ number, Numbered (lastSegment inner) number (simpleName outer inner) := by
  have hStrip : (outer.bind fun outer => Text.stripPrefix? (outer ++ "$") inner) = none := by
    rw [Option.eq_none_iff_forall_ne_some]
    intro rest hRest
    obtain ⟨name, rfl, hRest⟩ := Option.bind_eq_some_iff.1 hRest
    obtain ⟨tail, hTail, rfl⟩ := Option.map_eq_some_iff.1 hRest
    refine hOuter (String.ofList tail) ⟨name, rfl, String.toList_inj.1 ?_⟩
    rw [Text.afterPrefix?_eq_some.1 hTail]
    simp
  obtain ⟨-, directory, hName⟩ := exists_directory inner
  cases hCut : Text.cutLast? '$' (lastSegment inner).toList with
  | none => exact absurd hDollar (Text.not_mem_of_cutLast? hCut)
  | some cut =>
    obtain ⟨front, tail⟩ := cut
    obtain ⟨hTail, hSegment⟩ := Text.cutLast?_eq_some.1 hCut
    have hInner : inner.toList = (directory ++ front) ++ '$' :: tail := by
      rw [hName, hSegment, List.append_assoc]
    have hSimple : (simpleName outer inner).toList = tail.dropWhile Char.isDigit := by
      rw [simpleName, hStrip, Text.splitLast?_append hTail hInner]
      simp
    refine ⟨String.ofList (tail.takeWhile Char.isDigit), ⟨String.ofList front, ?_⟩, ?_, ?_, ?_⟩
    · rw [← String.toList_inj, hSegment]
      simp [hSimple]
    · rw [String.toList_ofList]
      exact List.all_eq_true.1 List.all_takeWhile
    · rw [hSimple]
      intro c hc
      have hHead := List.head?_dropWhile_not Char.isDigit tail
      rwa [hc] at hHead
    · rw [hSimple]
      exact fun hMem => hTail ((List.dropWhile_suffix _).subset hMem)

theorem isSimpleFor_of_numbered {inner number simple : String}
    (h : Numbered (lastSegment inner) number simple) : IsSimpleFor inner simple := by
  obtain ⟨front, hSegment⟩ := h.front
  have hEnd : simple.toList <:+ (lastSegment inner).toList := by
    rw [hSegment, String.toList_append]
    exact List.suffix_append _ _
  exact ⟨fun hMem => (exists_directory inner).1 (hEnd.subset hMem), hEnd⟩

-- ---------------------------------------------------------------------------
-- Rows
-- ---------------------------------------------------------------------------

variable {r : ClassRemapping} {p q : Pool} {c c' : InnerClass}

/-- The name `name'` is `simple`, or the old one if that is empty. -/
def Renames (q : Pool) (name : UInt16) (name' : Option UInt16) (simple : String) : Prop :=
  (simple = "" → name' = some name) ∧
    (simple ≠ "" → ∃ index, name' = some index ∧ q.text index = .ok simple)

/-- What has become of a row of nested classes. -/
structure InnerRenamed (r : ClassRemapping) (q : Pool) (c c' : InnerClass) : Prop where
  inner : c'.inner = c.inner
  outer : c'.outer = c.outer
  access : c'.access = c.access
  unnamed : c.name = none → c'.name = none
  named : ∀ name, c.name = some name → ∃ before after,
    r.source.className c.inner = .ok before ∧ q.className c.inner = .ok after ∧
      (before = after → c'.name = some name) ∧
      (before ≠ after → ∃ outer, c.outer.mapM q.className = .ok outer ∧
        Renames q name c'.name (simpleName outer after))

/-- The names of the classes of a row can be viewed as long as names are added. -/
theorem mapM_className {outer : Option UInt16} {names : Option String} (hGrows : p.Grows q)
    (h : outer.mapM p.className = .ok names) : outer.mapM q.className = .ok names := by
  cases outer with
  | none => exact h
  | some index =>
    rw [Option.mapM_some] at h ⊢
    obtain ⟨name, hName, rfl⟩ := map_ok_iff.1 h
    rw [hGrows.className hName]
    rfl

/-- The last step for a row with a name, whose class was renamed. -/
theorem renames_of_yields {name : UInt16} {simple : String} (hp : r.Reached p) (hFits : c.Fits)
    (hName : c.name = some name)
    (h : Yields (if simple.isEmpty then pure c
      else do pure { c with name := some (← Pool.repoint name simple) }) p c' q) :
    (∃ name', c' = { c with name := name' }) ∧ c'.Fits ∧
      Lasting (fun q => Renames q name c'.name simple) q := by
  split at h
  · rename_i hEmpty
    obtain ⟨rfl, rfl⟩ := yields_pure.1 h
    exact ⟨⟨c.name, rfl⟩, hFits, fun _ _ =>
      ⟨fun _ => hName, fun hSome => absurd (String.isEmpty_iff.1 hEmpty) hSome⟩⟩
  · rename_i hSome
    obtain ⟨index, _, hRepoint, h⟩ := yields_bind.1 h
    obtain ⟨rfl, rfl⟩ := yields_pure.1 h
    obtain ⟨hSound, hGrows, hText⟩ := Pool.repoint_spec hp.sound hRepoint
    have hIndex := (hp.step hSound hGrows).ne_zero hText
    exact ⟨⟨some index, rfl⟩, ⟨hFits.1, hFits.2.1, fun hZero => hIndex (Option.some.inj hZero)⟩,
      fun _ hLater => ⟨fun hEmpty => absurd (String.isEmpty_iff.2 hEmpty) hSome,
        fun _ => ⟨index, rfl, hLater.text hText⟩⟩⟩

theorem remapInnerClass_spec (hp : r.Reached p) (hFits : c.Fits)
    (h : Yields (r.remapInnerClass c) p c' q) :
    r.Reached q ∧ p.Grows q ∧ c'.Fits ∧ Lasting (fun q => r.InnerRenamed q c c') q := by
  obtain ⟨hq, hGrows⟩ := hp.addsNames (r.addsNames_remapInnerClass c) h
  refine ⟨hq, hGrows, ?_⟩
  rw [remapInnerClass] at h
  split at h
  · rename_i name hName
    have hNamed : c.name ≠ none := by
      rw [hName]
      exact Option.some_ne_none name
    obtain ⟨before, _, hAsk, h⟩ := yields_bind.1 h
    obtain ⟨hBefore, rfl⟩ := yields_liftM.1 hAsk
    obtain ⟨after, _, hRead, h⟩ := yields_bind.1 h
    obtain ⟨hAfter, rfl⟩ := yields_reading.1 hRead
    split at h
    · rename_i hSame
      obtain ⟨rfl, rfl⟩ := yields_pure.1 h
      refine ⟨hFits, fun q' hLater =>
        ⟨rfl, rfl, rfl, fun hNone => absurd hNone hNamed, fun i hi => ?_⟩⟩
      exact ⟨before, after, hBefore, hLater.className hAfter, fun _ => hi,
        fun hOther => absurd hSame hOther⟩
    · rename_i hOther
      extract_lets rest at h
      have hRest : ∀ outer, c.outer.mapM p.className = .ok outer → Yields (rest outer) p c' q →
          c'.Fits ∧ Lasting (fun q => r.InnerRenamed q c c') q := fun outer hOuter hRun => by
        obtain ⟨⟨name', rfl⟩, hFits', hNew⟩ := renames_of_yields hp hFits hName hRun
        refine ⟨hFits', fun q' hLater =>
          ⟨rfl, rfl, rfl, fun hNone => absurd hNone hNamed, fun i hi => ?_⟩⟩
        obtain rfl := Option.some.inj (hName.symm.trans hi)
        have hAll := hGrows.trans_same hLater
        exact ⟨before, after, hBefore, hAll.className hAfter, fun hSame => absurd hSame hOther,
          fun _ => ⟨outer, mapM_className hAll hOuter, hNew q' hLater⟩⟩
      clear_value rest
      -- both ways to find the outer class end in the same step
      split at h
      · rename_i index hOuter
        obtain ⟨_, _, hView, h⟩ := yields_bind.1 h
        obtain ⟨name, hRead, rfl⟩ := yields_map.1 hView
        obtain ⟨hText, rfl⟩ := yields_reading.1 hRead
        exact hRest _ (by rw [hOuter, Option.mapM_some, hText]; rfl) h
      · rename_i hOuter
        exact hRest none (by rw [hOuter]; rfl) h
  · rename_i hName
    obtain ⟨rfl, rfl⟩ := yields_pure.1 h
    refine ⟨hFits, fun q' _ => ⟨rfl, rfl, rfl, id, fun i hi => ?_⟩⟩
    exact absurd hi (hName i)

-- ---------------------------------------------------------------------------
-- Classes
-- ---------------------------------------------------------------------------

/-- What has become of an `InnerClasses` attribute. -/
def InnersRenamed (r : ClassRemapping) (q : Pool) (info info' : Bytes) : Prop :=
  ∃ rows rows', InnerClass.table info = .ok rows ∧ InnerClass.table info' = .ok rows' ∧
    List.Forall₂ (r.InnerRenamed q) rows rows'

/-- An attribute keeps its name, and nested classes are renamed in it. -/
def InnersKept (r : ClassRemapping) (q : Pool) (a a' : Attribute) : Prop :=
  a'.name = a.name ∧ (r.source.storedText a.name = .ok AttributeName.innerClasses →
    r.InnersRenamed q a.info a'.info)

theorem remapClassAttribute_inners {a a' : Attribute} (hp : r.Reached p)
    (h : Yields (r.remapClassAttribute a) p a' q) :
    Lasting (fun q => r.InnersKept q a a') q := by
  have hName := name_of_remapClassAttribute h
  obtain ⟨kind, _, hAsk, h⟩ := yields_bind.1 h
  obtain ⟨hKind, rfl⟩ := yields_liftM.1 hAsk
  split at h
  · obtain ⟨rows, _, hAsk, h⟩ := yields_bind.1 h
    obtain ⟨hRows, rfl⟩ := yields_liftM.1 hAsk
    obtain ⟨rows', _, hRun, h⟩ := yields_bind.1 h
    obtain ⟨info, _, hAsk, h⟩ := yields_bind.1 h
    obtain ⟨hInfo, rfl⟩ := yields_liftM.1 hAsk
    obtain ⟨rfl, rfl⟩ := yields_pure.1 h
    have hFits := ((reads_table InnerClass.reads_read).fits_of_front hRows).2
    obtain ⟨-, -, hAll⟩ := Pool.forall₂_of_mapM_same (I := r.Reached)
      (R := fun q c c' => c'.Fits ∧ Lasting (fun q => r.InnerRenamed q c c') q)
      (fun _ _ _ _ hGrows h => ⟨h.1, h.2.mono hGrows⟩)
      (fun _ _ _ _ hp hFits => remapInnerClass_spec hp hFits) hFits hp hRun
    obtain ⟨hLength, rfl⟩ := InnerClass.tableToBytes_eq_ok.1 hInfo
    have hFits' := forall_of_forall₂ hFits (fun _ _ => trivial) hAll fun _ _ _ _ h => h.1
    have hRead := (reads_table InnerClass.reads_read).front_eq ⟨hLength, hFits'⟩
    exact fun q' hLater => ⟨hName, fun _ =>
      ⟨rows, rows', hRows, hRead, hAll.imp fun _ _ h => h.2 q' hLater⟩⟩
  · rename_i hOther
    refine fun q' _ => ⟨hName, fun hInner => absurd ?_ hOther⟩
    exact Except.ok.inj (hKind.symm.trans hInner)

/-- The pass over signatures and annotations leaves nested classes alone. -/
theorem InnersKept.behind {a b a' : Attribute} (h : r.InnersKept q a b)
    (hCommon : r.AnyCommonPass b a') : r.InnersKept q a a' := by
  refine ⟨hCommon.1.trans h.1, fun hInner => ?_⟩
  obtain ⟨-, kind, hKind, -, hSame⟩ := hCommon
  rw [h.1, hInner] at hKind
  rw [hSame (Except.ok.inj hKind ▸ by decide)]
  exact h.2 hInner

theorem remapRest_inners {methods : List BootstrapMethod} {c c' : ClassFile}
    (hSound : r.source.Sound) (hZero : r.source.entries[0]? = some .unusable)
    (h : Yields (r.remapRest methods c) r.source c' q) :
    List.Forall₂ (r.InnersKept q) c.attributes c'.attributes := by
  obtain ⟨_, p, hPool, h⟩ := yields_bind.1 h
  obtain ⟨fields, p₁, hFields, h⟩ := yields_bind.1 h
  obtain ⟨methods', p₂, hMethods, h⟩ := yields_bind.1 h
  obtain ⟨mid, p₃, hAttributes, h⟩ := yields_bind.1 h
  obtain ⟨attributes, p₄, hCommon, h⟩ := yields_bind.1 h
  obtain ⟨rfl, rfl⟩ := yields_pure.1 h
  obtain ⟨hp₁, -, -⟩ := Pool.forall₂_of_mapM_same (P := fun _ => True)
    (fun _ _ _ _ hGrows h => h.mono hGrows) (fun _ _ _ _ hp _ => remapField_kept hp)
    (fun _ _ => trivial) (reached_remapPool hSound hZero hPool) hFields
  obtain ⟨hp₂, -, -⟩ := Pool.forall₂_of_mapM_same (P := fun _ => True)
    (fun _ _ _ _ hGrows h => h.mono hGrows) (fun _ _ _ _ hp _ => remapMethod_kept hp)
    (fun _ _ => trivial) hp₁ hMethods
  obtain ⟨hp₃, -, hOwn⟩ := Pool.forall₂_of_mapM_same (I := r.Reached) (P := fun _ => True)
    (R := fun q a b => Lasting (fun q => r.InnersKept q a b) q)
    (fun _ _ _ _ hGrows h => h.mono hGrows) (fun a p b q hp _ hRun => by
      obtain ⟨hq, hGrows⟩ := hp.addsNames (r.addsNames_remapClassAttribute a) hRun
      exact ⟨hq, hGrows, remapClassAttribute_inners hp hRun⟩) (fun _ _ => trivial) hp₂ hAttributes
  obtain ⟨-, hGrows, hAll⟩ := remapCommon_behind_any hp₃ hOwn hCommon
  refine hAll.imp ?_
  rintro a a' ⟨b, hab, hPass⟩
  exact (hab _ hGrows).behind hPass

end ClassRemapping

-- ---------------------------------------------------------------------------
-- Rows under the new names
-- ---------------------------------------------------------------------------

open ClassRemapping

/-- What has become of a row of nested classes: a row without a simple name has none, and a row of a
class that keeps its name stays. Another row gets what stands behind the name of the outer class, or
else what stands behind the last `$` of the last segment and the number there, if any. -/
structure InnerNamed (className : String → String) (old new : Pool) (c c' : InnerClass) :
    Prop where
  inner : c'.inner = c.inner
  outer : c'.outer = c.outer
  access : c'.access = c.access
  unnamed : c.name = none → c'.name = none
  named : ∀ name, c.name = some name → ∃ before after, old.className c.inner = .ok before ∧
    new.className c.inner = .ok after ∧ after = Descriptor.renameInternal className before ∧
      (after = before → c'.name = some name) ∧
      (after ≠ before → ∃ outer, c.outer.mapM new.className = .ok outer ∧
        (∀ rest, Extends outer after rest → Renames new name c'.name rest ∧
          ('/' ∉ rest.toList → IsSimpleFor after rest)) ∧
        ((∀ rest, ¬ Extends outer after rest) → '$' ∈ (lastSegment after).toList →
          ∃ number simple, Numbered (lastSegment after) number simple ∧
            Renames new name c'.name simple ∧ IsSimpleFor after simple))

/-- An attribute keeps its name, and nested classes are called after their new names in it. -/
def InnersNamed (className : String → String) (old new : Pool) (a a' : Attribute) : Prop :=
  a'.name = a.name ∧ (old.storedText a.name = .ok AttributeName.innerClasses →
    ∃ rows rows', InnerClass.table a.info = .ok rows ∧ InnerClass.table a'.info = .ok rows' ∧
      List.Forall₂ (InnerNamed className old new) rows rows')

theorem innerNamed_of_renamed {r : Remapper} {owner : String} {methods : List BootstrapMethod}
    {c c' : ClassFile} {row row' : InnerClass} (hClass : r.ClassRenamed owner methods c c')
    (h : InnerRenamed ⟨r, c.pool, owner⟩ c'.pool row row') :
    InnerNamed r.className c.pool c'.pool row row' := by
  refine ⟨h.inner, h.outer, h.access, h.unnamed, fun name hName => ?_⟩
  obtain ⟨before, after, hBefore, hAfter, hSame, hOther⟩ := h.named name hName
  have hNew : after = Descriptor.renameInternal r.className before := by
    obtain ⟨text, hFind, -⟩ := Pool.className_eq_ok.1 hBefore
    obtain ⟨_, hOld, hNew⟩ := hClass.constants _ _ hFind
    obtain rfl := Except.ok.inj (hBefore.symm.trans hOld)
    exact Except.ok.inj (hAfter.symm.trans hNew)
  refine ⟨before, after, hBefore, hAfter, hNew, fun hEq => hSame hEq.symm, fun hNe => ?_⟩
  obtain ⟨outer, hOuter, hRenames⟩ := hOther hNe.symm
  refine ⟨outer, hOuter, fun rest hExtends => ?_, fun hNot hDollar => ?_⟩
  · rw [simpleName_of_extends hExtends] at hRenames
    exact ⟨hRenames, isSimpleFor_of_extends hExtends⟩
  · obtain ⟨number, hNumbered⟩ := exists_numbered hNot hDollar
    exact ⟨number, _, hNumbered, hRenames, isSimpleFor_of_numbered hNumbered⟩

/-- What a renaming makes of the rows of nested classes. -/
theorem ClassFile.innersKept_of_apply {bytes : Bytes} {c c' : ClassFile} {r : Remapper}
    (hRead : decode bytes = .ok c) (hApply : r.apply c = .ok c') :
    ∃ owner methods, r.ClassRenamed owner methods c c' ∧
      List.Forall₂ (InnersKept ⟨r, c.pool, owner⟩ c'.pool) c.attributes c'.attributes := by
  obtain ⟨owner, methods, edited, hOwner, hRun, hEq⟩ := remapRest_of_apply hApply
  obtain ⟨owner', methods', hOwner', -, hClass⟩ := classRenamed_of_apply hRead hApply
  obtain rfl := Except.ok.inj (hOwner.symm.trans hOwner')
  have hInners := remapRest_inners (r := ⟨r, c.pool, owner⟩) (sound_decode hRead)
    (slotZero_decode hRead) hRun
  refine ⟨owner, methods', hClass, ?_⟩
  rw [hEq]
  exact hInners

/-- A short text can be put in the place of another one as long as there is room. -/
theorem exists_repoint {p : Pool} {i : UInt16} {old s : String} (hOld : p.text i = .ok old)
    (hShort : (ModifiedUtf8.encode s).length < 65536) (hRoom : p.size < Pool.maxSize) :
    ∃ index q, Yields (Pool.repoint i s) p index q := by
  have hIntern : ∃ index q, Yields (Pool.internText s) p index q := by
    cases hFound : p.utf8s[ModifiedUtf8.encode s]? with
    | none => exact ⟨_, _, Pool.yields_internText hFound hShort hRoom⟩
    | some index => exact ⟨index, p, Pool.yields_internText_found hFound⟩
  obtain ⟨index, q, hIntern⟩ := hIntern
  by_cases hSame : old = s
  · refine ⟨i, p, yields_bind.2 ⟨old, p, yields_reading.2 ⟨hOld, rfl⟩, ?_⟩⟩
    rw [if_pos hSame]
    rfl
  · refine ⟨index, q, yields_bind.2 ⟨old, p, yields_reading.2 ⟨hOld, rfl⟩, ?_⟩⟩
    rw [if_neg hSame]
    exact hIntern

-- ---------------------------------------------------------------------------
-- A class with one row
-- ---------------------------------------------------------------------------

/-- The bytes of a class `a` that names itself as a class within `o`, called `b`. -/
def nestedBytes : Bytes :=
  [0xCA, 0xFE, 0xBA, 0xBE, 0, 0, 0, 52, 0, 7, 1, 0, 1, 97, 7, 0, 1, 1, 0, 1, 111, 7, 0, 3,
    1, 0, 12, 73, 110, 110, 101, 114, 67, 108, 97, 115, 115, 101, 115, 1, 0, 1, 98,
    0, 0x20, 0, 2, 0, 0, 0, 0, 0, 0, 0, 0, 0, 1, 0, 5, 0, 0, 0, 10, 0, 1, 0, 2, 0, 4, 0, 6, 0, 0]

/-- What `nestedBytes` hold. -/
def nested : ClassFile :=
  ⟨0, 52, Pool.ofConstants [.utf8 [97], .classRef 1, .utf8 [111], .classRef 3,
      .utf8 [73, 110, 110, 101, 114, 67, 108, 97, 115, 115, 101, 115], .utf8 [98]],
    0x20, 2, none, [], [], [], [⟨5, [0, 1, 0, 2, 0, 4, 0, 6, 0, 0]⟩]⟩

/-- Calls the class `a` something else. -/
def calling (new : String) : Remapper :=
  ⟨fun name => if name = "a" then some new else none, fun _ _ => none, fun _ _ => none,
    fun _ _ => none, fun _ _ _ => none⟩

/-- The only row of nested classes calls the class `inner` `name`. -/
def Calls (c : ClassFile) (inner name : String) : Prop :=
  ∃ a row index, c.attributes = [a] ∧ InnerClass.table a.info = .ok [row] ∧
    c.pool.className row.inner = .ok inner ∧ row.name = some index ∧ c.pool.text index = .ok name

section Nested

variable (new : String) (hOther : new ≠ "a") (hShort : (ModifiedUtf8.encode new).length < 65536)
  (hSimple : (ModifiedUtf8.encode (ClassRemapping.simpleName (some "o") new)).length < 65536)
  (hFresh : Constant.utf8 (ModifiedUtf8.encode new) ∉ nested.pool.entries.toList)

include hOther hShort hSimple hFresh

theorem nested_apply : ∃ c', (calling new).apply nested = .ok c' := by
  let p := nested.pool
  let p₁ := (p.append (.utf8 (ModifiedUtf8.encode new))).replaced 2 (.classRef 1) (.classRef 7)
  let r : ClassRemapping := ⟨calling new, p, "a"⟩
  have hRead : ClassFile.decode nestedBytes = .ok nested := rfl
  have hSound := ClassFile.sound_decode hRead
  have hNew : Descriptor.renameInternal (calling new).className "a" = new := rfl
  have hRoom : p.size < Pool.maxSize := by decide
  obtain ⟨hSound₁, hSlot⟩ : p₁.Sound ∧ Yields (r.remapConstant [] 2) p () p₁ :=
    remapConstant_new (r := r) [] hSound rfl rfl hNew hOther hShort
      hFresh hRoom
  have hPool : Yields (r.remapPool []) p () p₁ := by
    show Yields ([1, 2, 3, 4, 5, 6].forM (r.remapConstant [])) p () p₁
    exact yields_bind.2 ⟨(), p, rfl, yields_bind.2 ⟨(), p₁, hSlot, rfl⟩⟩
  obtain ⟨-, hKeeps, hBecomes⟩ := remapPool_spec (r := r) hSound hPool
  have hInner : p₁.className 2 = .ok new := by
    obtain ⟨old, hOld, hAfter⟩ := hBecomes 2 (.classRef 1) rfl
    obtain rfl : "a" = old := Except.ok.inj hOld
    exact hAfter
  have hOuter : p₁.className 4 = .ok "o" := by
    obtain ⟨old, hOld, hAfter⟩ := hBecomes 4 (.classRef 3) rfl
    obtain rfl : "o" = old := Except.ok.inj hOld
    exact hAfter
  have hName : p₁.text 6 = .ok "b" := hKeeps.text (s := "b") rfl
  have hSize₁ : p₁.size = 8 := rfl
  have hRoom₁ : p₁.size < Pool.maxSize := by
    rw [hSize₁]
    decide
  have hRow : ∃ row' p₂, Yields (r.remapInnerClass ⟨2, some 4, some 6, 0⟩) p₁ row' p₂ := by
    have hLast : ∃ row' p₂, Yields (if (simpleName (some "o") new).isEmpty
        then pure ⟨2, some 4, some 6, 0⟩
        else do pure ⟨2, some 4, some (← Pool.repoint 6 (simpleName (some "o") new)), 0⟩)
          p₁ (row' : InnerClass) p₂ := by
      split
      · exact ⟨_, p₁, rfl⟩
      · obtain ⟨index, p₂, hRepoint⟩ := exists_repoint hName hSimple hRoom₁
        exact ⟨_, p₂, yields_bind.2 ⟨index, p₂, hRepoint, rfl⟩⟩
    obtain ⟨row', p₂, hLast⟩ := hLast
    refine ⟨row', p₂, ?_⟩
    refine yields_bind.2 ⟨"a", p₁, yields_liftM.2 ⟨rfl, rfl⟩, ?_⟩
    refine yields_bind.2 ⟨new, p₁, yields_reading.2 ⟨hInner, rfl⟩, ?_⟩
    rw [if_neg hOther.symm]
    exact yields_bind.2 ⟨some "o", p₁, yields_map.2 ⟨"o", yields_reading.2 ⟨hOuter, rfl⟩, rfl⟩,
      hLast⟩
  obtain ⟨row', p₂, hRow⟩ := hRow
  have hRest : Yields (r.remapRest [] nested) p
      { nested with attributes := [⟨5, tableBytes InnerClass.toBytes [row']⟩] } p₂ := by
    refine yields_bind.2 ⟨(), p₁, hPool, yields_bind.2 ⟨[], p₁, rfl, ?_⟩⟩
    refine yields_bind.2 ⟨[], p₁, rfl, ?_⟩
    refine yields_bind.2 ⟨[⟨5, tableBytes InnerClass.toBytes [row']⟩], p₂, ?_, ?_⟩
    · refine yields_bind.2 ⟨_, p₂, ?_, rfl⟩
      refine yields_bind.2 ⟨AttributeName.innerClasses, p₁, yields_liftM.2 ⟨rfl, rfl⟩, ?_⟩
      refine yields_bind.2 ⟨[⟨2, some 4, some 6, 0⟩], p₁, yields_liftM.2 ⟨rfl, rfl⟩, ?_⟩
      refine yields_bind.2 ⟨[row'], p₂, yields_bind.2 ⟨row', p₂, hRow, rfl⟩, ?_⟩
      exact yields_bind.2 ⟨_, p₂, yields_liftM.2 ⟨rfl, rfl⟩, rfl⟩
    · exact yields_bind.2 ⟨_, p₂, rfl, rfl⟩
  exact ⟨_, bind_ok_iff.2 ⟨"a", rfl, bind_ok_iff.2 ⟨[], rfl,
    ClassFile.edit_eq_ok.2 ⟨_, p₂, hRest, rfl⟩⟩⟩⟩

/-- What the only row of nested classes says under the new name. -/
theorem nested_calls : ∃ c', (calling new).apply nested = .ok c' ∧
    Calls c' new (if simpleName (some "o") new = "" then "b" else simpleName (some "o") new) := by
  obtain ⟨c', hApply⟩ := nested_apply new hOther hShort hSimple hFresh
  have hRead : ClassFile.decode nestedBytes = .ok nested := rfl
  obtain ⟨owner, methods, hClass, hAll⟩ := ClassFile.innersKept_of_apply hRead hApply
  obtain ⟨a, _, hKept, hNoMore, hAttributes⟩ := List.forall₂_cons_left_iff.1 hAll
  obtain rfl := List.forall₂_nil_left_iff.1 hNoMore
  obtain ⟨rows, rows', hRows, hRows', hRenamed⟩ := hKept.2 rfl
  obtain rfl : [⟨2, some 4, some 6, 0⟩] = rows := Except.ok.inj hRows
  obtain ⟨row, _, hRow, hNoMore, rfl⟩ := List.forall₂_cons_left_iff.1 hRenamed
  obtain rfl := List.forall₂_nil_left_iff.1 hNoMore
  obtain ⟨before, after, hBefore, hAfter, -, hOther'⟩ := hRow.named 6 rfl
  obtain rfl : "a" = before := Except.ok.inj hBefore
  obtain rfl : new = after := by
    obtain ⟨old, hOld, hNew⟩ := hClass.constants 2 (.classRef 1) rfl
    obtain rfl : "a" = old := Except.ok.inj hOld
    exact Except.ok.inj (hNew.symm.trans hAfter)
  obtain ⟨outer, hOuter, hRenames⟩ := hOther' hOther.symm
  have hOuterName : c'.pool.className 4 = .ok "o" := by
    obtain ⟨old, hOld, hNew⟩ := hClass.constants 4 (.classRef 3) rfl
    obtain rfl : "o" = old := Except.ok.inj hOld
    exact hNew
  obtain rfl : some "o" = outer := by
    have hSome : (some 4 : Option UInt16).mapM c'.pool.className = .ok outer := hOuter
    rw [Option.mapM_some, hOuterName] at hSome
    exact Except.ok.inj hSome
  have hOldName : c'.pool.text 6 = .ok "b" :=
    Pool.text_eq_ok.2 ⟨[98], hClass.constants 6 (.utf8 [98]) rfl, rfl⟩
  have hInner : c'.pool.className row.inner = .ok new := by
    rw [hRow.inner]
    exact hAfter
  split
  · rename_i hEmpty
    exact ⟨c', hApply, a, row, 6, hAttributes, hRows', hInner, hRenames.1 hEmpty, hOldName⟩
  · rename_i hSome
    obtain ⟨index, hIndex, hText⟩ := hRenames.2 hSome
    exact ⟨c', hApply, a, row, index, hAttributes, hRows', hInner, hIndex, hText⟩

end Nested

/-- **Nested classes are called after their new names.** The attributes of a renamed class keep
their places, and every row of nested classes has the simple name that the new name of its class
says. -/
theorem innersNamed_of_apply {bytes : Bytes} {c c' : ClassFile} {r : Remapper}
    (hRead : ClassFile.decode bytes = .ok c) (hApply : r.apply c = .ok c') :
    List.Forall₂ (InnersNamed r.className c.pool c'.pool) c.attributes c'.attributes := by
  obtain ⟨owner, methods, hClass, hAll⟩ := ClassFile.innersKept_of_apply hRead hApply
  refine hAll.imp fun a a' hKept => ⟨hKept.1, fun hInner => ?_⟩
  obtain ⟨rows, rows', hRows, hRows', hRenamed⟩ := hKept.2 hInner
  exact ⟨rows, rows', hRows, hRows', hRenamed.imp fun _ _ => innerNamed_of_renamed hClass⟩

/-- Under the name `p/O$1x`, the class is called `x`. -/
theorem innersNamed_nested : ∃ c c', ClassFile.decode nestedBytes = .ok c ∧
    (calling "p/O$1x").apply c = .ok c' ∧
      List.Forall₂ (InnersNamed (calling "p/O$1x").className c.pool c'.pool) c.attributes
        c'.attributes := by
  have hRead : ClassFile.decode nestedBytes = .ok nested := rfl
  obtain ⟨c', hApply⟩ := nested_apply "p/O$1x" (by decide) (by decide) (by decide)
    (by decide)
  exact ⟨nested, c', hRead, hApply, innersNamed_of_apply hRead hApply⟩

/-- A class that is only numbered keeps the name that it had. A class that moves out of the outer
class is called by its whole name, and what stands behind the name of the outer class may have
segments of its own. -/
theorem not_isSimpleFor_nested : ClassFile.decode nestedBytes = .ok nested ∧
    (∃ c', (calling "p/O$1").apply nested = .ok c' ∧ Calls c' "p/O$1" "b" ∧
      ¬ IsSimpleFor "p/O$1" "b") ∧
    (∃ c', (calling "p/A").apply nested = .ok c' ∧ Calls c' "p/A" "p/A" ∧
      ¬ IsSimpleFor "p/A" "p/A") ∧
    ∃ c', (calling "o$x/y").apply nested = .ok c' ∧ Calls c' "o$x/y" "x/y" ∧
      ¬ IsSimpleFor "o$x/y" "x/y" := by
  have hNumbered := nested_calls "p/O$1" (by decide) (by decide) (by decide) (by decide)
  have hWhole := nested_calls "p/A" (by decide) (by decide) (by decide) (by decide)
  have hRest := nested_calls "o$x/y" (by decide) (by decide) (by decide) (by decide)
  refine ⟨rfl, ?_, ?_, ?_⟩
  · obtain ⟨c', hApply, hCalls⟩ := hNumbered
    exact ⟨c', hApply, hCalls, by decide⟩
  · obtain ⟨c', hApply, hCalls⟩ := hWhole
    exact ⟨c', hApply, hCalls, by decide⟩
  · obtain ⟨c', hApply, hCalls⟩ := hRest
    exact ⟨c', hApply, hCalls, by decide⟩

end Jarsmith
