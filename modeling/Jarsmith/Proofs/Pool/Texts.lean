import Jarsmith.Proofs.Pool.Known
import Jarsmith.Proofs.Pool.Layout
import Mathlib.Logic.Relation

/-!
# Texts that a pool lacks

How many slots it takes until a pool holds some texts, and that it can be written and read back when
they are there.

* `Pool.lacking` — how many of some texts a pool does not hold.
* `Pool.internText_cases`, `Pool.exists_internText` — a text is found where it stands, or appended
  if there is room.
* `Pool.AddsTexts` — every constant keeps its index, and only some texts come behind them.
* `Pool.Intact` — what the pool of a class file keeps while texts are interned.
* `Pool.Interns` — an edit that does nothing else to the pool.
* `ClassFile.Fits.exists_toBytes` — a class with such a pool is written and read back.
-/

namespace Jarsmith

open Outcome

namespace Pool

variable {p q r : Pool} {s other : String} {i : UInt16} {k : Constant}

/-- A text stands in a pool. -/
def Holds (p : Pool) (s : String) : Prop := .utf8 (ModifiedUtf8.encode s) ∈ p.entries.toList

instance : DecidablePred p.Holds := fun _ => inferInstanceAs (Decidable (_ ∈ p.entries.toList))

/-- How many of some texts a pool does not hold. -/
def lacking (p : Pool) (texts : List String) : Nat := texts.countP fun s => ¬ p.Holds s

theorem lacking_of_holds (h : p.Holds s) : p.lacking [s] = 0 := by
  simp [lacking, h]

theorem lacking_of_not_holds (h : ¬ p.Holds s) : p.lacking [s] = 1 := by
  simp [lacking, h]

theorem lacking_cons {texts : List String} :
    p.lacking (s :: texts) = p.lacking [s] + p.lacking texts := by
  unfold lacking
  rw [List.countP_cons, List.countP_cons, List.countP_nil, Nat.zero_add, Nat.add_comm]

/-- Another text that is appended is not the one that lacks. -/
theorem lacking_append (hOther : ModifiedUtf8.encode s ≠ ModifiedUtf8.encode other) :
    (p.append (.utf8 (ModifiedUtf8.encode other))).lacking [s] = p.lacking [s] := by
  have hHolds : (p.append (.utf8 (ModifiedUtf8.encode other))).Holds s ↔ p.Holds s := by
    unfold Holds
    rw [entries_append, Array.toList_append, List.mem_append]
    refine or_iff_left fun h => hOther ?_
    exact Constant.utf8.inj (List.mem_singleton.1 h)
  by_cases h : p.Holds s
  · rw [lacking_of_holds h, lacking_of_holds (hHolds.2 h)]
  · rw [lacking_of_not_holds h, lacking_of_not_holds (mt hHolds.1 h)]

/-- The table of texts knows what stands in the pool. -/
theorem holds_iff (hKnows : p.Knows) (hSound : p.Sound) :
    p.Holds s ↔ ∃ i, p.utf8s[ModifiedUtf8.encode s]? = some i := by
  constructor
  · intro h
    exact Option.isSome_iff_exists.1 (Std.HashMap.mem_iff_isSome_getElem?.1 (hKnows.utf8s h))
  · rintro ⟨i, hFound⟩
    have hEntry := (find?_eq_some.1 (hSound.utf8s hFound)).1
    exact Array.mem_toList_iff.2 (Array.mem_of_getElem? hEntry)

/-- No text stands in slot 0. -/
theorem ne_zero_of_text (hZero : p.entries[0]? = some .unusable) (hText : p.text i = .ok s) :
    i ≠ 0 := by
  rintro rfl
  obtain ⟨raw, hFind, -⟩ := text_eq_ok.1 hText
  exact nomatch hZero.symm.trans (find?_eq_some.1 hFind).1

/-- A text is found where it stands, or appended if it fits. -/
theorem internText_cases (hKnows : p.Knows) (hSound : p.Sound) (h : Yields (internText s) p i q) :
    q.size = p.size + p.lacking [s] ∧ (q = p ∨ (ModifiedUtf8.encode s).length < 65536 ∧
      q = p.append (.utf8 (ModifiedUtf8.encode s))) := by
  unfold internText at h
  obtain ⟨_, _, hGet, h⟩ := yields_bind.1 h
  obtain ⟨rfl, rfl⟩ := yields_getThe.1 hGet
  split at h
  · rename_i index hFound
    obtain ⟨-, rfl⟩ := yields_pure.1 h
    exact ⟨by rw [lacking_of_holds ((holds_iff hKnows hSound).2 ⟨index, hFound⟩)]; rfl, .inl rfl⟩
  · rename_i hNone
    obtain ⟨_, _, hCount, h⟩ := yields_bind.1 h
    obtain ⟨hShort, rfl⟩ := yields_liftM.1 hCount
    obtain ⟨-, -, rfl⟩ := yields_add.1 h
    have hLacks : ¬ p.Holds s := fun hHolds => by
      obtain ⟨i, hFound⟩ := (holds_iff hKnows hSound).1 hHolds
      exact nomatch hNone.symm.trans hFound
    refine ⟨?_, .inr ⟨(count16_eq_ok.1 hShort).1, rfl⟩⟩
    rw [lacking_of_not_holds hLacks, size, entries_append, Array.size_append]
    rfl

theorem lacking_internText (hKnows : p.Knows) (hSound : p.Sound)
    (hOther : ModifiedUtf8.encode s ≠ ModifiedUtf8.encode other)
    (h : Yields (internText other) p i q) : q.lacking [s] = p.lacking [s] := by
  obtain ⟨-, rfl | ⟨-, rfl⟩⟩ := internText_cases hKnows hSound h
  · rfl
  · exact lacking_append hOther

theorem exists_internText (hKnows : p.Knows) (hSound : p.Sound)
    (hShort : (ModifiedUtf8.encode s).length < 65536) (hRoom : p.size + p.lacking [s] < 65536) :
    ∃ i q, Yields (internText s) p i q := by
  by_cases hHolds : p.Holds s
  · obtain ⟨i, hFound⟩ := (holds_iff hKnows hSound).1 hHolds
    exact ⟨i, p, yields_internText_found hFound⟩
  · rw [lacking_of_not_holds hHolds] at hRoom
    have hNone : p.utf8s[ModifiedUtf8.encode s]? = none := by
      rw [Option.eq_none_iff_forall_ne_some]
      exact fun i hFound => hHolds ((holds_iff hKnows hSound).2 ⟨i, hFound⟩)
    have hMax : p.size < maxSize := by
      unfold maxSize
      omega
    exact ⟨_, _, yields_internText hNone hShort hMax⟩

-- ---------------------------------------------------------------------------
-- Longer pools
-- ---------------------------------------------------------------------------

/-- Every constant of `p` keeps its index in `q`, and only some of the `texts` come behind them. -/
structure AddsTexts (texts : List String) (p q : Pool) : Prop where
  kept : ∀ {j : Nat} {k : Constant}, p.entries[j]? = some k → q.entries[j]? = some k
  fresh : ∀ {j : Nat} {k : Constant}, q.entries[j]? = some k → p.size ≤ j →
    ∃ s ∈ texts, k = .utf8 (ModifiedUtf8.encode s)

namespace AddsTexts

variable {texts more : List String}

theorem trans (h : AddsTexts texts p q) (h' : AddsTexts more q r) :
    AddsTexts (texts ++ more) p r where
  kept hj := h'.kept (h.kept hj)
  fresh {j k} hj hSize := by
    by_cases hOld : j < q.size
    · have hq : q.entries[j]? = some q.entries[j] := Array.getElem?_eq_getElem hOld
      obtain rfl := Option.some.inj ((h'.kept hq).symm.trans hj)
      obtain ⟨s, hs, hText⟩ := h.fresh hq hSize
      exact ⟨s, List.mem_append_left more hs, hText⟩
    · obtain ⟨s, hs, hText⟩ := h'.fresh hj (Nat.le_of_not_lt hOld)
      exact ⟨s, List.mem_append_right texts hs, hText⟩

theorem mono (h : AddsTexts texts p q) (hTexts : texts ⊆ more) : AddsTexts more p q where
  kept := h.kept
  fresh hj hSize :=
    let ⟨s, hs, hText⟩ := h.fresh hj hSize
    ⟨s, hTexts hs, hText⟩

theorem grows (h : AddsTexts texts p q) : p.Grows q where
  entry hj := .inl (h.kept hj)
  fresh hj hSize := by
    obtain ⟨_, -, rfl⟩ := h.fresh hj hSize
    rfl

theorem find? (h : AddsTexts texts p q) (hFind : p.find? i = some k) : q.find? i = some k := by
  rw [find?_eq_some] at hFind ⊢
  exact ⟨h.kept hFind.1, hFind.2⟩

theorem text (h : AddsTexts texts p q) (hText : p.text i = .ok s) : q.text i = .ok s := by
  obtain ⟨raw, hFind, hRaw⟩ := text_eq_ok.1 hText
  exact text_eq_ok.2 ⟨raw, h.find? hFind, hRaw⟩

theorem className (h : AddsTexts texts p q) (hName : p.className i = .ok s) :
    q.className i = .ok s := by
  obtain ⟨name, hFind, hText⟩ := className_eq_ok.1 hName
  exact className_eq_ok.2 ⟨name, h.find? hFind, h.text hText⟩

theorem internText (hKnows : p.Knows) (hSound : p.Sound) (h : Yields (internText s) p i q) :
    AddsTexts [s] p q := by
  obtain ⟨-, rfl | ⟨-, rfl⟩⟩ := internText_cases hKnows hSound h
  · refine ⟨id, fun hj hSize => ?_⟩
    exact absurd (Array.getElem?_eq_some_iff.1 hj).1 (Nat.not_lt.2 hSize)
  · refine ⟨fun hj => ?_, fun hj hSize => ?_⟩
    · rw [entries_append_old (Array.getElem?_eq_some_iff.1 hj).1]
      exact hj
    · rcases entries_append_cases hj with ⟨hOld, -⟩ | ⟨-, rfl⟩ | ⟨-, -, hWide⟩
      · omega
      · exact ⟨s, List.mem_singleton_self s, rfl⟩
      · cases hWide

end AddsTexts

-- ---------------------------------------------------------------------------
-- Pools of class files
-- ---------------------------------------------------------------------------

/-- The pool of a class file: constants that fit, in their order. -/
def Readable (p : Pool) : Prop := ∃ list, ofConstants list = p ∧ ∀ k ∈ list, k.Fits

theorem Readable.append (h : p.Readable) (hFits : k.Fits) : (p.append k).Readable := by
  obtain ⟨list, rfl, hList⟩ := h
  refine ⟨list ++ [k], List.foldl_concat .., fun k' hk => ?_⟩
  rcases List.mem_append.1 hk with hk | hk
  · exact hList k' hk
  · exact List.mem_singleton.1 hk ▸ hFits

/-- A pool of a class file is written and read back, if its size can be said. -/
theorem Readable.toBytes (h : p.Readable) (hSize : p.size < 65536) :
    ∃ bytes, p.toBytes = .ok bytes ∧ ∀ rest, read (bytes ++ rest) = some (p, rest) := by
  obtain ⟨list, rfl, hList⟩ := h
  exact ⟨written list, toBytes_ofConstants hList hSize, fun rest => read_written hList hSize⟩

theorem size_lt_of_toBytes {bytes : Bytes} (h : p.toBytes = .ok bytes) : p.size < 65536 := by
  obtain ⟨count, hCount, -⟩ := bind_ok_iff.1 h
  exact (count16_eq_ok.1 hCount).1

/-- What the pool of a class file keeps while texts are interned: the tables are right, and the pool
can be read back. -/
structure Intact (p : Pool) : Prop where
  sound : p.Sound
  knows : p.Knows
  readable : p.Readable

/-- A text that was interned stands at the index that comes back. -/
theorem Intact.internText (h : p.Intact) (hYields : Yields (internText s) p i q) :
    q.Intact ∧ AddsTexts [s] p q ∧ q.size = p.size + p.lacking [s] ∧ q.text i = .ok s := by
  obtain ⟨hSound, -, hText⟩ := internText_spec h.sound hYields
  obtain ⟨hSize, rfl | ⟨hShort, rfl⟩⟩ := internText_cases h.knows h.sound hYields
  · exact ⟨h, .internText h.knows h.sound hYields, hSize, hText⟩
  · have hFits : (Constant.utf8 (ModifiedUtf8.encode s)).Fits :=
      ⟨hShort, by rw [ModifiedUtf8.units?_encode]; rfl⟩
    exact ⟨⟨hSound, knows_append h.knows, h.readable.append hFits⟩,
      .internText h.knows h.sound hYields, hSize, hText⟩

-- ---------------------------------------------------------------------------
-- Edits that only intern texts
-- ---------------------------------------------------------------------------

/-- Texts were interned, one behind another. -/
def Interned : Pool → Pool → Prop :=
  Relation.ReflTransGen fun p q => ∃ s i, Yields (internText s) p i q

theorem Interned.grows (h : Interned p q) (hSound : p.Sound) : q.Sound ∧ p.Grows q := by
  induction h with
  | refl => exact ⟨hSound, .refl⟩
  | tail _ hStep ih =>
    obtain ⟨s, i, hYields⟩ := hStep
    obtain ⟨hSound₁, hGrows₁⟩ := ih
    obtain ⟨hSound₂, hGrows₂, -⟩ := internText_spec hSound₁ hYields
    exact ⟨hSound₂, hGrows₁.trans_same hGrows₂⟩

theorem Intact.interned (h : p.Intact) (hInterned : Interned p q) : q.Intact := by
  induction hInterned with
  | refl => exact h
  | tail _ hStep ih =>
    obtain ⟨s, i, hYields⟩ := hStep
    exact (ih.internText hYields).1

/-- Whenever the edit succeeds, it only interned texts. -/
def Interns {α : Type} (x : Edit α) : Prop := ∀ p a q, Yields x p a q → Interned p q

namespace Interns

variable {α β : Type} {x : Edit α}

theorem addsNames (h : Interns x) : AddsNames x := fun p a q hSound hYields =>
  (h p a q hYields).grows hSound

protected theorem pure {a : α} : Interns (pure a) := by
  intro p b q h
  obtain ⟨-, rfl⟩ := yields_pure.1 h
  exact .refl

protected theorem bind {f : α → Edit β} (hx : Interns x) (hf : ∀ a, Interns (f a)) :
    Interns (x >>= f) := by
  intro p b q h
  obtain ⟨a, r, hFirst, hRest⟩ := yields_bind.1 h
  exact (hx _ _ _ hFirst).trans (hf a _ _ _ hRest)

protected theorem liftM {y : ClassResult α} : Interns (liftM y) := by
  intro p a q h
  obtain ⟨-, rfl⟩ := yields_liftM.1 h
  exact .refl

protected theorem reading {f : Pool → ClassResult α} : Interns (reading f) := by
  intro p a q h
  obtain ⟨-, rfl⟩ := yields_reading.1 h
  exact .refl

protected theorem internText : Interns (internText s) := fun _ i _ h => .single ⟨s, i, h⟩

protected theorem mapM {f : α → Edit β} (hf : ∀ a, Interns (f a)) (list : List α) :
    Interns (list.mapM f) := by
  induction list with
  | nil => exact .pure
  | cons a more ih =>
    rw [List.mapM_cons]
    exact (hf a).bind fun _ => ih.bind fun _ => .pure

end Interns

end Pool

namespace ClassFile

variable {c : ClassFile} {bytes : Bytes} {n : String}

theorem intact_parse (hParse : parse bytes = .ok c) : c.pool.Intact where
  sound := sound_decode (decode_of_parse hParse)
  knows := knows_decode (decode_of_parse hParse)
  readable := exists_constants hParse

theorem parse_eq_ok : parse bytes = .ok c ↔ decode bytes = .ok c ∧ ∃ n, c.name = .ok n := by
  simp only [parse, bind_ok_iff, pure_ok_iff]
  constructor
  · rintro ⟨c', hDecode, n, hName, rfl⟩
    exact ⟨hDecode, n, hName⟩
  · rintro ⟨hDecode, n, hName⟩
    exact ⟨c, hDecode, n, hName, rfl⟩

theorem fits_parse (hParse : parse bytes = .ok c) : c.Fits :=
  (read_eq_some.1 (decode_eq_ok.1 (decode_of_parse hParse))).1

/-- Only the pool of a class that fits can be in the way of its written form. -/
theorem Fits.toBytes_eq (hFits : c.Fits) : c.toBytes =
    (fun pool => magic ++ putU16 c.minor ++ putU16 c.major ++ pool ++ c.behindPool) <$>
      c.pool.toBytes := by
  cases hPool : c.pool.toBytes with
  | error fault =>
    rw [ClassFile.toBytes, hPool]
    rfl
  | ok pool => exact hFits.toBytes hPool

/-- A class that fits is written and read back, if its pool can be and it has a name. -/
theorem Fits.exists_toBytes (hFits : c.Fits) (hPool : c.pool.Readable) (hSize : c.pool.size < 65536)
    (hName : c.name = .ok n) : ∃ written, c.toBytes = .ok written ∧ parse written = .ok c := by
  obtain ⟨pool, hPool, hRead⟩ := hPool.toBytes hSize
  refine ⟨_, hFits.toBytes hPool, parse_eq_ok.2 ⟨?_, n, hName⟩⟩
  refine decode_eq_ok.2 (read_eq_some.2 ⟨hFits, pool ++ (c.behindPool ++ []), ?_, hRead _⟩)
  simp

/-- What can be written is not too long. -/
theorem canWrite_of_toBytes {written : Bytes} (h : c.toBytes = .ok written) :
    c.pool.size < 65536 ∧ Attribute.CanWrite c.attributes := by
  simp only [toBytes, bind_ok_iff] at h
  obtain ⟨pool, hPool, _, -, _, -, _, -, attributes, hAttributes, -⟩ := h
  exact ⟨Pool.size_lt_of_toBytes hPool, (Attribute.listToBytes_eq_ok.1 hAttributes).1⟩

/-- A class with more texts and with other attributes is written and read back, if its pool and its
attributes are not too long. -/
theorem exists_toBytes_attributes {p : Pool} {texts : List String} {list : List Attribute}
    (hParse : parse bytes = .ok c) (hIntact : p.Intact) (hAdds : Pool.AddsTexts texts c.pool p)
    (hNames : ∀ a ∈ list, a.name ≠ 0) (hSize : p.size < 65536) (hWrite : Attribute.CanWrite list) :
    ∃ written, ({ c with pool := p, attributes := list } : ClassFile).toBytes = .ok written ∧
      parse written = .ok { c with pool := p, attributes := list } := by
  have hc := fits_parse hParse
  have hFits : ({ c with pool := p, attributes := list } : ClassFile).Fits :=
    ⟨⟨hc.interfaces, hc.fields, hc.methods, hWrite.1,
      fun a ha => ⟨hNames a ha, hWrite.2 a ha⟩⟩, hc.thisClass, hc.superClass, hc.interfaceIndices⟩
  obtain ⟨-, n, hName⟩ := parse_eq_ok.1 hParse
  exact hFits.exists_toBytes hIntact.readable hSize (hAdds.className hName)

end ClassFile

end Jarsmith
