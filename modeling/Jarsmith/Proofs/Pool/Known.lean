import Jarsmith.Proofs.ClassFile.RoundTrip
import Jarsmith.Proofs.Pool.Edit

/-!
# Edits that find everything

A pool that was read knows the texts and pairs that stand in it, so what is interned again is found
where it stands. An edit that finds everything leaves the pool as it is.

* `Knows` — the tables know every text and every pair.
* `ClassFile.knows_decode` — the pool of every class file does.
* `ClassFile.slotZero_decode` — slot 0 of every class file cannot be used.
* `NamesDistinct`, `hasStandardPairs` — when a text or a pair is found at its own slot.
* `Stays` — an edit that leaves the pool as it is, whenever it succeeds.
-/

namespace Jarsmith

open Outcome Reader

namespace Pool

variable {pool : Pool} {index i j : UInt16} {c : Constant}

-- ---------------------------------------------------------------------------
-- Complete tables
-- ---------------------------------------------------------------------------

/-- The lookup tables know every text and every pair that stands in the pool. -/
structure Knows (pool : Pool) : Prop where
  utf8s : ∀ {raw}, .utf8 raw ∈ pool.entries.toList → raw ∈ pool.utf8s
  nameAndTypes : ∀ {name descriptor}, .nameAndType name descriptor ∈ pool.entries.toList →
    (name, descriptor) ∈ pool.nameAndTypes

theorem knows_empty : empty.Knows where
  utf8s h := by simp [empty] at h
  nameAndTypes h := by simp [empty] at h

/-- What stands in a longer pool stood there before, or is what was appended. -/
theorem mem_entries_append {k : Constant} (hk : k ≠ .unusable)
    (h : k ∈ (pool.append c).entries.toList) : k ∈ pool.entries.toList ∨ k = c := by
  rw [entries_append, Array.toList_append, List.mem_append] at h
  refine h.imp_right fun h => ?_
  unfold slotsOf at h
  split at h <;> simp_all

theorem knows_append (hKnows : pool.Knows) : (pool.append c).Knows where
  utf8s {raw} hMem := by
    rw [(pool.tables_append c).1]
    obtain hOld | rfl := mem_entries_append (by simp) hMem
    · have hKnown := hKnows.utf8s hOld
      cases c <;> simp [learn, hKnown]
    · simp [learn]
  nameAndTypes {name descriptor} hMem := by
    rw [(pool.tables_append c).2.2]
    obtain hOld | rfl := mem_entries_append (by simp) hMem
    · have hKnown := hKnows.nameAndTypes hOld
      cases c <;> simp [learn, hKnown]
    · simp [learn]

theorem knows_ofConstants (list : List Constant) : (ofConstants list).Knows := by
  have hFold : ∀ pool : Pool, pool.Knows → (list.foldl append pool).Knows := by
    induction list with
    | nil => exact fun _ hKnows => hKnows
    | cons c more ih => exact fun _ hKnows => ih _ (knows_append hKnows)
  exact hFold empty knows_empty

end Pool

/-- The tables of every class file know all of its texts and pairs. -/
theorem ClassFile.knows_decode {bytes : Bytes} {c : ClassFile} (hRead : decode bytes = .ok c) :
    c.pool.Knows := by
  obtain ⟨list, hList, -⟩ := constants_of_read (decode_eq_ok.1 hRead)
  rw [← hList]
  exact Pool.knows_ofConstants list

/-- Slot 0 of every class file cannot be used. -/
theorem ClassFile.slotZero_decode {bytes : Bytes} {c : ClassFile} (hRead : decode bytes = .ok c) :
    c.pool.entries[0]? = some .unusable := by
  obtain ⟨list, hList, -⟩ := constants_of_read (decode_eq_ok.1 hRead)
  rw [← hList, ← Array.getElem?_toList, Pool.entries_ofConstants]
  rfl

namespace Pool

open Outcome

variable {α β : Type} {p : Pool} {i j : UInt16}

-- ---------------------------------------------------------------------------
-- Names that are found at their own slot
-- ---------------------------------------------------------------------------

/-- No text and no pair stands in two slots. -/
def NamesDistinct (pool : Pool) : Prop := (pool.entries.toList.filter Constant.isName).Nodup

instance (pool : Pool) : Decidable pool.NamesDistinct :=
  inferInstanceAs (Decidable (List.Nodup _))

/-- Whether the text at `index` has the written form in which texts are interned. -/
def isStandard (pool : Pool) (index : UInt16) : Bool :=
  match pool.find? index, pool.text index with
  | some (.utf8 raw), .ok s => raw = ModifiedUtf8.encode s
  | _, _ => true

/-- Whether the names and descriptors of all pairs have the written form in which texts are
interned. -/
def hasStandardPairs (pool : Pool) : Bool :=
  pool.entries.toList.all fun
    | .nameAndType name descriptor => pool.isStandard name && pool.isStandard descriptor
    | _ => true

theorem find?_of_isStandard {s : String} (hStandard : p.isStandard i = true)
    (hText : p.text i = .ok s) : p.find? i = some (.utf8 (ModifiedUtf8.encode s)) := by
  obtain ⟨raw, hFind, -⟩ := text_eq_ok.1 hText
  simp only [isStandard, hFind, hText, decide_eq_true_eq] at hStandard
  rw [hFind, hStandard]

theorem NamesDistinct.eq_of_find? {k : Constant} (hDistinct : p.NamesDistinct)
    (hName : k.isName = true) (hi : p.find? i = some k) (hj : p.find? j = some k) : i = j := by
  have hPairwise := List.pairwise_filter.1 hDistinct
  obtain ⟨hi, hAt⟩ := Array.getElem?_eq_some_iff.1 (find?_eq_some.1 hi).1
  obtain ⟨hj, hAt'⟩ := Array.getElem?_eq_some_iff.1 (find?_eq_some.1 hj).1
  -- an earlier slot with the same name contradicts distinctness
  have hNot : ∀ {m n : Nat} (hm : m < p.entries.size) (hn : n < p.entries.size),
      p.entries[m] = k → p.entries[n] = k → ¬ m < n := by
    intro m n hm hn hmk hnk hLt
    have hNe := List.pairwise_iff_getElem.1 hPairwise m n hm hn hLt
    simp only [Array.getElem_toList, hmk, hnk] at hNe
    exact hNe hName hName rfl
  have := hNot hi hj hAt hAt'
  have := hNot hj hi hAt' hAt
  exact UInt16.toNat_inj.1 (by omega)

section Interning

variable (hSound : p.Sound) (hKnows : p.Knows) (hDistinct : p.NamesDistinct)

include hSound hKnows hDistinct

/-- A text that stands in the pool in standard form is found there. -/
theorem yields_internText_known {s : String}
    (hText : p.find? i = some (.utf8 (ModifiedUtf8.encode s))) : Yields (internText s) p i p := by
  have hMem := Array.mem_toList_iff.2 (Array.mem_of_getElem? (find?_eq_some.1 hText).1)
  obtain ⟨j, hj⟩ := Option.isSome_iff_exists.1
    (Std.HashMap.mem_iff_isSome_getElem?.1 (hKnows.utf8s hMem))
  obtain rfl := hDistinct.eq_of_find? rfl hText (hSound.utf8s hj)
  exact yields_internText_found hj

/-- A pair that stands in the pool, of texts in standard form, is found there. -/
theorem yields_internNameAndType_known {s t : String} (hStandard : p.hasStandardPairs = true)
    (hPair : p.nameAndType i = .ok (s, t)) : Yields (internNameAndType s t) p i p := by
  obtain ⟨name, descriptor, hFind, hName, hDescriptor⟩ := nameAndType_eq_ok.1 hPair
  have hMem := Array.mem_toList_iff.2 (Array.mem_of_getElem? (find?_eq_some.1 hFind).1)
  obtain ⟨hName', hDescriptor'⟩ : p.isStandard name = true ∧ p.isStandard descriptor = true := by
    simpa using List.all_eq_true.1 hStandard _ hMem
  obtain ⟨j, hj⟩ := Option.isSome_iff_exists.1
    (Std.HashMap.mem_iff_isSome_getElem?.1 (hKnows.nameAndTypes hMem))
  obtain rfl := hDistinct.eq_of_find? rfl hFind (hSound.nameAndTypes hj)
  unfold internNameAndType
  refine yields_bind.2 ⟨name, p, ?_, yields_bind.2 ⟨descriptor, p, ?_, ?_⟩⟩
  · exact yields_internText_known hSound hKnows hDistinct (find?_of_isStandard hName' hName)
  · exact yields_internText_known hSound hKnows hDistinct
      (find?_of_isStandard hDescriptor' hDescriptor)
  · refine yields_bind.2 ⟨p, p, yields_getThe.2 ⟨rfl, rfl⟩, ?_⟩
    rw [hj]
    exact yields_pure.2 ⟨rfl, rfl⟩

end Interning

/-- A constant that no table knows, in its own place. -/
theorem replaced_self {c : Constant} (hFind : p.find? i = some c) (hName : c.isName = false)
    (hClass : ∀ name, c ≠ .classRef name) : p.replaced i c c = p := by
  have hEntries : p.entries.setIfInBounds i.toNat c = p.entries := by
    obtain ⟨hLt, hAt⟩ := Array.getElem?_eq_some_iff.1 (find?_eq_some.1 hFind).1
    rw [← hAt, Array.setIfInBounds_def, dif_pos hLt, Array.set_getElem_self]
  cases c with
  | classRef name => exact absurd rfl (hClass name)
  | utf8 raw => cases hName
  | nameAndType name descriptor => cases hName
  | _ => simp only [replaced, hEntries, learn, forget]

-- ---------------------------------------------------------------------------
-- Edits that leave the pool as it is
-- ---------------------------------------------------------------------------

/-- Whenever the edit succeeds on `p`, it gives `a` and leaves `p` as it is. -/
def Stays (x : Edit α) (p : Pool) (a : α) : Prop := ∀ b q, Yields x p b q → b = a ∧ q = p

namespace Stays

theorem of_yields {x : Edit α} {a : α} (h : Yields x p a p) : Stays x p a := by
  intro b q h'
  rw [Yields, h, Prod.mk.injEq, Except.ok.injEq] at h'
  exact ⟨h'.1.symm, h'.2.symm⟩

protected theorem pure {a : α} : Stays (pure a) p a := of_yields (yields_pure.2 ⟨rfl, rfl⟩)

protected theorem throw {e : ClassFault} {a : α} : Stays (throw e) p a :=
  fun _ _ h => absurd h not_yields_throw

protected theorem bind {x : Edit α} {f : α → Edit β} {a : α} {b : β} (hx : Stays x p a)
    (hf : Stays (f a) p b) : Stays (x >>= f) p b := by
  intro c q h
  obtain ⟨d, r, hFirst, hRest⟩ := yields_bind.1 h
  obtain ⟨rfl, rfl⟩ := hx _ _ hFirst
  exact hf _ _ hRest

protected theorem map {x : Edit α} {f : α → β} {a : α} (hx : Stays x p a) :
    Stays (f <$> x) p (f a) := by
  intro c q h
  obtain ⟨b, hFirst, rfl⟩ := yields_map.1 h
  obtain ⟨rfl, rfl⟩ := hx _ _ hFirst
  exact ⟨rfl, rfl⟩

/-- A step that asks, before a step that stays for every answer. -/
protected theorem asking {x : ClassResult α} {f : α → Edit β} {b : β}
    (hf : ∀ a, x = .ok a → Stays (f a) p b) : Stays (liftM x >>= f) p b := by
  intro c q h
  obtain ⟨a, r, hFirst, hRest⟩ := yields_bind.1 h
  obtain ⟨ha, rfl⟩ := yields_liftM.1 hFirst
  exact hf a ha _ _ hRest

protected theorem reading {x : Pool → ClassResult α} {f : α → Edit β} {b : β}
    (hf : ∀ a, x p = .ok a → Stays (f a) p b) : Stays (reading x >>= f) p b := by
  intro c q h
  obtain ⟨a, r, hFirst, hRest⟩ := yields_bind.1 h
  obtain ⟨ha, rfl⟩ := yields_reading.1 hFirst
  exact hf a ha _ _ hRest

protected theorem repoint {s : String} (hText : p.text i = .ok s) : Stays (repoint i s) p i :=
  .reading fun old hOld => by
    rw [if_pos (Except.ok.inj (hOld.symm.trans hText))]
    exact .pure

protected theorem replaceAt {c : Constant} (hFind : p.find? i = some c) (hName : c.isName = false)
    (hClass : ∀ name, c ≠ .classRef name) : Stays (replaceAt i c) p () := by
  intro u q h
  obtain ⟨old, hOld, -, -, rfl⟩ := yields_replaceAt.1 h
  obtain rfl := Option.some.inj (hOld.symm.trans hFind)
  exact ⟨rfl, replaced_self hFind hName hClass⟩

protected theorem mapM {f : α → Edit α} {list : List α} (hf : ∀ a ∈ list, Stays (f a) p a) :
    Stays (list.mapM f) p list := by
  induction list with
  | nil => exact .pure
  | cons a more ih =>
    obtain ⟨ha, hMore⟩ := List.forall_mem_cons.1 hf
    rw [List.mapM_cons]
    exact ha.bind ((ih hMore).bind .pure)

protected theorem forM {f : α → Edit PUnit} {list : List α}
    (hf : ∀ a ∈ list, Stays (f a) p ⟨⟩) : Stays (list.forM f) p ⟨⟩ := by
  induction list with
  | nil => exact .pure
  | cons a more ih =>
    obtain ⟨ha, hMore⟩ := List.forall_mem_cons.1 hf
    exact ha.bind (ih hMore)

end Stays

end Pool

end Jarsmith
