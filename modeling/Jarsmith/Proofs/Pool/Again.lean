import Jarsmith.Proofs.Pool.Texts

/-!
# Pools that are read again

An edited pool can be written even if one of its constants leads nowhere or holds a text that is not
well formed; the reader then refuses what was written. What it accepts has the slots of the pool
that was written.

* `Constant.fits_of_read_written` — a constant that is read again fits.
* `Laid.exists_slots` — the slots of a pool that is laid out as class files have it.
* `Laid.entries_of_read` — a pool that is read again has the slots that were written.
* `Keeps.laid` — an edit that keeps the width of every constant keeps the layout.
-/

namespace Jarsmith

open Outcome Reader

-- ---------------------------------------------------------------------------
-- Constants
-- ---------------------------------------------------------------------------

theorem putU16_inj {i j : UInt16} {rest rest' : Bytes} (h : putU16 i ++ rest = putU16 j ++ rest') :
    i = j ∧ rest = rest' := by
  have hLeft : u16 (putU16 i ++ rest) = some (i, rest) := reads_u16.eq_some.2 ⟨trivial, rfl⟩
  have hRight : u16 (putU16 i ++ rest) = some (j, rest') := reads_u16.eq_some.2 ⟨trivial, h⟩
  exact Prod.mk.inj (Option.some.inj (hLeft.symm.trans hRight))

namespace Constant

variable {k k' : Constant} {list other : List Constant} {rest rest' : Bytes}

/-- A constant that is read from its written form fits. -/
theorem fits_of_read_written (hUsable : k ≠ .unusable) (hText : k.TextFits)
    (hRead : read (k.written ++ rest) = some (k', rest')) : k.Fits := by
  obtain ⟨tag, more, hTag, hBody⟩ := bind_eq_some.1 hRead
  obtain ⟨rfl, rfl⟩ : k.tag = tag ∧ k.body ++ rest = more := Prod.mk.inj (Option.some.inj hTag)
  have hIndex : ∀ {i j : UInt16} {rest rest' : Bytes}, j ≠ 0 →
      putU16 i ++ rest = putU16 j ++ rest' → i ≠ 0 := fun hj hEq => (putU16_inj hEq).1 ▸ hj
  have hPair : ∀ {i j i' j' : UInt16}, j' ≠ 0 →
      putU16 i ++ putU16 j ++ rest = putU16 i' ++ putU16 j' ++ rest' → i = i' ∧ j ≠ 0 := by
    intro i j i' j' hj hEq
    rw [List.append_assoc, List.append_assoc] at hEq
    obtain ⟨hFirst, hEq⟩ := putU16_inj hEq
    exact ⟨hFirst, hIndex hj hEq⟩
  cases k with
  | utf8 raw =>
    obtain ⟨raw', hFits, -, hEq⟩ := readUtf8_eq_some.1 hBody
    simp only [body, List.append_assoc] at hEq
    obtain ⟨hLength, hEq⟩ := putU16_inj hEq
    have hSame : raw.length = raw'.length := by
      rw [← UInt16.toNat_ofNat_of_lt' hText, hLength, UInt16.toNat_ofNat_of_lt' hFits.1]
    exact (List.append_inj hEq hSame).1 ▸ hFits
  | classRef name | string name | methodType name | module name | package name =>
    obtain ⟨i, hi, -, hEq⟩ := index_eq_some.1 hBody
    exact hIndex hi hEq
  | fieldRef owner nat | methodRef owner nat | interfaceMethodRef owner nat
  | nameAndType owner nat =>
    obtain ⟨i, j, hi, hj, -, hEq⟩ := (indexPair_eq_some reads_index).1 hBody
    obtain ⟨rfl, hNat⟩ := hPair hj hEq
    exact ⟨hi, hNat⟩
  | methodHandle kind reference =>
    obtain ⟨kind', i, hi, -, hEq⟩ := handle_eq_some.1 hBody
    exact hIndex hi (List.cons.inj hEq).2
  | dynamic bootstrap nat | invokeDynamic bootstrap nat =>
    obtain ⟨i, j, -, hj, -, hEq⟩ := (indexPair_eq_some reads_u16).1 hBody
    exact (hPair hj hEq).2
  | integer _ | float _ | long _ | double _ => trivial
  | unusable => exact absurd rfl hUsable

theorem textFits_of_toBytes (h : k.toBytes = .ok rest) : k.TextFits := by
  cases k with
  | utf8 raw =>
    obtain ⟨count, hCount, -⟩ := bind_ok_iff.1 h
    exact (count16_eq_ok.1 hCount).1
  | _ => trivial

/-- Constants that are read from their written forms fit. -/
theorem fits_of_readMany_written (hList : ∀ k ∈ list, k ≠ .unusable ∧ k.TextFits)
    (hRead : readMany (list.flatMap Pool.slotsOf).length (list.flatMap written ++ rest) =
      some (other, rest')) : ∀ k ∈ list, k.Fits := by
  induction list generalizing other with
  | nil => exact fun _ => nofun
  | cons k list ih =>
    obtain ⟨⟨hUsable, hText⟩, hMore⟩ := List.forall_mem_cons.1 hList
    have hPositive := k.one_le_width
    rw [List.flatMap_cons, List.length_append, Pool.length_slotsOf, List.flatMap_cons,
      List.append_assoc] at hRead
    obtain ⟨slots, hSlots⟩ : ∃ slots, k.width + (list.flatMap Pool.slotsOf).length = slots + 1 :=
      ⟨k.width + (list.flatMap Pool.slotsOf).length - 1, by omega⟩
    rw [hSlots] at hRead
    obtain ⟨k', mid, hFirst, hCases⟩ := readMany_succ_eq_some hRead
    have hFits := fits_of_read_written hUsable hText hFirst
    obtain ⟨rfl, rfl⟩ := Prod.mk.inj (Option.some.inj ((read_written hFits).symm.trans hFirst))
    refine List.forall_mem_cons.2 ⟨hFits, ?_⟩
    obtain ⟨hWide, rfl, -⟩ | ⟨fewer, more, hFewer, hRest, -⟩ := hCases
    · -- both slots of a wide constant are there
      have hWidth : k.width = 2 := by simp [width, hWide]
      omega
    · obtain rfl : fewer = (list.flatMap Pool.slotsOf).length := by omega
      exact ih hMore hRest

end Constant

namespace Pool

variable {p q : Pool} {written rest rest' : Bytes}

-- ---------------------------------------------------------------------------
-- Slots
-- ---------------------------------------------------------------------------

/-- Slots that lie as a class file has them are those of usable constants. -/
theorem exists_flatMap_slotsOf : ∀ {l : List Constant}, l[0]? ≠ some .unusable →
    (∀ {j : Nat} {c : Constant}, l[j]? = some c → c.isWide = true → l[j + 1]? = some .unusable) →
    (∀ {j : Nat}, l[j + 1]? = some .unusable → ∃ c, l[j]? = some c ∧ c.isWide = true) →
    ∃ list : List Constant, l = list.flatMap slotsOf ∧ ∀ k ∈ list, k ≠ .unusable
  | [], _, _, _ => ⟨[], rfl, fun _ => nofun⟩
  | k :: more, hFirst, hBehind, hInFront => by
    have hUsable : k ≠ .unusable := fun h => hFirst (congrArg some h)
    by_cases hWide : k.isWide = true
    · have hNext : more[0]? = some .unusable := hBehind (j := 0) rfl hWide
      obtain ⟨rest, rfl⟩ : ∃ rest, more = .unusable :: rest := by
        cases more with
        | nil => cases hNext
        | cons u rest => exact ⟨rest, by rw [Option.some.inj hNext]⟩
      obtain ⟨list, rfl, hList⟩ := exists_flatMap_slotsOf (l := rest)
        (fun h => by
          obtain ⟨c, hc, hcWide⟩ := hInFront (j := 1) h
          obtain rfl : Constant.unusable = c := Option.some.inj hc
          cases hcWide)
        (fun {j} _ h => hBehind (j := j + 2) h) (fun {j} h => hInFront (j := j + 2) h)
      exact ⟨k :: list, by simp [slotsOf, hWide], List.forall_mem_cons.2 ⟨hUsable, hList⟩⟩
    · obtain ⟨list, rfl, hList⟩ := exists_flatMap_slotsOf (l := more)
        (fun h => by
          obtain ⟨c, hc, hcWide⟩ := hInFront (j := 0) h
          obtain rfl : k = c := Option.some.inj hc
          exact hWide hcWide)
        (fun {j} _ h => hBehind (j := j + 1) h) (fun {j} h => hInFront (j := j + 1) h)
      exact ⟨k :: list, by simp [slotsOf, hWide], List.forall_mem_cons.2 ⟨hUsable, hList⟩⟩
termination_by l => l.length

/-- The slots of a pool that is laid out as class files have it. -/
theorem Laid.exists_slots (hLaid : p.Laid) :
    ∃ list : List Constant, p.entries.toList = .unusable :: list.flatMap slotsOf ∧
      ∀ k ∈ list, k ≠ .unusable ∧ k.TextFits := by
  obtain ⟨tail, hTail⟩ : ∃ tail, p.entries.toList = .unusable :: tail := by
    have hZero := hLaid.slotZero
    rw [← Array.getElem?_toList] at hZero
    cases hEntries : p.entries.toList with
    | nil =>
      rw [hEntries] at hZero
      cases hZero
    | cons k tail =>
      rw [hEntries] at hZero
      exact ⟨tail, by rw [Option.some.inj hZero]⟩
  have hEntry : ∀ j, p.entries[j + 1]? = tail[j]? := fun j => by
    rw [← Array.getElem?_toList, hTail, List.getElem?_cons_succ]
  obtain ⟨list, rfl, hUsable⟩ := exists_flatMap_slotsOf (l := tail)
    (fun h => by
      rw [← hEntry] at h
      obtain ⟨c, hc, hWide⟩ := hLaid.inFront h
      rw [hLaid.slotZero] at hc
      obtain rfl := Option.some.inj hc
      cases hWide)
    (fun h hWide => by
      rw [← hEntry] at h ⊢
      exact hLaid.behind h hWide)
    (fun h => by
      rw [← hEntry] at h ⊢
      exact hLaid.inFront h)
  refine ⟨list, hTail, fun k hk => ⟨hUsable k hk, ?_⟩⟩
  have hMem : k ∈ slotsOf k := by
    unfold slotsOf
    split <;> exact List.mem_cons_self
  obtain ⟨j, hj⟩ := List.mem_iff_getElem?.1 (List.mem_flatMap.2 ⟨k, hk, hMem⟩)
  exact hLaid.texts ((hEntry j).trans hj)

/-- **A pool that is read again** has the slots of the pool that was written. -/
theorem Laid.entries_of_read (hLaid : p.Laid) (hWritten : p.toBytes = .ok written)
    (hRead : read (written ++ rest) = some (q, rest')) : q.entries = p.entries ∧ rest' = rest := by
  obtain ⟨list, hSlots, hList⟩ := hLaid.exists_slots
  have hSize := size_lt_of_toBytes hWritten
  have hSame : (ofConstants list).size = p.size := by
    rw [size_ofConstants, size, ← Array.length_toList, hSlots, List.length_cons]
  obtain rfl := Except.ok.inj ((toBytes_of_slots hSlots hList hSize).symm.trans hWritten)
  -- the constants fit because the reader took them
  have hFits : ∀ k ∈ list, k.Fits := by
    obtain ⟨count, mid, hCount, hMany⟩ := bind_eq_some.1 hRead
    obtain ⟨-, hFront⟩ := reads_u16.eq_some.1 hCount
    rw [Pool.written, List.append_assoc] at hFront
    obtain ⟨rfl, rfl⟩ := putU16_inj hFront
    split at hMany
    · exact absurd hMany failure_ne_some
    obtain ⟨other, hMany, -⟩ := map_eq_some.1 hMany
    rw [UInt16.toNat_ofNat_of_lt' (hSame.trans_lt hSize), size_ofConstants,
      Nat.add_sub_cancel] at hMany
    exact Constant.fits_of_readMany_written hList hMany
  have hAgain := (read_written hFits (hSame.trans_lt hSize)).symm.trans hRead
  obtain ⟨rfl, rfl⟩ := Prod.mk.inj (Option.some.inj hAgain)
  refine ⟨Array.toList_inj.1 ?_, rfl⟩
  rw [entries_ofConstants, hSlots]

/-- The texts of a pool that can be written fit. -/
theorem textFits_of_toBytes (hZero : p.entries[0]? = some .unusable)
    (hWritten : p.toBytes = .ok written) {j : Nat} {k : Constant} (hk : p.entries[j]? = some k) :
    k.TextFits := by
  cases j with
  | zero =>
    obtain rfl := Option.some.inj (hZero.symm.trans hk)
    trivial
  | succ j =>
    obtain ⟨_, -, hRest⟩ := bind_ok_iff.1 hWritten
    obtain ⟨slots, hSlots, -⟩ := bind_ok_iff.1 hRest
    have hMem : k ∈ p.entries.toList.drop 1 := by
      rw [← Array.getElem?_toList] at hk
      exact List.mem_iff_getElem?.2 ⟨j, by rw [List.getElem?_drop, Nat.add_comm, hk]⟩
    obtain ⟨bytes, hBytes⟩ := exists_of_mapM_ok hSlots k hMem
    exact Constant.textFits_of_toBytes hBytes

/-- Texts depend on the slots only. -/
theorem text_of_entries (h : q.entries = p.entries) (i : UInt16) : q.text i = p.text i := by
  simp only [text, get, find?, h]

/-- So do names of classes. -/
theorem className_of_entries (h : q.entries = p.entries) (i : UInt16) :
    q.className i = p.className i := by
  simp only [className, get, find?, h, text_of_entries h]

-- ---------------------------------------------------------------------------
-- Edits
-- ---------------------------------------------------------------------------

/-- An edit that keeps the width of every constant keeps the layout. -/
theorem Keeps.laid {touched : Nat → Prop} (h : Keeps touched p q) (hLaid : p.Laid)
    (hTouched : ∀ j, touched j → ∃ c d : Constant, p.entries[j]? = some c ∧
      q.entries[j]? = some d ∧ c ≠ .unusable ∧ d ≠ .unusable ∧ d.isWide = c.isWide)
    (hTexts : ∀ (j : Nat) (c : Constant), q.entries[j]? = some c → c.TextFits) : q.Laid := by
  have hKept : ∀ {j : Nat} {c : Constant}, p.entries[j]? = some c →
      ∃ d : Constant, q.entries[j]? = some d ∧ d.isWide = c.isWide ∧
        (d = .unusable ↔ c = .unusable) := by
    intro j c hc
    obtain hSame | ⟨ht, -⟩ := h.entry hc
    · exact ⟨c, hSame, rfl, Iff.rfl⟩
    · obtain ⟨c', d, hc', hd, hUsable, hUsable', hWide⟩ := hTouched j ht
      obtain rfl := Option.some.inj (hc.symm.trans hc')
      exact ⟨d, hd, hWide, iff_of_false hUsable' hUsable⟩
  -- what stands behind the old slots is a name, which is narrow and usable
  have hOld : ∀ {j : Nat} {d : Constant}, q.entries[j]? = some d → d.isName = false →
      ∃ c, p.entries[j]? = some c := by
    intro j d hd hName
    rcases Nat.lt_or_ge j p.size with hLt | hGe
    · exact ⟨_, Array.getElem?_eq_getElem hLt⟩
    · rw [h.fresh hd hGe] at hName
      cases hName
  have hWideName : ∀ {k : Constant}, k.isWide = true → k.isName = false := by
    rintro (_ | _) hWide <;> first | rfl | cases hWide
  refine ⟨?_, fun {j d} hd hWide => ?_, fun {j} hd => ?_, fun {j c} hc => hTexts j c hc⟩
  · obtain ⟨d, hd, -, hUnusable⟩ := hKept hLaid.slotZero
    rw [hd, hUnusable.2 rfl]
  · obtain ⟨c, hc⟩ := hOld hd (hWideName hWide)
    obtain ⟨d', hd', hSame, -⟩ := hKept hc
    obtain rfl := Option.some.inj (hd.symm.trans hd')
    obtain ⟨u, hu, -, hUnusable⟩ := hKept (hLaid.behind hc (hSame ▸ hWide))
    rw [hu, hUnusable.2 rfl]
  · obtain ⟨c, hc⟩ := hOld hd rfl
    obtain ⟨d', hd', -, hUnusable⟩ := hKept hc
    obtain rfl := Option.some.inj (hd.symm.trans hd')
    obtain rfl := hUnusable.1 rfl
    obtain ⟨w, hw, hWide⟩ := hLaid.inFront hc
    obtain ⟨d, hd, hSame, -⟩ := hKept hw
    exact ⟨d, hd, hSame.trans hWide⟩

end Pool

end Jarsmith
