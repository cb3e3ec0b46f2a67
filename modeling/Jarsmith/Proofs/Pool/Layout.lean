import Jarsmith.Proofs.ClassFile.RoundTrip

/-!
# The layout of a pool

In which slots of a pool no constant can stand, and why a pool can be written. Slot 0 is never used,
a wide constant takes the slot behind it, and every other slot holds a constant.

* `Laid` — the slots lie as a class file has them, and every text fits.
* `laid_append`, `laid_replaced` — appending and replacing keep the layout.
* `exists_toBytes` — a pool that is laid out so and not too long can be written.
* `ClassFile.laid_parse`, `ClassFile.size_parse` — the pool of every class file.
-/

namespace Jarsmith

open Outcome Reader

namespace Pool

variable {pool : Pool} {index : UInt16} {c : Constant}

/-- Slot 0 and the slots behind wide constants cannot be used, all others can, and every text
fits. -/
structure Laid (pool : Pool) : Prop where
  slotZero : pool.entries[0]? = some .unusable
  behind : ∀ {j : Nat} {c : Constant}, pool.entries[j]? = some c → c.isWide = true →
    pool.entries[j + 1]? = some .unusable
  inFront : ∀ {j : Nat}, pool.entries[j + 1]? = some .unusable →
    ∃ c, pool.entries[j]? = some c ∧ c.isWide = true
  texts : ∀ {j : Nat} {c : Constant}, pool.entries[j]? = some c → c.TextFits

theorem laid_empty : empty.Laid where
  slotZero := rfl
  behind {j c} h hWide := by
    have hLt : j < 1 := (Array.getElem?_eq_some_iff.1 h).1
    obtain rfl : j = 0 := by omega
    obtain rfl : Constant.unusable = c := Option.some.inj h
    cases hWide
  inFront h := by
    have hLt := (Array.getElem?_eq_some_iff.1 h).1
    simp [empty] at hLt
  texts {j c} h := by
    have hLt : j < 1 := (Array.getElem?_eq_some_iff.1 h).1
    obtain rfl : j = 0 := by omega
    obtain rfl : Constant.unusable = c := Option.some.inj h
    trivial

-- ---------------------------------------------------------------------------
-- Appending
-- ---------------------------------------------------------------------------

theorem entries_append_old {j : Nat} (hj : j < pool.size) :
    (pool.append c).entries[j]? = pool.entries[j]? := by
  rw [entries_append, Array.getElem?_append_left hj]

/-- What stands in a slot of a longer pool: what stood there, the new constant, or, behind it, the
second slot of a wide one. -/
theorem entries_append_cases {j : Nat} {d : Constant}
    (h : (pool.append c).entries[j]? = some d) :
    (j < pool.size ∧ pool.entries[j]? = some d) ∨ (j = pool.size ∧ d = c) ∨
      (j = pool.size + 1 ∧ d = .unusable ∧ c.isWide = true) := by
  by_cases hOld : j < pool.size
  · rw [entries_append_old hOld] at h
    exact .inl ⟨hOld, h⟩
  · have hj : pool.entries.size ≤ j := Nat.le_of_not_lt hOld
    rw [entries_append, Array.getElem?_append_right hj, List.getElem?_toArray] at h
    right
    unfold slotsOf at h
    unfold size
    split at h
    · rename_i hWide
      obtain hZero | hOne : j - pool.entries.size = 0 ∨ j - pool.entries.size = 1 := by
        have hLt := (List.getElem?_eq_some_iff.1 h).1
        simp only [List.length_cons, List.length_nil] at hLt
        omega
      · rw [hZero] at h
        exact .inl ⟨by omega, (Option.some.inj h).symm⟩
      · rw [hOne] at h
        exact .inr ⟨by omega, (Option.some.inj h).symm, hWide⟩
    · have hZero : j - pool.entries.size = 0 := by
        have hLt := (List.getElem?_eq_some_iff.1 h).1
        simp only [List.length_cons, List.length_nil] at hLt
        omega
      rw [hZero] at h
      exact .inl ⟨by omega, (Option.some.inj h).symm⟩

theorem entries_append_new : (pool.append c).entries[pool.size]? = some c := by
  rw [entries_append, size, Array.getElem?_append_right (Nat.le_refl _), Nat.sub_self]
  unfold slotsOf
  split <;> rfl

theorem entries_append_behind (hWide : c.isWide = true) :
    (pool.append c).entries[pool.size + 1]? = some .unusable := by
  rw [entries_append, size, Array.getElem?_append_right (Nat.le_add_right _ 1),
    Nat.add_sub_cancel_left, slotsOf, if_pos hWide]
  rfl

theorem laid_append (hLaid : pool.Laid) (hUsable : c ≠ .unusable) (hFits : c.TextFits) :
    (pool.append c).Laid where
  slotZero := by
    have hLt := (Array.getElem?_eq_some_iff.1 hLaid.slotZero).1
    rw [entries_append_old hLt]
    exact hLaid.slotZero
  behind {j d} h hWide := by
    rcases entries_append_cases h with ⟨hj, h⟩ | ⟨rfl, rfl⟩ | ⟨-, rfl, -⟩
    · have hBehind := hLaid.behind h hWide
      rw [entries_append_old (Array.getElem?_eq_some_iff.1 hBehind).1]
      exact hBehind
    · exact entries_append_behind hWide
    · cases hWide
  inFront {j} h := by
    rcases entries_append_cases h with ⟨hj, h⟩ | ⟨-, hc⟩ | ⟨hj, -, hWide⟩
    · obtain ⟨d, hd, hWide⟩ := hLaid.inFront h
      refine ⟨d, ?_, hWide⟩
      rw [entries_append_old (by omega)]
      exact hd
    · exact absurd hc.symm hUsable
    · obtain rfl : j = pool.size := by omega
      exact ⟨c, entries_append_new, hWide⟩
  texts {j d} h := by
    rcases entries_append_cases h with ⟨-, h⟩ | ⟨-, rfl⟩ | ⟨-, rfl, -⟩
    · exact hLaid.texts h
    · exact hFits
    · trivial

theorem laid_ofConstants {list : List Constant} (hFits : ∀ k ∈ list, k.Fits) :
    (ofConstants list).Laid := by
  have hFold : ∀ pool : Pool, pool.Laid → (list.foldl append pool).Laid := by
    induction list with
    | nil => exact fun _ hLaid => hLaid
    | cons k more ih =>
      intro pool hLaid
      obtain ⟨hFirst, hMore⟩ := List.forall_mem_cons.1 hFits
      exact ih hMore _ (laid_append hLaid hFirst.usable hFirst.textFits)
  exact hFold empty laid_empty

-- ---------------------------------------------------------------------------
-- Replacing
-- ---------------------------------------------------------------------------

theorem entries_replaced_ne {old : Constant} {j : Nat} (hj : j ≠ index.toNat) :
    (pool.replaced index old c).entries[j]? = pool.entries[j]? := by
  rw [entries_replaced, Array.getElem?_setIfInBounds_ne hj.symm]

theorem entries_replaced_self {old : Constant} (hOld : pool.find? index = some old) :
    (pool.replaced index old c).entries[index.toNat]? = some c := by
  rw [entries_replaced, Array.getElem?_setIfInBounds_self_of_lt (lt_size_of_find? hOld)]

/-- The new constant is as wide as the old one, so the slots behind both are right. -/
theorem laid_replaced {old : Constant} (hLaid : pool.Laid) (hOld : pool.find? index = some old)
    (hWidth : old.isWide = c.isWide) (hUsable : c ≠ .unusable) (hFits : c.TextFits) :
    (pool.replaced index old c).Laid := by
  obtain ⟨hEntry, hOldUsable⟩ := find?_eq_some.1 hOld
  -- a slot that cannot be used is not the one that is replaced
  have hUnusable : ∀ {j : Nat}, pool.entries[j]? = some .unusable →
      (pool.replaced index old c).entries[j]? = some .unusable := by
    intro j h
    rw [entries_replaced_ne]
    · exact h
    · rintro rfl
      rw [hEntry] at h
      exact hOldUsable (Option.some.inj h)
  constructor
  · exact hUnusable hLaid.slotZero
  · intro j d h hWide
    by_cases hj : j = index.toNat
    · subst hj
      rw [entries_replaced_self hOld] at h
      obtain rfl := Option.some.inj h
      exact hUnusable (hLaid.behind hEntry (hWidth.trans hWide))
    · rw [entries_replaced_ne hj] at h
      exact hUnusable (hLaid.behind h hWide)
  · intro j h
    have hBefore : pool.entries[j + 1]? = some .unusable := by
      by_cases hj : j + 1 = index.toNat
      · rw [hj, entries_replaced_self hOld] at h
        exact absurd (Option.some.inj h) hUsable
      · rwa [entries_replaced_ne hj] at h
    obtain ⟨d, hd, hWide⟩ := hLaid.inFront hBefore
    by_cases hj : j = index.toNat
    · subst hj
      obtain rfl := Option.some.inj (hEntry.symm.trans hd)
      exact ⟨c, entries_replaced_self hOld, hWidth ▸ hWide⟩
    · exact ⟨d, by rw [entries_replaced_ne hj]; exact hd, hWide⟩
  · intro j d h
    by_cases hj : j = index.toNat
    · subst hj
      rw [entries_replaced_self hOld] at h
      exact Option.some.inj h ▸ hFits
    · rw [entries_replaced_ne hj] at h
      exact hLaid.texts h

-- ---------------------------------------------------------------------------
-- Writing
-- ---------------------------------------------------------------------------

theorem Constant.exists_toBytes (hFits : c.TextFits) : ∃ bytes, c.toBytes = .ok bytes := by
  by_cases hUsable : c = .unusable
  · subst hUsable
    exact ⟨[], rfl⟩
  · exact ⟨c.written, Constant.toBytes_of_textFits hUsable hFits⟩

/-- A pool that is laid out as class files have it can be written, if its size can be said. -/
theorem exists_toBytes (hLaid : pool.Laid) (hSize : pool.size < 65536) :
    ∃ bytes, pool.toBytes = .ok bytes := by
  have hEach : ∀ k ∈ pool.entries.toList.drop 1, ∃ bytes, k.toBytes = .ok bytes := by
    intro k hk
    obtain ⟨j, hj⟩ := List.mem_iff_getElem?.1 (List.mem_of_mem_drop hk)
    rw [Array.getElem?_toList] at hj
    exact Constant.exists_toBytes (hLaid.texts hj)
  obtain ⟨constants, hConstants⟩ := exists_mapM_ok hEach
  have hCount : count16 pool.size "constants" = .ok (UInt16.ofNat pool.size) :=
    count16_eq_ok.2 ⟨hSize, rfl⟩
  rw [toBytes, hCount]
  exact ⟨_, bind_ok_iff.2 ⟨_, rfl, bind_ok_iff.2 ⟨_, hConstants, rfl⟩⟩⟩

end Pool

-- ---------------------------------------------------------------------------
-- Class files
-- ---------------------------------------------------------------------------

namespace ClassFile

variable {bytes : Bytes} {c : ClassFile}

/-- The pool of every class file holds constants that fit, in their order. -/
theorem exists_constants (hParse : parse bytes = .ok c) :
    ∃ list, Pool.ofConstants list = c.pool ∧ ∀ k ∈ list, k.Fits := by
  obtain ⟨-, mid, -, hPool⟩ := read_eq_some.1 (decode_eq_ok.1 (decode_of_parse hParse))
  obtain ⟨-, list, -, hList, hFits, -⟩ := Pool.read_eq_some hPool
  exact ⟨list, hList, hFits⟩

theorem laid_parse (hParse : parse bytes = .ok c) : c.pool.Laid := by
  obtain ⟨list, hList, hFits⟩ := exists_constants hParse
  exact hList ▸ Pool.laid_ofConstants hFits

/-- A class file announces all slots that its pool takes, or ends in the first slot of a wide
constant. -/
theorem size_parse (hParse : parse bytes = .ok c) :
    c.pool.size = announcedSlots bytes ∨
      c.pool.size = announcedSlots bytes + 1 ∧ ¬ EndsInside bytes c.pool := by
  obtain ⟨-, mid, rfl, hPool⟩ := read_eq_some.1 (decode_eq_ok.1 (decode_of_parse hParse))
  obtain ⟨count, list, -, hList, -, rfl, hSize | ⟨hSize, k, hLast, hWide⟩⟩ :=
    Pool.read_eq_some hPool
  · left
    rw [announcedSlots_eq, Pool.announced_putU16, hSize]
  · right
    rw [EndsInside, announcedSlots_eq, Pool.announced_putU16]
    refine ⟨hSize, fun hInside => ?_⟩
    rw [hInside k hLast] at hWide
    cases hWide

theorem announcedSlots_lt (hParse : parse bytes = .ok c) : announcedSlots bytes < 65536 := by
  obtain ⟨-, mid, rfl, hPool⟩ := read_eq_some.1 (decode_eq_ok.1 (decode_of_parse hParse))
  obtain ⟨count, -, -, -, -, rfl, -⟩ := Pool.read_eq_some hPool
  rw [announcedSlots_eq, Pool.announced_putU16]
  exact count.toNat_lt

end ClassFile

end Jarsmith
