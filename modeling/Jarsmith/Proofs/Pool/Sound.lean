import Jarsmith.ClassFile.Basic
import Jarsmith.ClassFile.Encoding
import Jarsmith.Proofs.Bytes.Codec
import Jarsmith.Proofs.Outcome
import Mathlib.Data.List.Nodup

/-!
# The entries of a pool and its lookup tables

What is read at an index of a pool, and what the lookup tables beside the entries learn and forget. A
pool answers "where is this value?" from three tables. It is *sound* when no table leads astray.

* `text_eq_ok`, `className_eq_ok`, `nameAndType_eq_ok`, `memberRef_eq_ok` — a view succeeds exactly
  on entries of its kind whose parts can be viewed.
* `utf8s_learn`, `classes_learn`, `nameAndTypes_learn` — a table knows what it knew, or what it was
  taught.
* `Sound` — every entry of a lookup table leads to the value that it was learnt for.
* `sound_append`, `sound_replaced` — appending a constant and replacing one keep the invariant.
* `constants_of_read` — the pool of every class file was appended constant by constant.
* `sound_decode` — it is sound.
-/

namespace Jarsmith.Pool

open Outcome

variable {pool : Pool} {index : UInt16} {c d : Constant}

-- ---------------------------------------------------------------------------
-- Views of an entry
-- ---------------------------------------------------------------------------

theorem find?_eq_some :
    pool.find? index = some c ↔ pool.entries[index.toNat]? = some c ∧ c ≠ .unusable := by
  unfold find?
  cases h : pool.entries[index.toNat]? with
  | none => simp
  | some d =>
    cases d <;> simp <;> rintro rfl <;> simp

theorem lt_size_of_find? (h : pool.find? index = some c) : index.toNat < pool.size :=
  (Array.getElem?_eq_some_iff.1 (find?_eq_some.1 h).1).1

theorem get_eq_ok : pool.get index = .ok c ↔ pool.find? index = some c := by
  unfold get
  cases pool.find? index <;> simp

theorem text_eq_ok {s : String} :
    pool.text index = .ok s ↔
      ∃ raw, pool.find? index = some (.utf8 raw) ∧ decodeText raw = .ok s := by
  unfold text
  rw [bind_ok_iff]
  constructor
  · rintro ⟨c, hc, h⟩
    cases c <;> simp at h
    exact ⟨_, get_eq_ok.1 hc, h⟩
  · rintro ⟨raw, hc, h⟩
    exact ⟨_, get_eq_ok.2 hc, h⟩

theorem className_eq_ok {s : String} :
    pool.className index = .ok s ↔
      ∃ name, pool.find? index = some (.classRef name) ∧ pool.text name = .ok s := by
  unfold className
  rw [bind_ok_iff]
  constructor
  · rintro ⟨c, hc, h⟩
    cases c <;> simp at h
    exact ⟨_, get_eq_ok.1 hc, h⟩
  · rintro ⟨name, hc, h⟩
    exact ⟨_, get_eq_ok.2 hc, h⟩

theorem nameAndType_eq_ok {s t : String} :
    pool.nameAndType index = .ok (s, t) ↔
      ∃ name descriptor, pool.find? index = some (.nameAndType name descriptor) ∧
        pool.text name = .ok s ∧ pool.text descriptor = .ok t := by
  unfold nameAndType
  rw [bind_ok_iff]
  constructor
  · rintro ⟨c, hc, h⟩
    cases c <;> simp at h
    exact ⟨_, _, get_eq_ok.1 hc, h⟩
  · rintro ⟨name, descriptor, hc, h⟩
    exact ⟨_, get_eq_ok.2 hc, by simpa using h⟩

theorem memberRef_eq_ok {m : MemberRef} :
    pool.memberRef index = .ok m ↔
      ∃ owner nat, (pool.find? index = some (.fieldRef owner nat) ∨
          pool.find? index = some (.methodRef owner nat) ∨
          pool.find? index = some (.interfaceMethodRef owner nat)) ∧
        pool.nameAndType nat = .ok (m.name, m.descriptor) ∧ pool.className owner = .ok m.owner := by
  unfold memberRef
  rw [bind_ok_iff]
  constructor
  · rintro ⟨c, hc, h⟩
    rw [get_eq_ok] at hc
    cases c with
    | fieldRef owner nat =>
      obtain ⟨n, t, hNat, o, hOwner, rfl⟩ := by simpa using h
      exact ⟨owner, nat, .inl hc, hNat, hOwner⟩
    | methodRef owner nat =>
      obtain ⟨n, t, hNat, o, hOwner, rfl⟩ := by simpa using h
      exact ⟨owner, nat, .inr (.inl hc), hNat, hOwner⟩
    | interfaceMethodRef owner nat =>
      obtain ⟨n, t, hNat, o, hOwner, rfl⟩ := by simpa using h
      exact ⟨owner, nat, .inr (.inr hc), hNat, hOwner⟩
    | _ => simp at h
  · rintro ⟨owner, nat, hc | hc | hc, hNat, hOwner⟩ <;>
      exact ⟨_, get_eq_ok.2 hc, by simp [hNat, hOwner]⟩

-- ---------------------------------------------------------------------------
-- Usable slots
-- ---------------------------------------------------------------------------

theorem mem_indices :
    index ∈ pool.indices ↔ ∃ c, pool.find? index = some c := by
  unfold indices
  rw [List.mem_filter, List.mem_map, Option.isSome_iff_exists]
  refine and_iff_right_of_imp ?_
  rintro ⟨c, hc⟩
  exact ⟨index.toNat, List.mem_range.2 (lt_size_of_find? hc), UInt16.ofNat_toNat⟩

theorem nodup_indices (hSize : pool.size ≤ 65536) : pool.indices.Nodup := by
  refine List.Nodup.filter _ (List.Nodup.map_on ?_ List.nodup_range)
  intro i hi j hj hEq
  rw [List.mem_range] at hi hj
  have hNat := congrArg UInt16.toNat hEq
  rw [UInt16.toNat_ofNat', UInt16.toNat_ofNat', Nat.mod_eq_of_lt (by omega),
    Nat.mod_eq_of_lt (by omega)] at hNat
  exact hNat

-- ---------------------------------------------------------------------------
-- Learning and forgetting
-- ---------------------------------------------------------------------------

@[simp] theorem entries_learn : (pool.learn index c).entries = pool.entries := by
  cases c <;> rfl

@[simp] theorem entries_forget : (pool.forget index c).entries = pool.entries := by
  cases c <;> simp only [forget] <;> split <;> rfl

/-- What a table knows after it learnt, it knew before or was taught. -/
theorem utf8s_learn {raw : Bytes} {i : UInt16}
    (h : (pool.learn index c).utf8s[raw]? = some i) :
    pool.utf8s[raw]? = some i ∨ c = .utf8 raw ∧ i = index := by
  cases c <;> simp only [learn] at h <;> try exact Or.inl h
  rw [Std.HashMap.getElem?_insertIfNew] at h
  split at h
  · rename_i hk
    exact Or.inr ⟨by rw [eq_of_beq hk.1], (Option.some.inj h).symm⟩
  · exact Or.inl h

theorem classes_learn {name i : UInt16}
    (h : (pool.learn index c).classes[name]? = some i) :
    pool.classes[name]? = some i ∨ c = .classRef name ∧ i = index := by
  cases c <;> simp only [learn] at h <;> try exact Or.inl h
  rw [Std.HashMap.getElem?_insertIfNew] at h
  split at h
  · rename_i hk
    exact Or.inr ⟨by rw [eq_of_beq hk.1], (Option.some.inj h).symm⟩
  · exact Or.inl h

theorem nameAndTypes_learn {key : UInt16 × UInt16} {i : UInt16}
    (h : (pool.learn index c).nameAndTypes[key]? = some i) :
    pool.nameAndTypes[key]? = some i ∨ c = .nameAndType key.1 key.2 ∧ i = index := by
  cases c <;> simp only [learn] at h <;> try exact Or.inl h
  rw [Std.HashMap.getElem?_insertIfNew] at h
  split at h
  · rename_i hk
    exact Or.inr ⟨by rw [← eq_of_beq hk.1], (Option.some.inj h).symm⟩
  · exact Or.inl h

@[simp] theorem utf8s_forget : (pool.forget index c).utf8s = pool.utf8s := by
  cases c <;> simp only [forget] <;> split <;> rfl

/-- What a table still knows after it forgot `c` at `index`, it does not know as `c` at `index`. -/
theorem classes_forget {name i : UInt16}
    (h : (pool.forget index c).classes[name]? = some i) :
    pool.classes[name]? = some i ∧ ¬ (c = .classRef name ∧ i = index) := by
  cases c with
  | classRef n =>
    simp only [forget] at h
    split at h
    · rw [Std.HashMap.getElem?_erase] at h
      split at h
      · cases h
      · rename_i hne
        refine ⟨h, fun hc => hne ?_⟩
        simpa using hc.1
    · rename_i hne
      refine ⟨h, ?_⟩
      rintro ⟨hc, rfl⟩
      cases hc
      exact hne h
  | nameAndType n t =>
    refine ⟨?_, fun hc => by cases hc.1⟩
    simp only [forget] at h
    split at h <;> exact h
  | _ => exact ⟨h, fun hc => by cases hc.1⟩

theorem nameAndTypes_forget {key : UInt16 × UInt16} {i : UInt16}
    (h : (pool.forget index c).nameAndTypes[key]? = some i) :
    pool.nameAndTypes[key]? = some i ∧ ¬ (c = .nameAndType key.1 key.2 ∧ i = index) := by
  cases c with
  | nameAndType n t =>
    simp only [forget] at h
    split at h
    · rw [Std.HashMap.getElem?_erase] at h
      split at h
      · cases h
      · rename_i hne
        refine ⟨h, fun hc => hne ?_⟩
        have hKey := hc.1
        simp only [Constant.nameAndType.injEq] at hKey
        simp [hKey.1, hKey.2]
    · rename_i hne
      refine ⟨h, ?_⟩
      rintro ⟨hc, rfl⟩
      cases hc
      exact hne h
  | classRef n =>
    refine ⟨?_, fun hc => by cases hc.1⟩
    simp only [forget] at h
    split at h <;> exact h
  | _ => exact ⟨h, fun hc => by cases hc.1⟩

end Jarsmith.Pool

-- ---------------------------------------------------------------------------
-- The invariant of the lookup tables
-- ---------------------------------------------------------------------------

namespace Jarsmith

/-- The number of slots that a constant takes. -/
def Constant.width (c : Constant) : Nat := if c.isWide then 2 else 1

theorem Constant.one_le_width (c : Constant) : 1 ≤ c.width := by
  unfold width
  split <;> omega

namespace Pool

variable {pool : Pool} {index : UInt16} {c d : Constant}

/-- No lookup table leads astray, and every index fits into 16 bits. -/
structure Sound (pool : Pool) : Prop where
  size_le : pool.size ≤ 65536
  utf8s : ∀ {raw i}, pool.utf8s[raw]? = some i → pool.find? i = some (.utf8 raw)
  classes : ∀ {name i}, pool.classes[name]? = some i → pool.find? i = some (.classRef name)
  nameAndTypes : ∀ {key : UInt16 × UInt16} {i}, pool.nameAndTypes[key]? = some i →
    pool.find? i = some (.nameAndType key.1 key.2)

theorem sound_empty : empty.Sound where
  size_le := by decide
  utf8s h := by simp [empty] at h
  classes h := by simp [empty] at h
  nameAndTypes h := by simp [empty] at h

-- ---------------------------------------------------------------------------
-- Appending
-- ---------------------------------------------------------------------------

theorem length_slotsOf : (slotsOf c).length = c.width := by
  unfold slotsOf Constant.width
  split <;> rfl

theorem entries_append : (pool.append c).entries = pool.entries ++ (slotsOf c).toArray := by
  unfold append slotsOf
  split
  · simp only [entries_learn]
    rw [Array.push_eq_append, Array.push_eq_append, Array.append_assoc]
    rfl
  · simp only [entries_learn]
    rw [Array.push_eq_append]

@[simp] theorem size_append : (pool.append c).size = pool.size + c.width := by
  unfold size
  rw [entries_append, Array.size_append]
  simp [length_slotsOf]

theorem find?_append_old (h : pool.find? index = some d) :
    (pool.append c).find? index = some d := by
  rw [find?_eq_some] at h ⊢
  refine ⟨?_, h.2⟩
  have hLt := (Array.getElem?_eq_some_iff.1 h.1).1
  rw [entries_append, Array.getElem?_append_left hLt]
  exact h.1

theorem find?_append_new (hSize : pool.size < 65536) (hc : c ≠ .unusable) :
    (pool.append c).find? (UInt16.ofNat pool.size) = some c := by
  rw [find?_eq_some]
  refine ⟨?_, hc⟩
  have hIndex : (UInt16.ofNat pool.size).toNat = pool.entries.size := by
    rw [UInt16.toNat_ofNat']
    exact Nat.mod_eq_of_lt hSize
  rw [entries_append, hIndex, Array.getElem?_append_right (Nat.le_refl _)]
  unfold slotsOf
  split <;> simp

/-- The tables of a pool that got `c` are those of the pool that learnt `c` for the first new
slot. -/
theorem tables_append (pool : Pool) (c : Constant) :
    (pool.append c).utf8s = (pool.learn (UInt16.ofNat pool.size) c).utf8s ∧
      (pool.append c).classes = (pool.learn (UInt16.ofNat pool.size) c).classes ∧
      (pool.append c).nameAndTypes = (pool.learn (UInt16.ofNat pool.size) c).nameAndTypes := by
  unfold append
  split <;> exact ⟨rfl, rfl, rfl⟩

theorem sound_append (hSound : pool.Sound) (hRoom : pool.size + c.width ≤ 65536) :
    (pool.append c).Sound := by
  have hWidth := c.one_le_width
  have hNew : c ≠ .unusable → (pool.append c).find? (UInt16.ofNat pool.size) = some c :=
    find?_append_new (by omega)
  obtain ⟨hUtf8s, hClasses, hNats⟩ := pool.tables_append c
  refine ⟨by rw [size_append]; exact hRoom, ?_, ?_, ?_⟩
  · intro raw i h
    rw [hUtf8s] at h
    rcases utf8s_learn h with h | ⟨rfl, rfl⟩
    · exact find?_append_old (hSound.utf8s h)
    · exact hNew (by simp)
  · intro name i h
    rw [hClasses] at h
    rcases classes_learn h with h | ⟨rfl, rfl⟩
    · exact find?_append_old (hSound.classes h)
    · exact hNew (by simp)
  · intro key i h
    rw [hNats] at h
    rcases nameAndTypes_learn h with h | ⟨rfl, rfl⟩
    · exact find?_append_old (hSound.nameAndTypes h)
    · exact hNew (by simp)

/-- A table does not know a text that stands in no slot. -/
theorem Sound.utf8s_eq_none {raw : Bytes} (hSound : pool.Sound)
    (hText : Constant.utf8 raw ∉ pool.entries.toList) : pool.utf8s[raw]? = none := by
  rw [Option.eq_none_iff_forall_ne_some]
  intro i hKnown
  have hEntry := (find?_eq_some.1 (hSound.utf8s hKnown)).1
  exact hText (Array.mem_toList_iff.2 (Array.mem_of_getElem? hEntry))

/-- A table does not know a pair that stands in no slot. -/
theorem Sound.nameAndTypes_eq_none {name descriptor : UInt16} (hSound : pool.Sound)
    (hPair : Constant.nameAndType name descriptor ∉ pool.entries.toList) :
    pool.nameAndTypes[(name, descriptor)]? = none := by
  rw [Option.eq_none_iff_forall_ne_some]
  intro i hKnown
  have hEntry := (find?_eq_some.1 (hSound.nameAndTypes hKnown)).1
  exact hPair (Array.mem_toList_iff.2 (Array.mem_of_getElem? hEntry))

-- ---------------------------------------------------------------------------
-- Replacing
-- ---------------------------------------------------------------------------

/-- The pool with `c` in the place of `old` at `index`. -/
def replaced (pool : Pool) (index : UInt16) (old c : Constant) : Pool :=
  { (pool.forget index old).learn index c with
    entries := pool.entries.setIfInBounds index.toNat c }

theorem entries_replaced {old : Constant} :
    (pool.replaced index old c).entries = pool.entries.setIfInBounds index.toNat c := rfl

@[simp] theorem size_replaced {old : Constant} :
    (pool.replaced index old c).size = pool.size := by
  unfold size
  rw [entries_replaced, Array.size_setIfInBounds]

theorem find?_replaced_ne {old : Constant} {i : UInt16} (hi : i ≠ index) :
    (pool.replaced index old c).find? i = pool.find? i := by
  have hNat : index.toNat ≠ i.toNat := fun h => hi (UInt16.toNat_inj.1 h.symm)
  unfold find?
  rw [entries_replaced, Array.getElem?_setIfInBounds_ne hNat]

theorem find?_replaced_self {old : Constant} (hOld : pool.find? index = some old)
    (hc : c ≠ .unusable) : (pool.replaced index old c).find? index = some c := by
  rw [find?_eq_some]
  refine ⟨?_, hc⟩
  rw [entries_replaced, Array.getElem?_setIfInBounds_self_of_lt (lt_size_of_find? hOld)]

theorem sound_replaced {old : Constant} (hSound : pool.Sound)
    (hOld : pool.find? index = some old) (hText : ∀ raw, old ≠ .utf8 raw) :
    (pool.replaced index old c).Sound := by
  refine ⟨by rw [size_replaced]; exact hSound.size_le, ?_, ?_, ?_⟩
  · intro raw i h
    rcases utf8s_learn h with h | ⟨rfl, rfl⟩
    · rw [utf8s_forget] at h
      have hFound := hSound.utf8s h
      have hi : i ≠ index := by
        rintro rfl
        rw [hOld] at hFound
        exact hText raw (Option.some.inj hFound)
      rw [find?_replaced_ne hi]
      exact hFound
    · exact find?_replaced_self hOld (by simp)
  · intro name i h
    rcases classes_learn h with h | ⟨rfl, rfl⟩
    · obtain ⟨h, hForgotten⟩ := classes_forget h
      have hFound := hSound.classes h
      have hi : i ≠ index := by
        rintro rfl
        rw [hOld] at hFound
        exact hForgotten ⟨Option.some.inj hFound, rfl⟩
      rw [find?_replaced_ne hi]
      exact hFound
    · exact find?_replaced_self hOld (by simp)
  · intro key i h
    rcases nameAndTypes_learn h with h | ⟨rfl, rfl⟩
    · obtain ⟨h, hForgotten⟩ := nameAndTypes_forget h
      have hFound := hSound.nameAndTypes h
      have hi : i ≠ index := by
        rintro rfl
        rw [hOld] at hFound
        exact hForgotten ⟨Option.some.inj hFound, rfl⟩
      rw [find?_replaced_ne hi]
      exact hFound
    · exact find?_replaced_self hOld (by simp)

end Pool

-- ---------------------------------------------------------------------------
-- Class files
-- ---------------------------------------------------------------------------

namespace Constant

variable {slots : Nat} {bytes rest : Bytes} {list : List Constant}

/-- Inverts one step of reading constants. A wide constant that starts in the last slot is the last
one, though it takes one slot more. -/
theorem readMany_succ_eq_some (h : readMany (slots + 1) bytes = some (list, rest)) :
    ∃ c mid, read bytes = some (c, mid) ∧
      ((c.isWide = true ∧ slots = 0 ∧ list = [c] ∧ mid = rest) ∨
        ∃ fewer more, fewer + c.width = slots + 1 ∧ readMany fewer mid = some (more, rest) ∧
          list = c :: more) := by
  rw [readMany] at h
  obtain ⟨c, mid, hFirst, h⟩ := Reader.bind_eq_some.1 h
  refine ⟨c, mid, hFirst, ?_⟩
  split at h
  · rename_i hWide
    have hWidth : c.width = 2 := by simp [width, hWide]
    cases slots with
    | zero =>
      obtain ⟨rfl, rfl⟩ := Reader.pure_eq_some.1 h
      exact .inl ⟨hWide, rfl, rfl, rfl⟩
    | succ slots =>
      obtain ⟨more, hMore, rfl⟩ := Reader.map_eq_some.1 h
      exact .inr ⟨slots, more, by omega, hMore, rfl⟩
  · rename_i hNarrow
    have hWidth : c.width = 1 := by simp [width, hNarrow]
    obtain ⟨more, hMore, rfl⟩ := Reader.map_eq_some.1 h
    exact .inr ⟨slots, more, by omega, hMore, rfl⟩

/-- The slots of a table are those that its number announces, or one more: the second half of a wide
constant that starts in the last one. -/
theorem slots_readMany (h : readMany slots bytes = some (list, rest)) :
    (list.flatMap Pool.slotsOf).length = slots ∨
      ∃ before c, list.flatMap Pool.slotsOf = before ++ [c, .unusable] ∧
        before.length + 1 = slots ∧ c.isWide = true := by
  induction slots using Nat.strongRecOn generalizing bytes list with
  | ind slots ih =>
    cases slots with
    | zero =>
      obtain ⟨rfl, -⟩ := Reader.pure_eq_some.1 h
      exact .inl rfl
    | succ slots =>
      obtain ⟨c, mid, -, ⟨hWide, rfl, rfl, -⟩ | ⟨fewer, more, hWidth, hMore, rfl⟩⟩ :=
        readMany_succ_eq_some h
      · exact .inr ⟨[], c, by simp [Pool.slotsOf, hWide], rfl, hWide⟩
      · have hPositive := c.one_le_width
        rw [List.flatMap_cons]
        obtain hLength | ⟨before, last, hSlots, hLength, hWide⟩ := ih fewer (by omega) hMore
        · refine .inl ?_
          rw [List.length_append, Pool.length_slotsOf, hLength]
          omega
        · refine .inr ⟨Pool.slotsOf c ++ before, last, by rw [hSlots, List.append_assoc], ?_, hWide⟩
          rw [List.length_append, Pool.length_slotsOf]
          omega

theorem length_readMany (h : readMany slots bytes = some (list, rest)) :
    (list.flatMap Pool.slotsOf).length ≤ slots + 1 := by
  obtain hLength | ⟨before, c, hSlots, hLength, -⟩ := slots_readMany h
  · omega
  · rw [hSlots, List.length_append]
    exact Nat.le_of_eq (by simp [hLength.symm])

end Constant

namespace Pool

theorem sound_foldl_append {list : List Constant} :
    ∀ {pool : Pool}, pool.Sound → pool.size + (list.flatMap slotsOf).length ≤ 65536 →
      (list.foldl append pool).Sound := by
  induction list with
  | nil => exact fun hSound _ => hSound
  | cons c more ih =>
    intro pool hSound hRoom
    rw [List.flatMap_cons, List.length_append, length_slotsOf] at hRoom
    refine ih (sound_append hSound (by omega)) ?_
    rw [size_append]
    omega

theorem sound_ofConstants {list : List Constant} (hRoom : (list.flatMap slotsOf).length < 65536) :
    (ofConstants list).Sound := by
  refine sound_foldl_append sound_empty ?_
  have hEmpty : empty.size = 1 := rfl
  omega

/-- Whatever is read as a pool was appended constant by constant. -/
theorem exists_ofConstants {bytes rest : Bytes} {pool : Pool}
    (hRead : read bytes = some (pool, rest)) :
    ∃ list, ofConstants list = pool ∧ (list.flatMap slotsOf).length < 65536 := by
  obtain ⟨count, mid, -, hRead⟩ := Reader.bind_eq_some.1 hRead
  split at hRead
  · exact absurd hRead Reader.failure_ne_some
  · obtain ⟨list, hList, hPool⟩ := Reader.map_eq_some.1 hRead
    have hCount := count.toNat_lt
    have hSlots := Constant.length_readMany hList
    exact ⟨list, hPool, by omega⟩

end Pool

namespace ClassFile

/-- The pool of a class file was appended constant by constant. -/
theorem constants_of_read {bytes rest : Bytes} {c : ClassFile} (h : read bytes = some (c, rest)) :
    ∃ list, Pool.ofConstants list = c.pool ∧ (list.flatMap Pool.slotsOf).length < 65536 := by
  obtain ⟨start, b₀, -, h⟩ := Reader.bind_eq_some.1 h
  split at h
  · obtain ⟨_, _, hFail, -⟩ := Reader.bind_eq_some.1 h
    exact absurd hFail Reader.failure_ne_some
  obtain ⟨minor, b₁, -, h⟩ := Reader.bind_eq_some.1 h
  obtain ⟨major, b₂, -, h⟩ := Reader.bind_eq_some.1 h
  obtain ⟨pool, b₃, hPool, h⟩ := Reader.bind_eq_some.1 h
  obtain ⟨access, b₄, -, h⟩ := Reader.bind_eq_some.1 h
  obtain ⟨thisClass, b₅, -, h⟩ := Reader.bind_eq_some.1 h
  obtain ⟨superClass, b₆, -, h⟩ := Reader.bind_eq_some.1 h
  obtain ⟨interfaces, b₇, -, h⟩ := Reader.bind_eq_some.1 h
  obtain ⟨fields, b₈, -, h⟩ := Reader.bind_eq_some.1 h
  obtain ⟨methods, b₉, -, h⟩ := Reader.bind_eq_some.1 h
  obtain ⟨attributes, b₁₀, -, h⟩ := Reader.bind_eq_some.1 h
  obtain ⟨rfl, -⟩ := Reader.pure_eq_some.1 h
  exact Pool.exists_ofConstants hPool

/-- A class file that is decoded takes all bytes. -/
theorem decode_eq_ok {bytes : Bytes} {c : ClassFile} :
    decode bytes = .ok c ↔ read bytes = some (c, []) := by
  unfold decode
  split
  · rename_i hRead
    simp [hRead]
  · rename_i hMore hRead
    simp only [hRead, Option.some.injEq, reduceCtorEq, false_iff]
    rintro rfl
    exact hMore c rfl
  · rename_i hRead
    simp [hRead]

/-- A class file that is accepted can be decoded. -/
theorem decode_of_parse {bytes : Bytes} {c : ClassFile} (hParse : parse bytes = .ok c) :
    decode bytes = .ok c := by
  simp only [parse, Outcome.bind_ok_iff, Outcome.pure_ok_iff] at hParse
  obtain ⟨_, hDecode, _, -, rfl⟩ := hParse
  exact hDecode

/-- The pool of every class file is sound. -/
theorem sound_decode {bytes : Bytes} {c : ClassFile} (h : decode bytes = .ok c) :
    c.pool.Sound := by
  obtain ⟨list, hPool, hRoom⟩ := constants_of_read (decode_eq_ok.1 h)
  rw [← hPool]
  exact Pool.sound_ofConstants hRoom

end ClassFile

end Jarsmith
