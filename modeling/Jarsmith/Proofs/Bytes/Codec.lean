import Jarsmith.Bytes
import Mathlib.Algebra.Order.Ring.Nat
import Mathlib.Data.List.Induction

/-!
# Readers and written forms

A reader takes a value off the front of a byte sequence, by the steps that it is made of. It is the
inverse of a written form if it takes exactly the written forms of some values, whatever follows
them. The relation composes: a table of rows is read back if its rows are.

* `Reader.bind_eq_some` — one step of a reader.
* `ofBig_big`, `big_ofBig` — big-endian numbers.
* `Reader.Reads` — a reader and the written form that it accepts.
* `Reader.reads_times`, `Reader.reads_table`, `Reader.reads_smallTable` — values in a row and tables.
-/

namespace Jarsmith

-- ---------------------------------------------------------------------------
-- Successful readers
-- ---------------------------------------------------------------------------

namespace Reader

variable {α β : Type} {bytes rest : Bytes}

/-- Inverts one step of a reader. -/
theorem bind_eq_some {x : Reader α} {f : α → Reader β} {b : β} :
    (x >>= f) bytes = some (b, rest) ↔
      ∃ a mid, x bytes = some (a, mid) ∧ f a mid = some (b, rest) := by
  show ((x bytes).bind fun p => f p.1 p.2) = some (b, rest) ↔ _
  rw [Option.bind_eq_some_iff]
  exact Prod.exists

theorem pure_eq_some {a b : α} :
    (pure a : Reader α) bytes = some (b, rest) ↔ a = b ∧ bytes = rest := by
  show some (a, bytes) = some (b, rest) ↔ _
  rw [Option.some.injEq, Prod.mk.injEq]

theorem map_eq_some {x : Reader α} {f : α → β} {b : β} :
    (f <$> x) bytes = some (b, rest) ↔ ∃ a, x bytes = some (a, rest) ∧ f a = b := by
  show ((x bytes).bind fun p => some (f p.1, p.2)) = some (b, rest) ↔ _
  rw [Option.bind_eq_some_iff]
  constructor
  · rintro ⟨⟨a, mid⟩, ha, h⟩
    cases h
    exact ⟨a, ha, rfl⟩
  · rintro ⟨a, ha, rfl⟩
    exact ⟨(a, rest), ha, rfl⟩

/-- Inverts the last argument of a constructor that is applied to readers. -/
theorem seq_eq_some {f : Reader (α → β)} {x : Reader α} {b : β} :
    (f <*> x) bytes = some (b, rest) ↔
      ∃ g mid, f bytes = some (g, mid) ∧ ∃ a, x mid = some (a, rest) ∧ g a = b := by
  rw [seq_eq_bind_map, bind_eq_some]
  simp only [map_eq_some]

theorem failure_ne_some {b : β} : (failure : Reader β) bytes ≠ some (b, rest) := by
  intro h
  cases h

end Reader

-- ---------------------------------------------------------------------------
-- Big-endian numbers
-- ---------------------------------------------------------------------------

theorem ofBig_concat (bytes : Bytes) (b : UInt8) :
    ofBig (bytes ++ [b]) = ofBig bytes * 256 + b.toNat := by
  rw [ofBig, List.foldl_append]
  rfl

theorem ofBig_big {w n : Nat} (hBound : n < 256 ^ w) : ofBig (big w n) = n := by
  induction w generalizing n with
  | zero => exact (Nat.lt_one_iff.1 hBound).symm
  | succ w ih =>
    have hHigh : n / 256 < 256 ^ w := Nat.div_lt_of_lt_mul (by rwa [Nat.mul_comm, ← Nat.pow_succ])
    have hLow : (UInt8.ofNat n).toNat = n % 256 := UInt8.toNat_ofNat'
    rw [big, ofBig_concat, ih hHigh, hLow]
    exact Nat.div_add_mod' n 256

theorem big_ofBig (bytes : Bytes) : big bytes.length (ofBig bytes) = bytes := by
  induction bytes using List.reverseRecOn with
  | nil => rfl
  | append_singleton bytes b ih =>
    have hHigh : (ofBig bytes * 256 + b.toNat) / 256 = ofBig bytes := by
      have := b.toNat_lt
      omega
    have hLow : UInt8.ofNat (ofBig bytes * 256 + b.toNat) = b := by
      refine UInt8.toNat_inj.1 ?_
      rw [UInt8.toNat_ofNat', Nat.mul_add_mod_self_right, Nat.mod_eq_of_lt b.toNat_lt]
    rw [List.length_append, List.length_singleton, big, ofBig_concat, hHigh, ih, hLow]

theorem ofBig_lt (bytes : Bytes) : ofBig bytes < 256 ^ bytes.length := by
  induction bytes using List.reverseRecOn with
  | nil => exact Nat.one_pos
  | append_singleton bytes b ih =>
    have := b.toNat_lt
    rw [ofBig_concat, List.length_append, List.length_singleton, Nat.pow_succ]
    omega

/-- A count in front of the written forms of the rows. -/
def tableBytes {α : Type} (w : α → Bytes) (rows : List α) : Bytes :=
  putU16 (UInt16.ofNat rows.length) ++ rows.flatMap w

namespace Reader

variable {α β : Type} {r : Reader α} {w : α → Bytes} {P : α → Prop} {bytes rest : Bytes}

/-- The reader takes the written form of each value that satisfies `P` off the front, and accepts
nothing else. -/
structure Reads (r : Reader α) (w : α → Bytes) (P : α → Prop) : Prop where
  eq_some : ∀ {bytes v rest}, r bytes = some (v, rest) ↔ P v ∧ bytes = w v ++ rest

/-- A value that stands for another one. -/
theorem Reads.map {mk : α → β} {w' : β → Bytes} {Q : β → Prop} (h : Reads r w P)
    (hw : ∀ a, w' (mk a) = w a) (hQ : ∀ b, Q b ↔ ∃ a, P a ∧ mk a = b) : Reads (mk <$> r) w' Q where
  eq_some {bytes b rest} := by
    simp only [map_eq_some, h.eq_some, hQ]
    constructor
    · rintro ⟨a, ⟨ha, rfl⟩, rfl⟩
      exact ⟨⟨a, ha, rfl⟩, by rw [hw]⟩
    · rintro ⟨⟨a, ha, rfl⟩, rfl⟩
      exact ⟨a, ⟨ha, by rw [hw]⟩, rfl⟩

theorem reads_failure : Reads (failure : Reader α) w fun _ => False where
  eq_some := iff_of_false failure_ne_some And.left

-- ---------------------------------------------------------------------------
-- Bytes and numbers
-- ---------------------------------------------------------------------------

theorem reads_byte : Reads byte (fun b => [b]) fun _ => True where
  eq_some {bytes v rest} := by
    cases bytes with
    | nil => simp [byte]
    | cons b more => simp [byte]

theorem reads_take (n : Nat) : Reads (take n) id (fun v => v.length = n) where
  eq_some {bytes v rest} := by
    have hTake : take n bytes = some (v, rest) ↔
        (bytes.take n).length = n ∧ bytes.take n = v ∧ bytes.drop n = rest := by
      unfold take
      dsimp only
      split
      · rename_i hLength
        rw [Option.some.injEq, Prod.mk.injEq, iff_and_self]
        exact fun _ => hLength
      · rename_i hLength
        exact iff_of_false (Option.some_ne_none _).symm fun h => hLength h.1
    rw [hTake, id]
    constructor
    · rintro ⟨hLength, rfl, rfl⟩
      exact ⟨hLength, (List.take_append_drop n bytes).symm⟩
    · rintro ⟨hLength, rfl⟩
      rw [← hLength, List.take_left, List.drop_left]
      exact ⟨rfl, rfl, rfl⟩

theorem reads_big (w : Nat) : Reads (big w) (Jarsmith.big w) (· < 256 ^ w) where
  eq_some {bytes n rest} := by
    rw [big, map_eq_some]
    simp only [(reads_take w).eq_some, id]
    constructor
    · rintro ⟨taken, ⟨rfl, rfl⟩, rfl⟩
      exact ⟨ofBig_lt taken, by rw [big_ofBig]⟩
    · rintro ⟨hBound, rfl⟩
      exact ⟨_, ⟨length_big w n, rfl⟩, ofBig_big hBound⟩

theorem reads_u32 : Reads u32 (Jarsmith.big 4) (· < UInt32.size) := reads_big 4

theorem reads_u16 : Reads u16 putU16 fun _ => True where
  eq_some {bytes n rest} := by
    rw [u16, map_eq_some]
    simp only [(reads_big 2).eq_some, true_and]
    constructor
    · rintro ⟨k, ⟨hBound, rfl⟩, rfl⟩
      rw [putU16, UInt16.toNat_ofNat_of_lt' hBound]
    · rintro rfl
      exact ⟨n.toNat, ⟨n.toNat_lt, rfl⟩, UInt16.ofNat_toNat⟩

-- ---------------------------------------------------------------------------
-- Values in a row
-- ---------------------------------------------------------------------------

theorem reads_times (h : Reads r w P) (n : Nat) :
    Reads (times n r) (List.flatMap w) (fun l => l.length = n ∧ ∀ v ∈ l, P v) where
  eq_some {bytes l rest} := by
    induction n generalizing bytes l rest with
    | zero =>
      rw [times, pure_eq_some, List.length_eq_zero_iff]
      constructor
      · rintro ⟨rfl, rfl⟩
        exact ⟨⟨rfl, fun _ => nofun⟩, rfl⟩
      · rintro ⟨⟨rfl, -⟩, rfl⟩
        exact ⟨rfl, rfl⟩
    | succ n ih =>
      simp only [times, bind_eq_some, pure_eq_some, h.eq_some, ih]
      constructor
      · rintro ⟨v, _, ⟨hv, rfl⟩, l, _, ⟨⟨rfl, hl⟩, rfl⟩, rfl, rfl⟩
        exact ⟨⟨rfl, List.forall_mem_cons.2 ⟨hv, hl⟩⟩, (List.append_assoc _ _ _).symm⟩
      · rintro ⟨⟨hLength, hAll⟩, rfl⟩
        cases l with
        | nil => cases hLength
        | cons v l =>
          obtain ⟨hv, hl⟩ := List.forall_mem_cons.1 hAll
          exact ⟨v, _, ⟨hv, List.append_assoc _ _ _⟩, l, _,
            ⟨⟨Nat.succ.inj hLength, hl⟩, rfl⟩, rfl, rfl⟩

theorem reads_table (h : Reads r w P) :
    Reads (table r) (tableBytes w) (fun l => l.length < 65536 ∧ ∀ v ∈ l, P v) where
  eq_some {bytes l rest} := by
    simp only [table, bind_eq_some, reads_u16.eq_some, (reads_times h _).eq_some, true_and]
    constructor
    · rintro ⟨count, _, rfl, ⟨hLength, hAll⟩, rfl⟩
      rw [tableBytes, hLength, UInt16.ofNat_toNat, List.append_assoc]
      exact ⟨⟨count.toNat_lt, hAll⟩, rfl⟩
    · rintro ⟨⟨hBound, hAll⟩, rfl⟩
      exact ⟨_, _, List.append_assoc _ _ _, ⟨(UInt16.toNat_ofNat_of_lt hBound).symm, hAll⟩, rfl⟩

theorem reads_smallTable (h : Reads r w P) :
    Reads (smallTable r) (fun l => UInt8.ofNat l.length :: l.flatMap w)
      (fun l => l.length < 256 ∧ ∀ v ∈ l, P v) where
  eq_some {bytes l rest} := by
    simp only [smallTable, bind_eq_some, reads_byte.eq_some, (reads_times h _).eq_some, true_and]
    constructor
    · rintro ⟨count, _, rfl, ⟨hLength, hAll⟩, rfl⟩
      rw [hLength, UInt8.ofNat_toNat]
      exact ⟨⟨count.toNat_lt, hAll⟩, rfl⟩
    · rintro ⟨⟨hBound, hAll⟩, rfl⟩
      exact ⟨_, _, rfl, ⟨(UInt8.toNat_ofNat_of_lt hBound).symm, hAll⟩, rfl⟩

end Reader

end Jarsmith
