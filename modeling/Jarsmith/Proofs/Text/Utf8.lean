import Jarsmith.Proofs.Text.ModifiedUtf8
import Jarsmith.Text.Utf8

/-!
# UTF-8 reads back

The machine that reads bytes gives the characters of an encoded text, whatever bytes follow a
character, and finds no broken piece among them.

* `scan_encodeChar` — a character in front of any bytes.
* `lenient_encode` — a text.
* `encodeChar_cases` — an ASCII character is told by its byte.
* `zero_mem_encode` — where the byte zero stands in an encoded text.
* `Scans` — the ways of the machine through bytes; `chars_append_ascii` cuts them in front of an
  ASCII character.
* `flatMap_chars_eq_iff` — which pieces of an encoded text are read as the text.
-/

namespace Jarsmith.Utf8

open ModifiedUtf8 (toNat_ofNat toNat_char)

-- ---------------------------------------------------------------------------
-- Bytes of a sequence
-- ---------------------------------------------------------------------------

private theorem byte_mem {n : Nat} (low high : Nat) (hHigh : high < 256) (hn : low ≤ n ∧ n ≤ high) :
    UInt8.ofNat low ≤ UInt8.ofNat n ∧ UInt8.ofNat n ≤ UInt8.ofNat high := by
  rw [UInt8.le_iff_toNat_le, UInt8.le_iff_toNat_le, toNat_ofNat (by omega), toNat_ofNat (by omega),
    toNat_ofNat hHigh]
  exact hn

/-- The last byte of a sequence completes the character. -/
theorem scan_last {bits : Nat} {low high b : UInt8} (rest : Bytes) (hb : low ≤ b ∧ b ≤ high) :
    scan (some ⟨0, bits, low, high⟩) (b :: rest) =
      some (Char.ofNat (bits * 0x40 + b.toNat % 0x40)) :: scan none rest := by
  rw [scan]
  dsimp only
  rw [if_pos hb]

/-- A byte inside a sequence adds its bits. -/
theorem scan_inner {more bits : Nat} {low high b : UInt8} (rest : Bytes)
    (hb : low ≤ b ∧ b ≤ high) :
    scan (some ⟨more + 1, bits, low, high⟩) (b :: rest) =
      scan (some ⟨more, bits * 0x40 + b.toNat % 0x40, 0x80, 0xBF⟩) rest := by
  rw [scan]
  dsimp only
  rw [if_pos hb]

theorem scan_opens {b : UInt8} {pending : Pending} (rest : Bytes)
    (hLead : lead b = .opens pending) : scan none (b :: rest) = scan (some pending) rest := by
  rw [scan, hLead]

-- ---------------------------------------------------------------------------
-- First bytes
-- ---------------------------------------------------------------------------

theorem lead_one {n : Nat} (h : n ≤ 0x7F) : lead (UInt8.ofNat n) = .single (Char.ofNat n) := by
  rw [lead, toNat_ofNat (by omega)]
  exact if_pos (by omega)

theorem lead_two {n : Nat} (hLow : 0x80 ≤ n) (hHigh : n ≤ 0x7FF) :
    lead (UInt8.ofNat (n / 64 % 32 + 192)) = .opens ⟨0, n / 64, 0x80, 0xBF⟩ := by
  have hBits : (n / 64 % 32 + 192) % 0x20 = n / 64 := by omega
  rw [lead, toNat_ofNat (by omega), if_neg (by omega), if_neg (by omega), if_pos (by omega), hBits]

/-- The first of three bytes, and how it bounds the second one: overlong forms and surrogates are
left out. -/
theorem lead_three {n : Nat} (hLow : 0x800 ≤ n) (hHigh : n ≤ 0xFFFF)
    (hChar : n < 0xD800 ∨ 0xDFFF < n) :
    ∃ low high, lead (UInt8.ofNat (n / 4096 % 16 + 224)) = .opens ⟨1, n / 4096, low, high⟩ ∧
      low ≤ UInt8.ofNat (n / 64 % 64 + 128) ∧ UInt8.ofNat (n / 64 % 64 + 128) ≤ high := by
  have hLead : (UInt8.ofNat (n / 4096 % 16 + 224)).toNat = n / 4096 + 224 := by
    rw [toNat_ofNat (by omega)]
    omega
  rw [lead, hLead, if_neg (by omega), if_neg (by omega), if_neg (by omega)]
  by_cases hShort : n / 4096 = 0
  · refine ⟨0xA0, 0xBF, ?_, byte_mem 0xA0 0xBF (by omega) (by omega)⟩
    rw [if_pos (by omega), hShort]
  · rw [if_neg (by omega)]
    by_cases hSurrogate : n / 4096 = 0xD
    · refine ⟨0x80, 0x9F, ?_, byte_mem 0x80 0x9F (by omega) (by omega)⟩
      rw [if_pos (by omega), hSurrogate]
    · have hBits : (n / 4096 + 224) % 0x10 = n / 4096 := by omega
      refine ⟨0x80, 0xBF, ?_, byte_mem 0x80 0xBF (by omega) (by omega)⟩
      rw [if_neg (by omega), if_pos (by omega), hBits]

/-- The first of four bytes, and how it bounds the second one: overlong forms and numbers past the
last code point are left out. -/
theorem lead_four {n : Nat} (hLow : 0x10000 ≤ n) (hHigh : n < 0x110000) :
    ∃ low high, lead (UInt8.ofNat (n / 262144 % 8 + 240)) = .opens ⟨2, n / 262144, low, high⟩ ∧
      low ≤ UInt8.ofNat (n / 4096 % 64 + 128) ∧ UInt8.ofNat (n / 4096 % 64 + 128) ≤ high := by
  have hLead : (UInt8.ofNat (n / 262144 % 8 + 240)).toNat = n / 262144 + 240 := by
    rw [toNat_ofNat (by omega)]
    omega
  rw [lead, hLead, if_neg (by omega), if_neg (by omega), if_neg (by omega), if_neg (by omega),
    if_neg (by omega), if_neg (by omega)]
  by_cases hShort : n / 262144 = 0
  · refine ⟨0x90, 0xBF, ?_, byte_mem 0x90 0xBF (by omega) (by omega)⟩
    rw [if_pos (by omega), hShort]
  · rw [if_neg (by omega)]
    by_cases hLast : n / 262144 = 4
    · refine ⟨0x80, 0x8F, ?_, byte_mem 0x80 0x8F (by omega) (by omega)⟩
      rw [if_neg (by omega), if_pos (by omega), hLast]
    · have hBits : (n / 262144 + 240) % 8 = n / 262144 := by omega
      refine ⟨0x80, 0xBF, ?_, byte_mem 0x80 0xBF (by omega) (by omega)⟩
      rw [if_pos (by omega), hBits]

-- ---------------------------------------------------------------------------
-- Characters and texts
-- ---------------------------------------------------------------------------

/-- Every later byte of a sequence carries six bits. -/
private theorem tail_mem (n : Nat) : (0x80 : UInt8) ≤ UInt8.ofNat (n % 64 + 128) ∧
    UInt8.ofNat (n % 64 + 128) ≤ 0xBF :=
  byte_mem 0x80 0xBF (by omega) (by omega)

private theorem bits_tail (n : Nat) : (UInt8.ofNat (n % 64 + 128)).toNat % 0x40 = n % 64 := by
  rw [toNat_ofNat (by omega)]
  omega

/-- **An encoded character is read as that character**, whatever follows. -/
theorem scan_encodeChar (c : Char) (rest : Bytes) :
    scan none (String.utf8EncodeChar c ++ rest) = some c :: scan none rest := by
  obtain ⟨n, hn⟩ : ∃ n, c.val.toNat = n := ⟨_, rfl⟩
  obtain ⟨hChar, hEnd⟩ : (n < 0xD800 ∨ 0xDFFF < n) ∧ n < 0x110000 :=
    hn ▸ toNat_char c
  have hBack : Char.ofNat n = c := hn ▸ Char.ofNat_toNat c
  rw [String.utf8EncodeChar, hn]
  split
  · rename_i hOne
    rw [List.singleton_append, scan, lead_one hOne, ← hBack]
  · split
    · rename_i hOne hTwo
      have hBits : n / 64 * 0x40 + n % 64 = n := by omega
      rw [List.cons_append, List.singleton_append, scan_opens _ (lead_two (by omega) hTwo),
        scan_last _ (tail_mem n), bits_tail, hBits, hBack]
    · split
      · rename_i hTwo hThree
        obtain ⟨low, high, hLead, hSecond⟩ := lead_three (by omega) hThree hChar
        have hBits : (n / 4096 * 0x40 + n / 64 % 64) * 0x40 + n % 64 = n := by omega
        rw [List.cons_append, List.cons_append, List.singleton_append, scan_opens _ hLead,
          scan_inner _ hSecond, scan_last _ (tail_mem n), bits_tail, bits_tail, hBits, hBack]
      · obtain ⟨low, high, hLead, hSecond⟩ := lead_four (by omega) hEnd
        have hBits : ((n / 262144 * 0x40 + n / 4096 % 64) * 0x40 + n / 64 % 64) * 0x40 + n % 64 =
            n := by omega
        rw [List.cons_append, List.cons_append, List.cons_append, List.singleton_append,
          scan_opens _ hLead, scan_inner _ hSecond, scan_inner _ (tail_mem (n / 64)),
          scan_last _ (tail_mem n), bits_tail, bits_tail, bits_tail, hBits, hBack]

theorem scalars_encode (text : String) : scalars (encode text) = text.toList.map some := by
  rw [scalars, encode]
  induction text.toList with
  | nil => rfl
  | cons c more ih => rw [List.flatMap_cons, scan_encodeChar, ih, List.map_cons]

/-- **A text reads back from its encoding.** -/
theorem lenient_encode (text : String) : lenient (encode text) = text := by
  have hSame : (fun c : Option Char => c.getD replacement) ∘ some = id := rfl
  rw [lenient, scalars_encode, List.map_map, hSame, List.map_id, String.ofList_toList]

theorem decode?_encode (text : String) : decode? (encode text) = some text := by
  have hSome : ∀ chars : List Char, (chars.map some).mapM id = some chars := by
    intro chars
    induction chars with
    | nil => rfl
    | cons c more ih => simp [List.mapM_cons, ih]
  rw [decode?, scalars_encode, hSome, Option.map_some, String.ofList_toList]

theorem encode_inj {text text' : String} (h : encode text = encode text') : text = text' := by
  rw [← lenient_encode text, h, lenient_encode]

/-- An ASCII character is one byte, and of another one every byte is marked. -/
theorem encodeChar_cases (c : Char) :
    c.toNat < 0x80 ∧ String.utf8EncodeChar c = [UInt8.ofNat c.toNat] ∨
      0x80 ≤ c.toNat ∧ ∃ b more, String.utf8EncodeChar c = b :: more ∧ 0xC0 ≤ b.toNat ∧
        ∀ d ∈ b :: more, 0x80 ≤ d.toNat := by
  obtain ⟨n, hn⟩ : ∃ n, c.toNat = n := ⟨_, rfl⟩
  have hEnd : n < 0x110000 := hn ▸ (toNat_char c).2
  have hCode : c.val.toNat = n := hn
  have hNat : ∀ {m}, m < 256 → (UInt8.ofNat m).toNat = m := toNat_ofNat
  rw [hn, String.utf8EncodeChar, hCode]
  split
  · exact .inl ⟨by omega, rfl⟩
  refine .inr ⟨by omega, ?_⟩
  split
  · refine ⟨_, _, rfl, ?_, ?_⟩
    · rw [hNat (by omega)]
      omega
    · simp only [List.forall_mem_cons]
      refine ⟨?_, ?_, nofun⟩ <;> (rw [hNat (by omega)]; omega)
  split
  · refine ⟨_, _, rfl, ?_, ?_⟩
    · rw [hNat (by omega)]
      omega
    · simp only [List.forall_mem_cons]
      refine ⟨?_, ?_, ?_, nofun⟩ <;> (rw [hNat (by omega)]; omega)
  · refine ⟨_, _, rfl, ?_, ?_⟩
    · rw [hNat (by omega)]
      omega
    · simp only [List.forall_mem_cons]
      refine ⟨?_, ?_, ?_, ?_, nofun⟩ <;> (rw [hNat (by omega)]; omega)

/-- Only the character zero is encoded with the byte zero. -/
theorem zero_mem_encodeChar {c : Char} (h : 0 ∈ String.utf8EncodeChar c) : c = Char.ofNat 0 := by
  have hNonzero : ∀ n, n < 256 → (0 : UInt8) = UInt8.ofNat n → n = 0 := fun n hn hZero => by
    rw [← toNat_ofNat hn, ← hZero]
    rfl
  obtain ⟨n, hn⟩ : ∃ n, c.val.toNat = n := ⟨_, rfl⟩
  rw [String.utf8EncodeChar, hn] at h
  have hZero : n = 0 := by
    repeat' split at h
    all_goals simp only [List.mem_cons, List.not_mem_nil, or_false] at h
    · exact hNonzero n (by omega) h
    -- in a longer sequence every byte is marked
    · rcases h with h | h <;> exact absurd (hNonzero _ (by omega) h) (by omega)
    · rcases h with h | h | h <;> exact absurd (hNonzero _ (by omega) h) (by omega)
    · rcases h with h | h | h | h <;> exact absurd (hNonzero _ (by omega) h) (by omega)
  rw [← hZero, ← hn]
  exact (Char.ofNat_toNat c).symm

theorem zero_mem_encode {text : String} (h : 0 ∈ encode text) : Char.ofNat 0 ∈ text.toList := by
  obtain ⟨c, hMem, hChar⟩ := List.mem_flatMap.1 h
  exact zero_mem_encodeChar hChar ▸ hMem

-- ---------------------------------------------------------------------------
-- Texts that are cut
-- ---------------------------------------------------------------------------

/-- A byte that goes on with a sequence. -/
def isTail (b : UInt8) : Bool := 0x80 ≤ b.toNat && b.toNat < 0xC0

theorem isTail_iff {b : UInt8} : isTail b = true ↔ 0x80 ≤ b.toNat ∧ b.toNat < 0xC0 := by
  simp [isTail]

/-- A sequence goes on with tails, and what it ends in is no ASCII character. -/
structure Pending.GoesOn (p : Pending) : Prop where
  tail : ∀ b, p.low ≤ b ∧ b ≤ p.high → isTail b
  bits : ∀ b, p.low ≤ b ∧ b ≤ p.high → 2 ≤ p.bits * 0x40 + b.toNat % 0x40
  last : p.more = 0 → 2 ≤ p.bits

theorem goesOn_of_bits {more bits : Nat} {low high : UInt8} (hLow : 0x80 ≤ low.toNat)
    (hHigh : high.toNat < 0xC0) (hBits : 1 ≤ bits ∨ 0x82 ≤ low.toNat)
    (hLast : more = 0 → 2 ≤ bits) : Pending.GoesOn ⟨more, bits, low, high⟩ := by
  refine ⟨fun b hb => ?_, fun b hb => ?_, hLast⟩
  all_goals
    obtain ⟨hAbove, hBelow⟩ := hb
    rw [UInt8.le_iff_toNat_le] at hAbove hBelow
    dsimp only at hAbove hBelow ⊢
  · rw [isTail_iff]
    omega
  · omega

theorem goesOn_of_lead {b : UInt8} {p : Pending} (h : lead b = .opens p) : p.GoesOn := by
  unfold lead at h
  dsimp only at h
  repeat' split at h
  all_goals cases h
  all_goals refine goesOn_of_bits (by decide) (by decide) ?_ ?_
  all_goals first | omega | exact .inr (by decide)

theorem Pending.GoesOn.next {more bits : Nat} {low high b : UInt8}
    (h : Pending.GoesOn ⟨more + 1, bits, low, high⟩) (hb : low ≤ b ∧ b ≤ high) :
    Pending.GoesOn ⟨more, bits * 0x40 + b.toNat % 0x40, 0x80, 0xBF⟩ :=
  have hBits := h.bits b hb
  goesOn_of_bits (by decide) (by decide) (.inl (by dsimp only at hBits; omega)) fun _ => hBits

theorem lead_ascii {b : UInt8} (h : b.toNat < 0x80) : lead b = .single (Char.ofNat b.toNat) :=
  if_pos h

theorem lead_tail {b : UInt8} (h : isTail b) : lead b = .broken := by
  rw [isTail_iff] at h
  rw [lead, if_neg (by omega), if_pos (by omega)]

theorem lead_single {b : UInt8} {c : Char} (h : lead b = .single c) :
    b.toNat < 0x80 ∧ c = Char.ofNat b.toNat := by
  unfold lead at h
  dsimp only at h
  repeat' split at h
  all_goals cases h
  exact ⟨by assumption, rfl⟩

theorem scan_single {b : UInt8} {c : Char} (rest : Bytes) (hLead : lead b = .single c) :
    scan none (b :: rest) = some c :: scan none rest := by
  rw [scan, hLead]

theorem scan_broken {b : UInt8} (rest : Bytes) (hLead : lead b = .broken) :
    scan none (b :: rest) = none :: scan none rest := by
  rw [scan, hLead]

/-- A byte that does not go on with the sequence is read for itself. -/
theorem scan_breaks {p : Pending} {b : UInt8} (rest : Bytes) (hb : ¬ (p.low ≤ b ∧ b ≤ p.high)) :
    scan (some p) (b :: rest) = none :: scan none (b :: rest) := by
  cases hLead : lead b with
  | single c => rw [scan_single rest hLead, scan, if_neg hb, hLead]
  | opens next => rw [scan_opens rest hLead, scan, if_neg hb, hLead]
  | broken => rw [scan_broken rest hLead, scan, if_neg hb, hLead]

/-- The ways of the machine through bytes. -/
inductive Scans : Option Pending → Bytes → List (Option Char) → Prop where
  | done : Scans none [] []
  | stopped {p : Pending} : p.GoesOn → Scans (some p) [] [none]
  | single {b : UInt8} {rest : Bytes} {c : Char} {chars : List (Option Char)} :
      lead b = .single c → Scans none rest chars → Scans none (b :: rest) (some c :: chars)
  | opens {b : UInt8} {rest : Bytes} {p : Pending} {chars : List (Option Char)} :
      lead b = .opens p → Scans (some p) rest chars → Scans none (b :: rest) chars
  | broken {b : UInt8} {rest : Bytes} {chars : List (Option Char)} :
      lead b = .broken → Scans none rest chars → Scans none (b :: rest) (none :: chars)
  | last {bits : Nat} {low high b : UInt8} {rest : Bytes} {chars : List (Option Char)} :
      Pending.GoesOn ⟨0, bits, low, high⟩ → low ≤ b ∧ b ≤ high → Scans none rest chars →
        Scans (some ⟨0, bits, low, high⟩) (b :: rest)
          (some (Char.ofNat (bits * 0x40 + b.toNat % 0x40)) :: chars)
  | inner {more bits : Nat} {low high b : UInt8} {rest : Bytes} {chars : List (Option Char)} :
      Pending.GoesOn ⟨more + 1, bits, low, high⟩ → low ≤ b ∧ b ≤ high →
        Scans (some ⟨more, bits * 0x40 + b.toNat % 0x40, 0x80, 0xBF⟩) rest chars →
          Scans (some ⟨more + 1, bits, low, high⟩) (b :: rest) chars
  | breaks {p : Pending} {b : UInt8} {rest : Bytes} {chars : List (Option Char)} :
      ¬ (p.low ≤ b ∧ b ≤ p.high) → Scans none (b :: rest) chars →
        Scans (some p) (b :: rest) (none :: chars)

theorem scans_scan (bytes : Bytes) :
    Scans none bytes (scan none bytes) ∧ ∀ p : Pending, p.GoesOn →
      Scans (some p) bytes (scan (some p) bytes) := by
  induction bytes with
  | nil => exact ⟨.done, fun _ hGoes => .stopped hGoes⟩
  | cons b rest ih =>
    obtain ⟨hStart, hInside⟩ := ih
    have hFirst : Scans none (b :: rest) (scan none (b :: rest)) := by
      cases hLead : lead b with
      | single c => exact scan_single rest hLead ▸ .single hLead hStart
      | opens p => exact scan_opens rest hLead ▸ .opens hLead (hInside p (goesOn_of_lead hLead))
      | broken => exact scan_broken rest hLead ▸ .broken hLead hStart
    refine ⟨hFirst, fun p hGoes => ?_⟩
    obtain ⟨more, bits, low, high⟩ := p
    by_cases hb : low ≤ b ∧ b ≤ high
    · cases more with
      | zero => exact scan_last rest hb ▸ .last hGoes hb hStart
      | succ more => exact scan_inner rest hb ▸ .inner hGoes hb (hInside _ (hGoes.next hb))
    · exact scan_breaks (p := ⟨more, bits, low, high⟩) rest hb ▸ .breaks hb hFirst

section Scans

variable {b : UInt8} {bytes : Bytes} {p : Option Pending} {found : List (Option Char)}

/-- A text is cut in front of an ASCII character, whatever sequence stops there. -/
theorem Scans.append_ascii (h : Scans p bytes found) (hb : b.toNat < 0x80) (more : Bytes) :
    scan p (bytes ++ b :: more) = found ++ scan none (b :: more) := by
  induction h with
  | done => rfl
  | stopped hGoes =>
    refine scan_breaks more fun hIn => ?_
    have hTail := isTail_iff.1 (hGoes.tail b hIn)
    omega
  | single hLead _ ih => rw [List.cons_append, scan_single _ hLead, ih, List.cons_append]
  | opens hLead _ ih => rw [List.cons_append, scan_opens _ hLead, ih]
  | broken hLead _ ih => rw [List.cons_append, scan_broken _ hLead, ih, List.cons_append]
  | last _ hIn _ ih => rw [List.cons_append, scan_last _ hIn, ih, List.cons_append]
  | inner _ hIn _ ih => rw [List.cons_append, scan_inner _ hIn, ih]
  | breaks hOut _ ih =>
    rw [List.cons_append] at ih ⊢
    rw [scan_breaks _ hOut, ih, List.cons_append]

/-- A number gives the character zero unless it is the number of a character. -/
theorem toNat_of_ofNat {n : Nat} (h : 0 < (Char.ofNat n).toNat) : (Char.ofNat n).toNat = n := by
  by_cases hValid : n.isValidChar
  · rw [Char.ofNat, dif_pos hValid]
    rfl
  · rw [Char.ofNat, dif_neg hValid] at h
    exact absurd h (Nat.lt_irrefl 0)

/-- An ASCII character is read where its byte stands. -/
theorem Scans.mem_of_ascii (h : Scans p bytes found) {c : Char} (hZero : 0 < c.toNat)
    (hc : c.toNat < 0x80) (hMem : some c ∈ found) : UInt8.ofNat c.toNat ∈ bytes := by
  induction h with
  | done => cases hMem
  | stopped => cases hMem with | tail _ hMem => cases hMem
  | single hLead _ ih =>
    obtain hSame | hMem := List.mem_cons.1 hMem
    · obtain ⟨-, rfl⟩ := lead_single hLead
      obtain rfl := Option.some.inj hSame
      rw [toNat_of_ofNat hZero, UInt8.ofNat_toNat]
      exact List.mem_cons_self
    · exact List.mem_cons_of_mem _ (ih hMem)
  | opens _ _ ih | inner _ _ _ ih => exact List.mem_cons_of_mem _ (ih hMem)
  | broken _ _ ih => cases hMem with | tail _ hMem => exact List.mem_cons_of_mem _ (ih hMem)
  | last hGoes hIn _ ih =>
    obtain hSame | hMem := List.mem_cons.1 hMem
    · obtain rfl := Option.some.inj hSame
      have hBits := hGoes.last rfl
      rw [toNat_of_ofNat hZero] at hc
      dsimp only at hBits
      omega
    · exact List.mem_cons_of_mem _ (ih hMem)
  | breaks _ _ ih => cases hMem with | tail _ hMem => exact ih hMem

/-- A byte that is no tail starts a character, whether what stood before it was broken or not. -/
theorem Scans.countP_le (h : Scans p bytes found) :
    bytes.countP (!isTail ·) + p.toList.length ≤ found.length := by
  induction h with
  | done => exact Nat.le_refl 0
  | stopped => exact Nat.le_refl 1
  | single _ _ ih | broken _ _ ih =>
    rw [List.countP_cons, List.length_cons]
    split <;> omega
  | opens _ _ ih =>
    rw [Option.toList_some, List.length_singleton] at ih
    rw [List.countP_cons, Option.toList_none, List.length_nil]
    split <;> omega
  | last hGoes hIn _ ih =>
    have hTail := hGoes.tail _ hIn
    rw [List.countP_cons, hTail]
    simpa using ih
  | inner hGoes hIn _ ih =>
    have hTail := hGoes.tail _ hIn
    rw [List.countP_cons, hTail]
    simpa using ih
  | breaks _ _ ih =>
    simpa using ih

end Scans

/-- The characters of bytes, with the replacement character for each broken piece. -/
def chars (bytes : Bytes) : List Char := (lenient bytes).toList

theorem chars_eq (bytes : Bytes) : chars bytes = (scan none bytes).map (·.getD replacement) :=
  String.toList_ofList

@[simp] theorem chars_nil : chars [] = [] := rfl

@[simp] theorem chars_encode (text : String) : chars (encode text) = text.toList :=
  congrArg String.toList (lenient_encode text)

/-- **A text is cut in front of an ASCII character**, also where a sequence is broken there. -/
theorem chars_append_ascii {b : UInt8} (hb : b.toNat < 0x80) (front back : Bytes) :
    chars (front ++ b :: back) = chars front ++ Char.ofNat b.toNat :: chars back := by
  rw [chars_eq, (scans_scan front).1.append_ascii hb, List.map_append, ← chars_eq,
    scan_single back (lead_ascii hb), List.map_cons, ← chars_eq]
  rfl

theorem mem_of_mem_chars {c : Char} (hZero : 0 < c.toNat) (hc : c.toNat < 0x80) {bytes : Bytes}
    (h : c ∈ chars bytes) : UInt8.ofNat c.toNat ∈ bytes := by
  rw [chars_eq] at h
  obtain ⟨o, hMem, rfl⟩ := List.mem_map.1 h
  cases o with
  | none => exact absurd hc (by decide)
  | some c => exact (scans_scan bytes).1.mem_of_ascii hZero hc hMem

theorem countP_le_length_chars (bytes : Bytes) :
    bytes.countP (!isTail ·) ≤ (chars bytes).length := by
  rw [chars_eq, List.length_map]
  exact (scans_scan bytes).1.countP_le

/-- A tail that goes on with nothing is a broken piece of its own. -/
theorem countP_lt_length_chars {b : UInt8} (hb : isTail b) (rest : Bytes) :
    (b :: rest).countP (!isTail ·) < (chars (b :: rest)).length := by
  rw [chars_eq, scan_broken rest (lead_tail hb), List.map_cons, List.length_cons, ← chars_eq,
    List.countP_cons_of_neg (by simp [hb])]
  exact Nat.lt_succ_of_le (countP_le_length_chars rest)

theorem chars_ne_nil {bytes : Bytes} (h : bytes ≠ []) : chars bytes ≠ [] := by
  obtain ⟨b, rest, rfl⟩ := List.exists_cons_of_ne_nil h
  refine List.ne_nil_of_length_pos ?_
  by_cases hb : isTail b
  · exact Nat.zero_lt_of_lt (countP_lt_length_chars hb rest)
  · refine Nat.lt_of_lt_of_le ?_ (countP_le_length_chars (b :: rest))
    rw [List.countP_cons_of_pos (by simp [hb])]
    exact Nat.succ_pos _

/-- The encoding of a character is a byte that is no tail and tails behind it. -/
theorem exists_encodeChar (c : Char) : ∃ b more,
    String.utf8EncodeChar c = b :: more ∧ isTail b = false ∧ ∀ d ∈ more, isTail d := by
  obtain ⟨n, hn⟩ : ∃ n, c.val.toNat = n := ⟨_, rfl⟩
  have hEnd : n < 0x110000 := hn ▸ (toNat_char c).2
  have hFirst : ∀ m, m < 0x80 ∨ 0xC0 ≤ m → m < 256 → isTail (UInt8.ofNat m) = false := by
    intro m hm hByte
    rw [← Bool.not_eq_true, isTail_iff, toNat_ofNat hByte]
    omega
  have hTail : ∀ m, isTail (UInt8.ofNat (m % 64 + 128)) = true := by
    intro m
    rw [isTail_iff, toNat_ofNat (by omega)]
    omega
  rw [String.utf8EncodeChar, hn]
  repeat' split
  · exact ⟨_, [], rfl, hFirst _ (by omega) (by omega), nofun⟩
  all_goals
    refine ⟨_, _, rfl, hFirst _ (by omega) (by omega), ?_⟩
    simp only [List.forall_mem_cons, hTail, true_and]
    exact nofun

/-- Bytes that a text can be cut in front of. -/
def StartsCharacter (bytes : Bytes) : Prop := ∀ b ∈ bytes.head?, isTail b = false

/-- An encoded text that is cut between characters is two encoded texts. -/
theorem exists_of_append_eq_encode {front back : Bytes} {text : List Char}
    (h : front ++ back = text.flatMap String.utf8EncodeChar) (hBack : StartsCharacter back) :
    ∃ before after, text = before ++ after ∧ front = before.flatMap String.utf8EncodeChar ∧
      back = after.flatMap String.utf8EncodeChar := by
  induction text generalizing front with
  | nil =>
    obtain ⟨rfl, rfl⟩ := List.append_eq_nil_iff.1 h
    exact ⟨[], [], rfl, rfl, rfl⟩
  | cons c text ih =>
    cases front with
    | nil => exact ⟨[], c :: text, rfl, rfl, h⟩
    | cons d front =>
      obtain ⟨b, more, hChar, -, hTails⟩ := exists_encodeChar c
      rw [List.flatMap_cons, hChar, List.cons_append, List.cons_append] at h
      obtain ⟨rfl, hRest⟩ := List.cons.inj h
      obtain ⟨inner, rfl, rfl⟩ | ⟨inner, rfl, hInner⟩ := List.append_eq_append_iff.1 hRest
      · cases inner with
        | nil =>
          refine ⟨[c], text, rfl, ?_, rfl⟩
          rw [List.flatMap_singleton, hChar, List.append_nil]
        | cons e inner =>
          -- the cut would be inside the character
          have hOut : isTail e = false := hBack e rfl
          rw [hTails e (List.mem_append_right _ List.mem_cons_self)] at hOut
          cases hOut
      · obtain ⟨before, after, rfl, rfl, rfl⟩ := ih hInner.symm
        refine ⟨c :: before, after, rfl, ?_, rfl⟩
        rw [List.flatMap_cons, hChar, List.cons_append]

theorem StartsCharacter.flatten {pieces : List Bytes}
    (h : ∀ piece ∈ pieces, StartsCharacter piece) : StartsCharacter pieces.flatten := by
  induction pieces with
  | nil => exact nofun
  | cons piece more ih =>
    obtain ⟨hPiece, hMore⟩ := List.forall_mem_cons.1 h
    cases piece with
    | nil => exact ih hMore
    | cons b rest => exact hPiece

theorem length_le_countP_encode (text : String) :
    text.toList.length ≤ (encode text).countP (!isTail ·) := by
  rw [encode]
  induction text.toList with
  | nil => exact Nat.le_refl 0
  | cons c more ih =>
    obtain ⟨b, rest, hChar, hFirst, -⟩ := exists_encodeChar c
    rw [List.flatMap_cons, hChar, List.cons_append, List.countP_cons_of_pos (by simp [hFirst]),
      List.countP_append, List.length_cons]
    omega

theorem countP_flatten_le (pieces : List Bytes) :
    pieces.flatten.countP (!isTail ·) ≤ (pieces.flatMap chars).length := by
  induction pieces with
  | nil => exact Nat.le_refl 0
  | cons piece more ih =>
    have hPiece := countP_le_length_chars piece
    rw [List.flatten_cons, List.countP_append, List.flatMap_cons, List.length_append]
    omega

/-- **The pieces of an encoded text are read as the text exactly if no cut is inside a character.**
Behind such a cut there is a character too many. -/
theorem flatMap_chars_eq_iff {first : Bytes} {more : List Bytes} {text : String}
    (h : first ++ more.flatten = encode text) :
    (first :: more).flatMap chars = text.toList ↔ ∀ piece ∈ more, StartsCharacter piece := by
  constructor
  · intro hRead piece hPiece b hb
    obtain ⟨rest, rfl⟩ : ∃ rest, piece = b :: rest := List.head?_eq_some_iff.1 hb
    refine Bool.of_not_eq_true fun hTail => ?_
    obtain ⟨before, after, rfl⟩ := List.append_of_mem hPiece
    have hFront := countP_flatten_le (first :: before)
    have hCut := countP_lt_length_chars hTail rest
    have hBack := countP_flatten_le after
    have hAll := length_le_countP_encode text
    rw [← h, ← hRead] at hAll
    simp only [List.flatMap_cons, List.flatMap_append, List.flatten_cons, List.flatten_append,
      List.countP_append, List.length_append] at hAll hFront
    omega
  · intro hStarts
    have hText : first ++ more.flatten = text.toList.flatMap String.utf8EncodeChar := h
    clear h
    generalize text.toList = characters at hText ⊢
    have hEncode : ∀ l : List Char, chars (l.flatMap String.utf8EncodeChar) = l := by
      intro l
      rw [← String.toList_ofList (l := l), ← encode, chars_encode]
    induction more generalizing first characters with
    | nil =>
      rw [List.flatten_nil, List.append_nil] at hText
      rw [List.flatMap_singleton, hText, hEncode]
    | cons piece more ih =>
      obtain ⟨before, after, rfl, rfl, hRest⟩ :=
        exists_of_append_eq_encode hText (StartsCharacter.flatten hStarts)
      rw [List.flatMap_cons, hEncode,
        ih (List.forall_mem_cons.1 hStarts).2 after hRest]

end Jarsmith.Utf8
