import Jarsmith.Proofs.Pool.Sound
import Jarsmith.Proofs.Text.ModifiedUtf8
import Mathlib.Data.List.Forall2

/-!
# Edits of a pool

What an edit does when it succeeds. An edit is taken apart step by step with the `yields_` lemmas;
two relations between the pool before and the pool after carry what later steps rely on.

* `Yields` — an edit turns one pool into another and gives a value.
* `Keeps` — the entries stay, but for some that name nothing, and only names were appended.
* `AddsNames` — an edit that keeps every entry and the soundness of the tables.
* `internText_spec`, `internNameAndType_spec`, `repoint_spec` — what is interned can be viewed at
  the index that comes back.
-/

namespace Jarsmith

/-- A constant that names something by itself. Identifiers lead to these. -/
def Constant.isName : Constant → Bool
  | utf8 _ | nameAndType _ _ => true
  | _ => false

namespace Pool

open Outcome

variable {α β : Type} {p q r : Pool}

-- ---------------------------------------------------------------------------
-- Inverting the edit monad
-- ---------------------------------------------------------------------------

/-- The edit `x` turns `p` into `q` and gives `a`. -/
def Yields (x : Edit α) (p : Pool) (a : α) (q : Pool) : Prop := x.run.run p = (.ok a, q)

theorem yields_pure {a b : α} : Yields (pure a) p b q ↔ a = b ∧ p = q := by
  show ((.ok a : Except ClassFault α), p) = (.ok b, q) ↔ _
  rw [Prod.mk.injEq, Except.ok.injEq]

/-- Inverts one step of a `do` block. -/
theorem yields_bind {x : Edit α} {f : α → Edit β} {b : β} :
    Yields (x >>= f) p b q ↔ ∃ a r, Yields x p a r ∧ Yields (f a) r b q := by
  show (x >>= f).run.run p = (.ok b, q) ↔ _
  simp only [ExceptT.run_bind, StateT.run_bind]
  unfold Yields
  generalize x.run.run p = first
  rcases first with ⟨_ | a, r⟩
  · constructor
    · intro h
      cases h
    · rintro ⟨a, r', h, -⟩
      cases h
  · constructor
    · exact fun h => ⟨a, r, rfl, h⟩
    · rintro ⟨a', r', h, h'⟩
      cases h
      exact h'

theorem yields_map {x : Edit α} {f : α → β} {b : β} :
    Yields (f <$> x) p b q ↔ ∃ a, Yields x p a q ∧ f a = b := by
  rw [map_eq_pure_bind, yields_bind]
  constructor
  · rintro ⟨a, r, hx, h⟩
    obtain ⟨rfl, rfl⟩ := yields_pure.1 h
    exact ⟨a, hx, rfl⟩
  · rintro ⟨a, hx, rfl⟩
    exact ⟨a, q, hx, yields_pure.2 ⟨rfl, rfl⟩⟩

theorem yields_liftM {x : ClassResult α} {a : α} :
    Yields (liftM x) p a q ↔ x = .ok a ∧ p = q := by
  show (x, p) = (.ok a, q) ↔ _
  rw [Prod.mk.injEq]

theorem yields_getThe {a : Pool} : Yields (getThe Pool) p a q ↔ p = a ∧ p = q := by
  show ((.ok p : Except ClassFault Pool), p) = (.ok a, q) ↔ _
  rw [Prod.mk.injEq, Except.ok.injEq]

theorem yields_modify {f : Pool → Pool} {u : PUnit} : Yields (modify f) p u q ↔ f p = q := by
  show ((.ok PUnit.unit : Except ClassFault PUnit), f p) = (.ok u, q) ↔ _
  simp

theorem not_yields_throw {e : ClassFault} {a : α} : ¬ Yields (throw e) p a q := by
  intro h
  cases h

theorem yields_reading {f : Pool → ClassResult α} {a : α} :
    Yields (reading f) p a q ↔ f p = .ok a ∧ p = q := by
  unfold reading
  rw [yields_bind]
  constructor
  · rintro ⟨_, _, h, h'⟩
    obtain ⟨rfl, rfl⟩ := yields_getThe.1 h
    cases hf : f p with
    | ok v =>
      rw [hf] at h'
      obtain ⟨rfl, rfl⟩ := yields_pure.1 h'
      exact ⟨rfl, rfl⟩
    | error e =>
      rw [hf] at h'
      exact absurd h' not_yields_throw
  · rintro ⟨h, rfl⟩
    exact ⟨p, p, yields_getThe.2 ⟨rfl, rfl⟩, by rw [h]; exact yields_pure.2 ⟨rfl, rfl⟩⟩

-- ---------------------------------------------------------------------------
-- What stays
-- ---------------------------------------------------------------------------

/-- From `p` to `q` only names were appended, and entries changed at most at the `touched` slots,
where neither the old nor the new one is a name. -/
structure Keeps (touched : Nat → Prop) (p q : Pool) : Prop where
  entry : ∀ {j c}, p.entries[j]? = some c → q.entries[j]? = some c ∨
    touched j ∧ c.isName = false ∧ ∃ d, q.entries[j]? = some d ∧ d.isName = false
  fresh : ∀ {j c}, q.entries[j]? = some c → p.size ≤ j → c.isName = true

/-- From `p` to `q` only names were appended. -/
abbrev Grows (p q : Pool) : Prop := Keeps (fun _ => False) p q

namespace Keeps

variable {touched touched' : Nat → Prop} {index : UInt16} {c : Constant}

theorem refl : Keeps touched p p where
  entry h := .inl h
  fresh h hj := by
    have hLt := (Array.getElem?_eq_some_iff.1 h).1
    unfold size at hj
    omega

theorem mono (h : Keeps touched p q) (hTouched : ∀ j, touched j → touched' j) :
    Keeps touched' p q where
  entry hj := (h.entry hj).imp_right fun ⟨ht, hName, hd⟩ => ⟨hTouched _ ht, hName, hd⟩
  fresh := h.fresh

/-- A slot of the first pool holds a name in both pools or in none. -/
theorem isName_eq (h : Keeps touched p q) {j : Nat} {d : Constant}
    (hp : p.entries[j]? = some c) (hq : q.entries[j]? = some d) : d.isName = c.isName := by
  rcases h.entry hp with hSame | ⟨-, hc, e, he, hName⟩
  · rw [hSame] at hq
    rw [Option.some.inj hq]
  · rw [he] at hq
    rw [hc, ← Option.some.inj hq, hName]

theorem size_le (h : Keeps touched p q) : p.size ≤ q.size := by
  refine Nat.le_of_not_lt fun hLt => ?_
  have hLast : p.entries[q.size]? = some p.entries[q.size] := Array.getElem?_eq_getElem hLt
  have hEntry : ∃ d, q.entries[q.size]? = some d := by
    rcases h.entry hLast with h | ⟨-, -, d, h, -⟩
    · exact ⟨_, h⟩
    · exact ⟨d, h⟩
  obtain ⟨d, hd⟩ := hEntry
  exact absurd (Array.getElem?_eq_some_iff.1 hd).1 (Nat.lt_irrefl _)

theorem trans (h : Keeps touched p q) (h' : Keeps touched' q r) :
    Keeps (fun j => touched j ∨ touched' j) p r where
  entry hj := by
    rcases h.entry hj with hq | ⟨ht, hName, d, hd, hdName⟩
    · rcases h'.entry hq with hr | ⟨ht, rest⟩
      · exact .inl hr
      · exact .inr ⟨.inr ht, rest⟩
    · refine .inr ⟨.inl ht, hName, ?_⟩
      rcases h'.entry hd with hr | ⟨-, -, e, he, heName⟩
      · exact ⟨d, hr, hdName⟩
      · exact ⟨e, he, heName⟩
  fresh {j c} hj hSize := by
    rcases Nat.lt_or_ge j q.size with hLt | hGe
    · have hq : q.entries[j]? = some q.entries[j] := Array.getElem?_eq_getElem hLt
      rw [h'.isName_eq hq hj]
      exact h.fresh hq hSize
    · exact h'.fresh hj hGe

theorem trans_same (h : Keeps touched p q) (h' : Keeps touched q r) : Keeps touched p r :=
  (h.trans h').mono fun _ ht => ht.elim id id

/-- A name stays, whatever is touched. -/
theorem find?_name (h : Keeps touched p q) (hp : p.find? index = some c)
    (hName : c.isName = true) : q.find? index = some c := by
  rw [find?_eq_some] at hp ⊢
  refine ⟨?_, hp.2⟩
  rcases h.entry hp.1 with hq | ⟨-, hc, -⟩
  · exact hq
  · rw [hName] at hc
    cases hc

/-- An entry that is not touched stays. -/
theorem find?_untouched (h : Keeps touched p q) (hp : p.find? index = some c)
    (hIndex : ¬ touched index.toNat) : q.find? index = some c := by
  rw [find?_eq_some] at hp ⊢
  refine ⟨?_, hp.2⟩
  rcases h.entry hp.1 with hq | ⟨ht, -⟩
  · exact hq
  · exact absurd ht hIndex

/-- A slot that cannot be used and is not touched cannot be used. -/
theorem find?_none (h : Keeps touched p q) (hSlot : index.toNat < p.size)
    (hp : p.find? index = none) (hIndex : ¬ touched index.toNat) : q.find? index = none := by
  have hEntry : p.entries[index.toNat]? = some p.entries[index.toNat] :=
    Array.getElem?_eq_getElem hSlot
  have hUnusable : p.entries[index.toNat] = .unusable := by
    by_contra hUsable
    rw [find?_eq_some.2 ⟨hEntry, hUsable⟩] at hp
    cases hp
  rw [hUnusable] at hEntry
  rcases h.entry hEntry with hq | ⟨ht, -⟩
  · unfold find?
    rw [hq]
  · exact absurd ht hIndex

theorem text (h : Keeps touched p q) {s : String} (hp : p.text index = .ok s) :
    q.text index = .ok s := by
  rw [text_eq_ok] at hp ⊢
  obtain ⟨raw, hFind, hRaw⟩ := hp
  exact ⟨raw, h.find?_name hFind rfl, hRaw⟩

theorem nameAndType (h : Keeps touched p q) {s t : String}
    (hp : p.nameAndType index = .ok (s, t)) : q.nameAndType index = .ok (s, t) := by
  rw [nameAndType_eq_ok] at hp ⊢
  obtain ⟨name, descriptor, hFind, hName, hDescriptor⟩ := hp
  exact ⟨name, descriptor, h.find?_name hFind rfl, h.text hName, h.text hDescriptor⟩

/-- Names that are added take no name from a class. -/
theorem className (h : p.Grows q) {s : String} (hp : p.className index = .ok s) :
    q.className index = .ok s := by
  rw [className_eq_ok] at hp ⊢
  obtain ⟨name, hFind, hText⟩ := hp
  exact ⟨name, h.find?_untouched hFind id, h.text hText⟩

/-- A text in a slot of the first pool was there before. -/
theorem text_back (h : Keeps touched p q) {s : String} (hIndex : index.toNat < p.size)
    (hq : q.text index = .ok s) : p.text index = .ok s := by
  rw [text_eq_ok] at hq ⊢
  obtain ⟨raw, hFind, hRaw⟩ := hq
  have hp : p.entries[index.toNat]? = some p.entries[index.toNat] :=
    Array.getElem?_eq_getElem hIndex
  rw [find?_eq_some] at hFind
  refine ⟨raw, ?_, hRaw⟩
  rcases h.entry hp with hSame | ⟨-, -, d, hd, hName⟩
  · rw [hFind.1] at hSame
    rw [find?_eq_some, hp, ← hSame]
    exact ⟨rfl, hFind.2⟩
  · rw [hFind.1] at hd
    rw [← Option.some.inj hd] at hName
    cases hName

end Keeps

-- ---------------------------------------------------------------------------
-- Single operations
-- ---------------------------------------------------------------------------

section Operations

variable {index : UInt16} {c : Constant}

theorem grows_append (hName : c.isName = true) : p.Grows (p.append c) where
  entry {j d} h := by
    have hLt := (Array.getElem?_eq_some_iff.1 h).1
    rw [entries_append, Array.getElem?_append_left hLt]
    exact .inl h
  fresh {j d} h hj := by
    rw [entries_append, Array.getElem?_append_right hj] at h
    have hMem : d ∈ slotsOf c := by
      rw [List.getElem?_toArray] at h
      exact List.mem_of_getElem? h
    -- no name is wide, so the only new slot is that of `c`
    have hSlots : slotsOf c = [c] := by
      cases c <;> simp [Constant.isName] at hName <;> rfl
    rw [hSlots, List.mem_singleton] at hMem
    rw [hMem, hName]

theorem keeps_replaced {old : Constant} (hOld : p.find? index = some old)
    (hOldName : old.isName = false) (hName : c.isName = false) :
    Keeps (· = index.toNat) p (p.replaced index old c) where
  entry {j d} h := by
    rw [entries_replaced]
    by_cases hj : index.toNat = j
    · subst hj
      rw [(find?_eq_some.1 hOld).1] at h
      rw [Array.getElem?_setIfInBounds_self_of_lt (lt_size_of_find? hOld)]
      exact .inr ⟨rfl, by rw [← Option.some.inj h, hOldName], c, rfl, hName⟩
    · rw [Array.getElem?_setIfInBounds_ne hj]
      exact .inl h
  fresh {j d} h hj := by
    have hLt := (Array.getElem?_eq_some_iff.1 h).1
    rw [entries_replaced, Array.size_setIfInBounds] at hLt
    unfold size at hj
    omega

theorem yields_add : Yields (add c) p index q ↔
    p.size + c.width ≤ maxSize ∧ UInt16.ofNat p.size = index ∧ p.append c = q := by
  unfold add
  rw [yields_bind, ← length_slotsOf]
  constructor
  · rintro ⟨_, _, hGet, h⟩
    obtain ⟨rfl, rfl⟩ := yields_getThe.1 hGet
    extract_lets size at h
    split at h
    · rename_i hRoom
      obtain ⟨_, _, hModify, h⟩ := yields_bind.1 h
      obtain rfl := yields_modify.1 hModify
      obtain ⟨rfl, rfl⟩ := yields_pure.1 h
      exact ⟨hRoom, rfl, rfl⟩
    · exact absurd h not_yields_throw
  · rintro ⟨hRoom, rfl, rfl⟩
    refine ⟨p, p, yields_getThe.2 ⟨rfl, rfl⟩, ?_⟩
    rw [if_pos hRoom]
    exact yields_bind.2 ⟨(), _, yields_modify.2 rfl, yields_pure.2 ⟨rfl, rfl⟩⟩

/-- A name that was added stands at the index that comes back. -/
theorem add_spec (hSound : p.Sound) (hName : c.isName = true) (h : Yields (add c) p index q) :
    q.Sound ∧ p.Grows q ∧ q.find? index = some c := by
  obtain ⟨hRoom, rfl, rfl⟩ := yields_add.1 h
  have hNarrow : c.width = 1 := by
    cases c <;> simp [Constant.isName] at hName <;> rfl
  unfold maxSize at hRoom
  refine ⟨sound_append hSound (by omega), grows_append hName, find?_append_new (by omega) ?_⟩
  rintro rfl
  cases hName

theorem yields_replaceAt {u : Unit} : Yields (replaceAt index c) p u q ↔
    ∃ old, p.find? index = some old ∧ (∀ raw, old ≠ .utf8 raw) ∧ old.isWide = c.isWide ∧
      p.replaced index old c = q := by
  have hModify : ∀ old, (fun pool : Pool =>
      let pool := (pool.forget index old).learn index c
      { pool with entries := pool.entries.setIfInBounds index.toNat c }) p =
        p.replaced index old c := fun old => by
    rw [replaced]
    simp only [entries_learn, entries_forget]
  unfold replaceAt
  rw [yields_bind]
  constructor
  · rintro ⟨old, _, hRead, h⟩
    obtain ⟨hOld, rfl⟩ := yields_reading.1 hRead
    extract_lets isText at h
    split at h
    · obtain ⟨_, _, hThrow, -⟩ := yields_bind.1 h
      exact absurd hThrow not_yields_throw
    · rename_i hFits
      rw [Bool.or_eq_true, not_or, Bool.not_eq_true, bne_iff_ne, Decidable.not_not] at hFits
      refine ⟨old, get_eq_ok.1 hOld, ?_, hFits.2, (hModify old).symm.trans (yields_modify.1 h)⟩
      rintro raw rfl
      exact Bool.noConfusion (hFits.1 : true = false)
  · rintro ⟨old, hOld, hText, hWide, rfl⟩
    refine ⟨old, p, yields_reading.2 ⟨get_eq_ok.2 hOld, rfl⟩, ?_⟩
    extract_lets isText
    have hIsText : isText = false := by
      cases old with
      | utf8 raw => exact absurd rfl (hText raw)
      | _ => rfl
    rw [hIsText, hWide, bne_self_eq_false, Bool.or_self, if_neg Bool.false_ne_true]
    exact yields_modify.2 (hModify old)

/-- A constant that names nothing was replaced by another one, which can be used. -/
theorem replaceAt_spec (hSound : p.Sound) {old : Constant} (hOld : p.find? index = some old)
    (hOldName : old.isName = false) (hName : c.isName = false) (hUsable : c ≠ .unusable)
    {u : Unit} (h : Yields (replaceAt index c) p u q) :
    q.Sound ∧ Keeps (· = index.toNat) p q ∧ q.find? index = some c := by
  obtain ⟨old', hOld', hText, -, rfl⟩ := yields_replaceAt.1 h
  obtain rfl := Option.some.inj (hOld.symm.trans hOld')
  exact ⟨sound_replaced hSound hOld hText, keeps_replaced hOld hOldName hName,
    find?_replaced_self hOld hUsable⟩

/-- A text that the pool does not know is appended, if there is room. -/
theorem yields_internText {s : String} (hNew : p.utf8s[ModifiedUtf8.encode s]? = none)
    (hShort : (ModifiedUtf8.encode s).length < 65536) (hRoom : p.size < maxSize) :
    Yields (internText s) p (UInt16.ofNat p.size)
      (p.append (.utf8 (ModifiedUtf8.encode s))) := by
  unfold internText
  refine yields_bind.2 ⟨p, p, yields_getThe.2 ⟨rfl, rfl⟩, ?_⟩
  rw [hNew]
  refine yields_bind.2 ⟨_, _, yields_liftM.2 ⟨if_pos hShort, rfl⟩, ?_⟩
  exact yields_add.2 ⟨hRoom, rfl, rfl⟩

/-- A text that the pool knows is found where it stands. -/
theorem yields_internText_found {s : String} (h : p.utf8s[ModifiedUtf8.encode s]? = some index) :
    Yields (internText s) p index p := by
  unfold internText
  refine yields_bind.2 ⟨p, p, yields_getThe.2 ⟨rfl, rfl⟩, ?_⟩
  rw [h]
  exact yields_pure.2 ⟨rfl, rfl⟩

/-- A class that the pool knows is found where it stands. -/
theorem yields_internClass_found {s : String} {name : UInt16}
    (hName : p.utf8s[ModifiedUtf8.encode s]? = some name) (h : p.classes[name]? = some index) :
    Yields (internClass s) p index p := by
  unfold internClass
  refine yields_bind.2 ⟨name, p, yields_internText_found hName, ?_⟩
  refine yields_bind.2 ⟨p, p, yields_getThe.2 ⟨rfl, rfl⟩, ?_⟩
  rw [h]
  exact yields_pure.2 ⟨rfl, rfl⟩

/-- A pair that the pool knows is found where it stands. -/
theorem yields_internNameAndType_found {s t : String} {name descriptor : UInt16}
    (hName : p.utf8s[ModifiedUtf8.encode s]? = some name)
    (hDescriptor : p.utf8s[ModifiedUtf8.encode t]? = some descriptor)
    (h : p.nameAndTypes[(name, descriptor)]? = some index) :
    Yields (internNameAndType s t) p index p := by
  unfold internNameAndType
  refine yields_bind.2 ⟨name, p, yields_internText_found hName, ?_⟩
  refine yields_bind.2 ⟨descriptor, p, yields_internText_found hDescriptor, ?_⟩
  refine yields_bind.2 ⟨p, p, yields_getThe.2 ⟨rfl, rfl⟩, ?_⟩
  rw [h]
  exact yields_pure.2 ⟨rfl, rfl⟩

/-- A text that was interned stands at the index that comes back. -/
theorem internText_spec (hSound : p.Sound) {s : String} (h : Yields (internText s) p index q) :
    q.Sound ∧ p.Grows q ∧ q.text index = .ok s := by
  have hText : ∀ {pool : Pool}, pool.find? index = some (.utf8 (ModifiedUtf8.encode s)) →
      pool.text index = .ok s := fun hFind => by
    refine text_eq_ok.2 ⟨_, hFind, ?_⟩
    rw [decodeText, ModifiedUtf8.textOf_encode]
    rfl
  unfold internText at h
  extract_lets raw at h
  obtain ⟨_, _, hGet, h⟩ := yields_bind.1 h
  obtain ⟨rfl, rfl⟩ := yields_getThe.1 hGet
  split at h
  · rename_i i hLookup
    obtain ⟨rfl, rfl⟩ := yields_pure.1 h
    exact ⟨hSound, .refl, hText (hSound.utf8s hLookup)⟩
  · obtain ⟨_, _, hCount, h⟩ := yields_bind.1 h
    obtain ⟨-, rfl⟩ := yields_liftM.1 hCount
    obtain ⟨hSound', hGrows, hFind⟩ := add_spec hSound rfl h
    exact ⟨hSound', hGrows, hText hFind⟩

/-- A name and a descriptor that were interned stand at the index that comes back. -/
theorem internNameAndType_spec (hSound : p.Sound) {s t : String}
    (h : Yields (internNameAndType s t) p index q) :
    q.Sound ∧ p.Grows q ∧ q.nameAndType index = .ok (s, t) := by
  unfold internNameAndType at h
  obtain ⟨name, p₁, hName, h⟩ := yields_bind.1 h
  obtain ⟨descriptor, p₂, hDescriptor, h⟩ := yields_bind.1 h
  obtain ⟨hSound₁, hGrows₁, hName⟩ := internText_spec hSound hName
  obtain ⟨hSound₂, hGrows₂, hDescriptor⟩ := internText_spec hSound₁ hDescriptor
  obtain ⟨_, _, hGet, h⟩ := yields_bind.1 h
  obtain ⟨rfl, rfl⟩ := yields_getThe.1 hGet
  split at h
  · rename_i i hLookup
    obtain ⟨rfl, rfl⟩ := yields_pure.1 h
    exact ⟨hSound₂, hGrows₁.trans_same hGrows₂, nameAndType_eq_ok.2
      ⟨name, descriptor, hSound₂.nameAndTypes hLookup, hGrows₂.text hName, hDescriptor⟩⟩
  · obtain ⟨hSound₃, hGrows₃, hFind⟩ := add_spec hSound₂ rfl h
    exact ⟨hSound₃, (hGrows₁.trans_same hGrows₂).trans_same hGrows₃, nameAndType_eq_ok.2
      ⟨name, descriptor, hFind, hGrows₃.text (hGrows₂.text hName), hGrows₃.text hDescriptor⟩⟩

/-- The text stands at the index that comes back, whether a new one was needed or not. -/
theorem repoint_spec (hSound : p.Sound) {i : UInt16} {s : String}
    (h : Yields (repoint i s) p index q) : q.Sound ∧ p.Grows q ∧ q.text index = .ok s := by
  unfold repoint at h
  obtain ⟨old, _, hRead, h⟩ := yields_bind.1 h
  obtain ⟨hOld, rfl⟩ := yields_reading.1 hRead
  split at h
  · rename_i hSame
    obtain ⟨rfl, rfl⟩ := yields_pure.1 h
    exact ⟨hSound, .refl, hSame ▸ hOld⟩
  · exact internText_spec hSound h

end Operations

-- ---------------------------------------------------------------------------
-- Edits that only add names
-- ---------------------------------------------------------------------------

/-- Whenever the edit succeeds, it only appended names, and the tables stay sound. -/
def AddsNames (x : Edit α) : Prop :=
  ∀ p a q, p.Sound → Yields x p a q → q.Sound ∧ p.Grows q

namespace AddsNames

protected theorem pure {a : α} : AddsNames (pure a) := by
  intro p b q hSound h
  obtain ⟨-, rfl⟩ := yields_pure.1 h
  exact ⟨hSound, .refl⟩

protected theorem bind {x : Edit α} {f : α → Edit β} (hx : AddsNames x)
    (hf : ∀ a, AddsNames (f a)) : AddsNames (x >>= f) := by
  intro p b q hSound h
  obtain ⟨a, r, hFirst, hRest⟩ := yields_bind.1 h
  obtain ⟨hSound₁, hGrows₁⟩ := hx _ _ _ hSound hFirst
  obtain ⟨hSound₂, hGrows₂⟩ := hf a _ _ _ hSound₁ hRest
  exact ⟨hSound₂, hGrows₁.trans_same hGrows₂⟩

protected theorem map {x : Edit α} {f : α → β} (hx : AddsNames x) : AddsNames (f <$> x) := by
  intro p b q hSound h
  obtain ⟨a, hFirst, -⟩ := yields_map.1 h
  exact hx _ _ _ hSound hFirst

protected theorem liftM {x : ClassResult α} : AddsNames (liftM x) := by
  intro p a q hSound h
  obtain ⟨-, rfl⟩ := yields_liftM.1 h
  exact ⟨hSound, .refl⟩

protected theorem reading {f : Pool → ClassResult α} : AddsNames (reading f) := by
  intro p a q hSound h
  obtain ⟨-, rfl⟩ := yields_reading.1 h
  exact ⟨hSound, .refl⟩

protected theorem internText {s : String} : AddsNames (internText s) := fun _ _ _ hSound h =>
  let ⟨hSound', hGrows, _⟩ := internText_spec hSound h
  ⟨hSound', hGrows⟩

protected theorem internNameAndType {s t : String} : AddsNames (internNameAndType s t) :=
  fun _ _ _ hSound h =>
    let ⟨hSound', hGrows, _⟩ := internNameAndType_spec hSound h
    ⟨hSound', hGrows⟩

protected theorem repoint {i : UInt16} {s : String} : AddsNames (repoint i s) :=
  fun _ _ _ hSound h =>
    let ⟨hSound', hGrows, _⟩ := repoint_spec hSound h
    ⟨hSound', hGrows⟩

protected theorem mapM {f : α → Edit β} (hf : ∀ a, AddsNames (f a)) (list : List α) :
    AddsNames (list.mapM f) := by
  induction list with
  | nil => exact .pure
  | cons a more ih =>
    rw [List.mapM_cons]
    exact (hf a).bind fun _ => ih.bind fun _ => .pure

end AddsNames

/-- A loop over rows that were made of others. If each step only appends names, keeps an invariant
and leads from what is known of a row to a relation that later names cannot break, the relation
holds for every row. -/
theorem forall₂_of_mapM {γ : Type} {I : Pool → Prop} {P : Pool → α → β → Prop}
    {R : Pool → α → γ → Prop} {f : β → Edit γ}
    (hP : ∀ p q a b, Grows p q → P p a b → P q a b)
    (hR : ∀ p q a c, Grows p q → R p a c → R q a c)
    (hStep : ∀ a b p c q, I p → P p a b → Yields (f b) p c q → I q ∧ p.Grows q ∧ R q a c) :
    ∀ {old : List α} {list : List β} {p : Pool} {new : List γ} {q : Pool},
      List.Forall₂ (P p) old list → I p → Yields (list.mapM f) p new q →
        I q ∧ p.Grows q ∧ List.Forall₂ (R q) old new
  | [], [], p, new, q, .nil, hI, h => by
    obtain ⟨rfl, rfl⟩ := yields_pure.1 h
    exact ⟨hI, .refl, .nil⟩
  | a :: old, b :: list, p, new, q, .cons hFirst hMore, hI, h => by
    rw [List.mapM_cons] at h
    obtain ⟨c, p₁, hRun, h⟩ := yields_bind.1 h
    obtain ⟨rest, p₂, hRest, h⟩ := yields_bind.1 h
    obtain ⟨rfl, rfl⟩ := yields_pure.1 h
    obtain ⟨hI₁, hGrows₁, hc⟩ := hStep _ _ _ _ _ hI hFirst hRun
    obtain ⟨hI₂, hGrows₂, hRest⟩ := forall₂_of_mapM hP hR hStep
      (hMore.imp fun _ _ h => hP _ _ _ _ hGrows₁ h) hI₁ hRest
    exact ⟨hI₂, hGrows₁.trans_same hGrows₂, .cons (hR _ _ _ _ hGrows₂ hc) hRest⟩

/-- A loop over rows as they are, of which something is known that no name changes. -/
theorem forall₂_of_mapM_same {I : Pool → Prop} {P : α → Prop} {R : Pool → α → β → Prop}
    {f : α → Edit β} (hR : ∀ p q a b, Grows p q → R p a b → R q a b)
    (hStep : ∀ a p b q, I p → P a → Yields (f a) p b q → I q ∧ p.Grows q ∧ R q a b)
    {list : List α} (hList : ∀ a ∈ list, P a) {p : Pool} {new : List β} {q : Pool} (hI : I p)
    (h : Yields (list.mapM f) p new q) : I q ∧ p.Grows q ∧ List.Forall₂ (R q) list new := by
  have hSame : List.Forall₂ (fun a b => a = b ∧ P a) list list :=
    List.forall₂_same.2 fun a ha => ⟨rfl, hList a ha⟩
  refine forall₂_of_mapM (P := fun _ a b => a = b ∧ P a) (fun _ _ _ _ _ h => h) hR ?_ hSame hI h
  rintro a _ p b q hI ⟨rfl, ha⟩ hRun
  exact hStep a p b q hI ha hRun

end Pool

end Jarsmith
