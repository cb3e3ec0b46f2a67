import Jarsmith.Proofs.ClassFile.MethodBodies
import Jarsmith.Proofs.Jar.Rereading

/-!
# Fixed names

The fix of local variables looks at the first body of a method, at the first table of local
variables in it and at the first declaration of parameters. All names in these are identifiers
behind the fix, and a second fix finds nothing to do.

* `LocalNames.IsGiven` — the names that are given out; `IsGiven.isIdentifier`.
* `LocalNames.fixRows_spec`, `LocalNames.fixParameters_spec` — what becomes of rows and parameters.
-/

namespace Jarsmith

open Outcome Reader
open Pool (Edit Yields Grows Intact AddsTexts yields_bind yields_pure yields_liftM yields_reading)

namespace LocalNames

-- ---------------------------------------------------------------------------
-- Names that are given out
-- ---------------------------------------------------------------------------

/-- A name that is given out: `this`, or a word and a number with some letters behind them. -/
inductive IsGiven : String → Prop where
  | this : IsGiven "this"
  | param (number letters : Nat) : IsGiven (NameScope.padded ("param" ++ toString number) letters)
  | var (number letters : Nat) : IsGiven (NameScope.padded ("var" ++ toString number) letters)

theorem isAlphanumeric_of_isDigit {c : Char} (h : c.isDigit = true) :
    Text.isAlphanumeric c = true := by
  obtain ⟨hLow, hHigh⟩ : 48 ≤ c.toNat ∧ c.toNat ≤ 57 := by
    rw [Char.isDigit, Bool.and_eq_true, decide_eq_true_eq, decide_eq_true_eq] at h
    exact h
  have hRange : Text.inRanges Text.numericRanges c.toNat = true := by
    refine List.any_eq_true.2 ⟨(0x30, 0x39), List.mem_cons_self, ?_⟩
    simp [hLow, hHigh]
  rw [Text.isAlphanumeric, hRange, Bool.or_true]

/-- An identifier stays one with a number and letters behind it. -/
theorem isIdentifier_padded {word : String} (number letters : Nat)
    (hWord : isIdentifier word = true) :
    isIdentifier (NameScope.padded (word ++ toString number) letters) = true := by
  have hText : (NameScope.padded (word ++ toString number) letters).toList =
      word.toList ++ ((toString number).toList ++ List.replicate letters 'x') := by
    simp [NameScope.padded]
  have hBehind : ∀ c ∈ (toString number).toList ++ List.replicate letters 'x',
      Text.isAlphanumeric c = true := by
    intro c hc
    rcases List.mem_append.1 hc with hDigit | hLetter
    · exact isAlphanumeric_of_isDigit (Text.isDigit_of_mem_toString hDigit)
    · rw [List.eq_of_mem_replicate hLetter]
      rfl
  unfold isIdentifier at hWord ⊢
  rw [hText]
  cases hChars : word.toList with
  | nil =>
    rw [hChars] at hWord
    exact absurd hWord Bool.false_ne_true
  | cons first rest =>
    rw [hChars] at hWord
    obtain ⟨hFirst, hRest⟩ := Bool.and_eq_true_iff.1 hWord
    refine Bool.and_eq_true_iff.2 ⟨hFirst, ?_⟩
    show (rest ++ (_ ++ _)).all _ = true
    rw [List.all_append, hRest, Bool.true_and, List.all_eq_true]
    exact fun c hc => Bool.or_eq_true_iff.2 (.inl (hBehind c hc))

theorem IsGiven.isIdentifier {name : String} (h : IsGiven name) : isIdentifier name = true := by
  cases h with
  | this => rfl
  | param number letters => exact isIdentifier_padded number letters rfl
  | var number letters => exact isIdentifier_padded number letters rfl

/-- The names that are given out start with three letters, and no name of an attribute does. -/
theorem IsGiven.ne {name other : String} (h : IsGiven name)
    (hOther : ∀ c ∈ other.toList.head?, c ≠ 't' ∧ c ≠ 'p' ∧ c ≠ 'v') : name ≠ other := by
  rintro rfl
  cases h with
  | this => exact (hOther 't' rfl).1 rfl
  | param number letters => exact (hOther 'p' (by simp [NameScope.padded])).2.1 rfl
  | var number letters => exact (hOther 'v' (by simp [NameScope.padded])).2.2 rfl

/-- What is given out is the name with letters behind it. -/
theorem exists_padded (name : String) (s : NameScope) :
    ∃ letters, ((NameScope.unique name).run s).1 = NameScope.padded name letters := by
  show ∃ letters, (List.find? _ _).getD name = _
  cases hFound : ((List.range (s.taken.length + 1)).map (NameScope.padded name)).find?
      fun n => !s.taken.contains n with
  | none => exact ⟨0, (String.append_empty).symm⟩
  | some found =>
    obtain ⟨letters, -, rfl⟩ := List.mem_map.1 (List.mem_of_find?_eq_some hFound)
    exact ⟨letters, rfl⟩

theorem isGiven_unique {name : String} (hName : ∀ letters, IsGiven (NameScope.padded name letters))
    (s : NameScope) : IsGiven ((NameScope.unique name).run s).1 := by
  obtain ⟨letters, hFound⟩ := exists_padded name s
  rw [hFound]
  exact hName letters

theorem isGiven_nameForParameter (place : Nat) (s : NameScope) :
    IsGiven ((NameScope.nameForParameter place).run s).1 :=
  isGiven_unique (.param place) s

theorem isGiven_nameForSlot (slot : UInt16) (s : NameScope) :
    IsGiven ((NameScope.nameForSlot slot).run s).1 := by
  show IsGiven ((if _ then _ else if _ then _ else _ : StateM NameScope String).run s).1
  split
  · exact .this
  split
  · exact isGiven_unique (.param _) s
  · exact isGiven_unique (.var _) _

-- ---------------------------------------------------------------------------
-- Pools with more names
-- ---------------------------------------------------------------------------

variable {p q r : Pool} {i j : UInt16}

/-- Every constant keeps its index, and only names that are given out come behind them. -/
def AddsGiven (p q : Pool) : Prop := ∃ texts, AddsTexts texts p q ∧ ∀ s ∈ texts, IsGiven s

namespace AddsGiven

theorem refl : AddsGiven p p := ⟨[], ⟨id, fun hj hSize =>
  absurd (Array.getElem?_eq_some_iff.1 hj).1 (Nat.not_lt.2 hSize)⟩, nofun⟩

theorem trans (h : AddsGiven p q) (h' : AddsGiven q r) : AddsGiven p r := by
  obtain ⟨texts, hAdds, hGiven⟩ := h
  obtain ⟨more, hAdds', hGiven'⟩ := h'
  refine ⟨texts ++ more, hAdds.trans hAdds', fun s hs => ?_⟩
  exact (List.mem_append.1 hs).elim (hGiven s) (hGiven' s)

theorem grows (h : AddsGiven p q) : p.Grows q :=
  let ⟨_, hAdds, _⟩ := h
  hAdds.grows

/-- A text that is no name to give out stood there before. -/
theorem text_back (h : AddsGiven p q) {name : String} (hText : q.text i = .ok name)
    (hName : ∀ c ∈ name.toList.head?, c ≠ 't' ∧ c ≠ 'p' ∧ c ≠ 'v') : p.text i = .ok name := by
  rcases Nat.lt_or_ge i.toNat p.size with hOld | hNew
  · exact h.grows.text_back hOld hText
  · obtain ⟨texts, hAdds, hGiven⟩ := h
    obtain ⟨raw, hFind, hRaw⟩ := Pool.text_eq_ok.1 hText
    obtain ⟨s, hs, hEq⟩ := hAdds.fresh (Pool.find?_eq_some.1 hFind).1 hNew
    obtain rfl := Constant.utf8.inj hEq
    rw [Pool.decodeText, ModifiedUtf8.textOf_encode] at hRaw
    exact absurd (Except.ok.inj hRaw) ((hGiven s hs).ne hName)

end AddsGiven

/-- A name that is an identifier stays, and another one becomes one. -/
def NameFixed (pool : Pool) (i j : UInt16) : Prop :=
  ∃ old new, pool.text i = .ok old ∧ pool.text j = .ok new ∧ isIdentifier new = true ∧
    (isIdentifier old = true → j = i)

theorem NameFixed.mono (h : NameFixed p i j) (hGrows : p.Grows q) : NameFixed q i j := by
  obtain ⟨old, new, hOld, hNew, hFine, hSame⟩ := h
  exact ⟨old, new, hGrows.text hOld, hGrows.text hNew, hFine, hSame⟩

section Steps

variable {s t : NameScope}

/-- A name that is looked at is a text. -/
theorem isFine_spec {fine : Bool} (h : Yields ((isFine i).run s) p (fine, t) q) :
    p = q ∧ s = t ∧ ∃ name, p.text i = .ok name ∧ isIdentifier name = fine := by
  rw [run_isFine] at h
  obtain ⟨name, _, hRead, h⟩ := yields_bind.1 h
  obtain ⟨hText, rfl⟩ := yields_reading.1 hRead
  obtain ⟨hEq, rfl⟩ := yields_pure.1 h
  obtain ⟨rfl, rfl⟩ := Prod.mk.inj hEq
  exact ⟨rfl, rfl, name, hText, rfl⟩

/-- A name that is given out stands at the index that comes back. -/
theorem fresh_spec {name : StateM NameScope String} (hName : ∀ s, IsGiven (name.run s).1)
    (hp : p.Intact) (h : Yields ((fresh name).run s) p (j, t) q) :
    q.Intact ∧ AddsGiven p q ∧ ∃ text, q.text j = .ok text ∧ isIdentifier text = true := by
  have hRun : Yields (Pool.internText (name.run s).1 >>= fun index => pure (index, (name.run s).2))
      p (j, t) q := h
  obtain ⟨index, _, hIntern, hRun⟩ := yields_bind.1 hRun
  obtain ⟨hEq, rfl⟩ := yields_pure.1 hRun
  obtain ⟨rfl, -⟩ := Prod.mk.inj hEq
  obtain ⟨hq, hAdds, -, hText⟩ := hp.internText hIntern
  exact ⟨hq, ⟨_, hAdds, fun s hs => List.mem_singleton.1 hs ▸ hName _⟩, _, hText,
    (hName _).isIdentifier⟩

end Steps

-- ---------------------------------------------------------------------------
-- Rows and parameters
-- ---------------------------------------------------------------------------

/-- What has become of a row of a table of local variables. -/
structure RowFixed (pool : Pool) (v v' : LocalVariable) : Prop where
  start : v'.start = v.start
  length : v'.length = v.length
  slot : v'.slot = v.slot
  descriptor : v'.descriptor = v.descriptor
  name : NameFixed pool v.name v'.name

/-- What has become of a declared parameter. -/
structure ParameterFixed (pool : Pool) (x x' : MethodParameter) : Prop where
  access : x'.access = x.access
  unnamed : x.name = none → x'.name = none
  named : ∀ i, x.name = some i → ∃ j, x'.name = some j ∧ NameFixed pool i j

theorem RowFixed.mono {v v' : LocalVariable} (h : RowFixed p v v') (hGrows : p.Grows q) :
    RowFixed q v v' := { h with name := h.name.mono hGrows }

theorem ParameterFixed.mono {x x' : MethodParameter} (h : ParameterFixed p x x')
    (hGrows : p.Grows q) : ParameterFixed q x x' where
  access := h.access
  unnamed := h.unnamed
  named i hi :=
    let ⟨j, hj, hName⟩ := h.named i hi
    ⟨j, hj, hName.mono hGrows⟩

/-- A row got a new name, which is kept under its slot and its start. -/
def IsRenamed (locals : List (LocalVariable × LocalVariable)) (e : (UInt16 × UInt16) × UInt16) :
    Prop :=
  ∃ w ∈ locals, e = ((w.1.slot, w.1.start), w.2.name) ∧ w.2.name ≠ w.1.name

/-- What the fix does with the first row. A name that is an identifier stays, and for another one a
name is given out, which is told under the slot and the start of the row. -/
theorem fixRows_cons {v : LocalVariable} {more rows' : List LocalVariable} {renamed : Renamed}
    {s t : NameScope} (h : Yields ((fixRows (v :: more)).run s) p ((rows', renamed), t) q) :
    ∃ old more', p.text v.name = .ok old ∧
      (isIdentifier old = true ∧ rows' = v :: more' ∧
          Yields ((fixRows more).run s) p ((more', renamed), t) q ∨
        isIdentifier old = false ∧ ∃ name renamed' u r,
          Yields ((fresh (NameScope.nameForSlot v.slot)).run s) p (name, u) r ∧
          Yields ((fixRows more).run u) r ((more', renamed'), t) q ∧
          rows' = { v with name := name } :: more' ∧
          renamed = ((v.slot, v.start), name) :: renamed') := by
  obtain ⟨fine, s', p₁, hFine, h⟩ := yields_run_bind.1 h
  obtain ⟨rfl, rfl, old, hOld, hOldFine⟩ := isFine_spec hFine
  split at h
  · rename_i hIsFine
    obtain ⟨⟨more', renamed'⟩, s₁, p₂, hMore, h⟩ := yields_run_bind.1 h
    obtain ⟨⟨hEq, rfl⟩, rfl⟩ := yields_run_pure.1 h
    obtain ⟨rfl, rfl⟩ := Prod.mk.inj hEq
    exact ⟨old, more', hOld, .inl ⟨hOldFine.trans hIsFine, rfl, hMore⟩⟩
  · rename_i hNotFine
    obtain ⟨name, u, r, hFresh, h⟩ := yields_run_bind.1 h
    obtain ⟨⟨more', renamed'⟩, s₂, p₂, hMore, h⟩ := yields_run_bind.1 h
    obtain ⟨⟨hEq, rfl⟩, rfl⟩ := yields_run_pure.1 h
    obtain ⟨rfl, rfl⟩ := Prod.mk.inj hEq
    exact ⟨old, more', hOld, .inr ⟨hOldFine.trans (Bool.eq_false_iff.2 hNotFine), name, renamed',
      u, r, hFresh, hMore, rfl, rfl⟩⟩

/-- **Rows behind the fix.** The names of all of them are identifiers, and those that got new names
are told. -/
theorem fixRows_spec : ∀ {rows rows' : List LocalVariable} {renamed : Renamed} {s t : NameScope}
    {p q : Pool}, p.Intact → Yields ((fixRows rows).run s) p ((rows', renamed), t) q →
      q.Intact ∧ AddsGiven p q ∧ List.Forall₂ (RowFixed q) rows rows' ∧
        (∀ e ∈ renamed, IsRenamed (rows.zip rows') e) ∧ (renamed = [] → rows' = rows)
  | [], rows', renamed, s, t, p, q, hp, h => by
    obtain ⟨⟨hEq, -⟩, rfl⟩ := yields_run_pure.1 h
    obtain ⟨rfl, rfl⟩ := Prod.mk.inj hEq
    exact ⟨hp, .refl, .nil, nofun, fun _ => rfl⟩
  | v :: more, rows', renamed, s, t, p, q, hp, h => by
    obtain ⟨old, more', hOld, ⟨hIsFine, rfl, hMore⟩ |
      ⟨hBad, name, renamed', u, p₁, hFresh, hMore, rfl, rfl⟩⟩ := fixRows_cons h
    · obtain ⟨hq, hAdds, hRows, hRenamed, hSame⟩ := fixRows_spec hp hMore
      have hText := hAdds.grows.text hOld
      have hName : NameFixed q v.name v.name := ⟨old, old, hText, hText, hIsFine, fun _ => rfl⟩
      refine ⟨hq, hAdds, .cons ⟨rfl, rfl, rfl, rfl, hName⟩ hRows, fun e he => ?_,
        fun hNil => congrArg (v :: ·) (hSame hNil)⟩
      obtain ⟨w, hw, hEq⟩ := hRenamed e he
      exact ⟨w, List.mem_cons_of_mem _ hw, hEq⟩
    · obtain ⟨hp₁, hAdds₁, new, hNew, hNewFine⟩ :=
        fresh_spec (isGiven_nameForSlot v.slot) hp hFresh
      obtain ⟨hq, hAdds₂, hRows, hRenamed, -⟩ := fixRows_spec hp₁ hMore
      have hAdds := hAdds₁.trans hAdds₂
      have hOther : name ≠ v.name := by
        rintro rfl
        obtain rfl := Except.ok.inj ((hAdds₁.grows.text hOld).symm.trans hNew)
        exact absurd hNewFine (Bool.eq_false_iff.1 hBad)
      have hName : NameFixed q v.name name :=
        ⟨old, new, hAdds.grows.text hOld, hAdds₂.grows.text hNew, hNewFine,
          fun h => absurd h (Bool.eq_false_iff.1 hBad)⟩
      refine ⟨hq, hAdds, .cons ⟨rfl, rfl, rfl, rfl, hName⟩ hRows, fun e he => ?_, nofun⟩
      rcases List.mem_cons.1 he with rfl | he
      · exact ⟨_, List.mem_cons_self, rfl, hOther⟩
      · obtain ⟨w, hw, hEq⟩ := hRenamed e he
        exact ⟨w, List.mem_cons_of_mem _ hw, hEq⟩

/-- What the fix does with a declared parameter: nothing, unless it has a name that is no
identifier. -/
theorem fixParameter_cases {place : Nat} {x x' : MethodParameter} {changed : Bool}
    {s t : NameScope} (h : Yields ((fixParameter place x).run s) p ((x', changed), t) q) :
    (x' = x ∧ changed = false ∧ s = t ∧ p = q) ∧
        (∀ i, x.name = some i → ∃ old, p.text i = .ok old ∧ isIdentifier old = true) ∨
      changed = true ∧ ∃ i j old, x.name = some i ∧ p.text i = .ok old ∧
        isIdentifier old = false ∧ x' = { x with name := some j } ∧
        Yields ((fresh (NameScope.nameForParameter place)).run s) p (j, t) q := by
  unfold fixParameter at h
  split at h
  · rename_i name hName
    obtain ⟨fine, s', p₁, hFine, h⟩ := yields_run_bind.1 h
    obtain ⟨rfl, rfl, old, hOld, hOldFine⟩ := isFine_spec hFine
    split at h
    · rename_i hIsFine
      obtain ⟨⟨hEq, rfl⟩, rfl⟩ := yields_run_pure.1 h
      obtain ⟨rfl, rfl⟩ := Prod.mk.inj hEq
      refine .inl ⟨⟨rfl, rfl, rfl, rfl⟩, fun i hi => ?_⟩
      obtain rfl := Option.some.inj (hName.symm.trans hi)
      exact ⟨old, hOld, hOldFine.trans hIsFine⟩
    · rename_i hNotFine
      obtain ⟨index, s₁, p₁, hFresh, h⟩ := yields_run_bind.1 h
      obtain ⟨⟨hEq, rfl⟩, rfl⟩ := yields_run_pure.1 h
      obtain ⟨rfl, rfl⟩ := Prod.mk.inj hEq
      exact .inr ⟨rfl, name, index, old, hName, hOld,
        hOldFine.trans (Bool.eq_false_iff.2 hNotFine), rfl, hFresh⟩
  · rename_i hNone
    obtain ⟨⟨hEq, rfl⟩, rfl⟩ := yields_run_pure.1 h
    obtain ⟨rfl, rfl⟩ := Prod.mk.inj hEq
    exact .inl ⟨⟨rfl, rfl, rfl, rfl⟩, fun i hi => absurd hi (hNone i)⟩

theorem fixParameter_spec {place : Nat} {x x' : MethodParameter} {changed : Bool}
    {s t : NameScope} (hp : p.Intact)
    (h : Yields ((fixParameter place x).run s) p ((x', changed), t) q) :
    q.Intact ∧ AddsGiven p q ∧ ParameterFixed q x x' ∧ (changed = false → x' = x) := by
  obtain ⟨⟨rfl, rfl, rfl, rfl⟩, hFine⟩ | ⟨rfl, i, j, old, hName, hOld, hBad, rfl, hFresh⟩ :=
    fixParameter_cases h
  · refine ⟨hp, .refl, ⟨rfl, id, fun i hi => ⟨i, hi, ?_⟩⟩, fun _ => rfl⟩
    obtain ⟨old, hOld, hIsFine⟩ := hFine i hi
    exact ⟨old, old, hOld, hOld, hIsFine, fun _ => rfl⟩
  · have hNamed : x.name ≠ none := by
      rw [hName]
      exact nofun
    obtain ⟨hq, hAdds, new, hNew, hNewFine⟩ :=
      fresh_spec (isGiven_nameForParameter place) hp hFresh
    refine ⟨hq, hAdds, ⟨rfl, fun hNone => absurd hNone hNamed, fun k hk => ⟨j, rfl, ?_⟩⟩, nofun⟩
    obtain rfl := Option.some.inj (hName.symm.trans hk)
    exact ⟨old, new, hAdds.grows.text hOld, hNew, hNewFine,
      fun h => absurd h (Bool.eq_false_iff.1 hBad)⟩

/-- **Declared parameters behind the fix.** -/
theorem fixParameters_spec : ∀ {place : Nat} {list list' : List MethodParameter} {changed : Bool}
    {s t : NameScope} {p q : Pool}, p.Intact →
      Yields ((fixParameters place list).run s) p ((list', changed), t) q →
        q.Intact ∧ AddsGiven p q ∧ List.Forall₂ (ParameterFixed q) list list' ∧
          (changed = false → list' = list)
  | place, [], list', changed, s, t, p, q, hp, h => by
    obtain ⟨⟨hEq, -⟩, rfl⟩ := yields_run_pure.1 h
    obtain ⟨rfl, rfl⟩ := Prod.mk.inj hEq
    exact ⟨hp, .refl, .nil, fun _ => rfl⟩
  | place, x :: more, list', changed, s, t, p, q, hp, h => by
    obtain ⟨⟨x', first⟩, s₁, p₁, hFirst, h⟩ := yields_run_bind.1 h
    obtain ⟨⟨more', others⟩, s₂, p₂, hMore, h⟩ := yields_run_bind.1 h
    obtain ⟨⟨hEq, -⟩, rfl⟩ := yields_run_pure.1 h
    obtain ⟨rfl, rfl⟩ := Prod.mk.inj hEq
    obtain ⟨hp₁, hAdds₁, hx, hSame₁⟩ := fixParameter_spec hp hFirst
    obtain ⟨hq, hAdds₂, hAll, hSame₂⟩ := fixParameters_spec hp₁ hMore
    refine ⟨hq, hAdds₁.trans hAdds₂, .cons (hx.mono hAdds₂.grows) hAll, fun hNone => ?_⟩
    obtain ⟨hFirstSame, hOthersSame⟩ := Bool.or_eq_false_iff.1 hNone
    rw [hSame₁ hFirstSame, hSame₂ hOthersSame]

-- ---------------------------------------------------------------------------
-- Lists of attributes
-- ---------------------------------------------------------------------------

section Attributes

variable {l l' : List Attribute} {a : Attribute} {place : Nat} {info : Bytes} {name : String}
  {R : Attribute → Attribute → Prop}

/-- A new body for one attribute, where others may have new bodies. -/
theorem forall₂_setBody (hAll : List.Forall₂ R l l') (hName : ∀ a b, R a b → b.name = a.name)
    (hAt : l[place]? = some a) (hNew : R a ⟨a.name, info⟩) :
    List.Forall₂ R l (setBody l' place info) := by
  induction hAll generalizing place with
  | nil => cases hAt
  | @cons b b' _ _ hFirst hMore ih =>
    cases place with
    | zero =>
      obtain rfl : b = a := Option.some.inj hAt
      refine .cons ?_ hMore
      show R b ⟨b'.name, info⟩
      rw [hName b b' hFirst]
      exact hNew
    | succ place => exact .cons hFirst (ih hAt)

theorem getElem?_setBody_self (hAt : l[place]? = some a) :
    (setBody l place info)[place]? = some ⟨a.name, info⟩ := by
  rw [setBody, List.getElem?_modify_eq, hAt]
  rfl

theorem getElem?_setBody_ne {other : Nat} (hOther : place ≠ other) :
    (setBody l place info)[other]? = l[other]? :=
  List.getElem?_modify_ne _ _ hOther

/-- A search goes by the names. -/
theorem attribute?_same {pool : Pool} {o : Option (Nat × Attribute)}
    (hNames : SameAttributeNames l l') (h : pool.attribute? l name = .ok o) :
    (o = none → pool.attribute? l' name = .ok none) ∧ ∀ place a, o = some (place, a) →
      l[place]? = some a ∧ pool.text a.name = .ok name ∧
        ∀ b, l'[place]? = some b → pool.attribute? l' name = .ok (some (place, b)) := by
  have hOther : ∀ {old new : List Attribute}, SameAttributeNames old new →
      (∀ a ∈ old, pool.IsOther name a) → ∀ b ∈ new, pool.IsOther name b := fun hSame hOld =>
    forall_of_forall₂ hOld (fun _ _ => trivial) hSame fun a b ha _ hab => by
      unfold Pool.IsOther at ha ⊢
      rwa [hab]
  constructor
  · rintro rfl
    exact Pool.attribute?_eq_none.2 (hOther hNames (Pool.attribute?_eq_none.1 h))
  · rintro place a rfl
    obtain ⟨before, after, rfl, rfl, hBefore, hText⟩ := Pool.attribute?_eq_some.1 h
    refine ⟨by simp, hText, fun b hb => ?_⟩
    obtain ⟨hLength, rfl⟩ := List.getElem?_eq_some_iff.1 hb
    have hFront := List.forall₂_take before.length hNames
    have hBack := List.forall₂_drop before.length hNames
    rw [List.take_left] at hFront
    rw [List.drop_left, List.drop_eq_getElem_cons hLength] at hBack
    obtain ⟨hHere, -⟩ := List.forall₂_cons.1 hBack
    refine Pool.attribute?_eq_some.2 ⟨l'.take before.length, l'.drop (before.length + 1), ?_, ?_,
      hOther hFront hBefore, by rwa [hHere]⟩
    · rw [← List.drop_eq_getElem_cons hLength, List.take_append_drop]
    · exact List.length_take_of_le hLength.le

theorem exists_attribute?_same {pool : Pool} {o : Option (Nat × Attribute)}
    (hNames : SameAttributeNames l l') (h : pool.attribute? l name = .ok o) :
    ∃ o', pool.attribute? l' name = .ok o' := by
  obtain ⟨hNone, hSome⟩ := attribute?_same hNames h
  cases o with
  | none => exact ⟨none, hNone rfl⟩
  | some entry =>
    obtain ⟨hAt, -, hFound⟩ := hSome entry.1 entry.2 rfl
    have hLength := (List.getElem?_eq_some_iff.1 hAt).1
    rw [hNames.length_eq] at hLength
    exact ⟨_, hFound _ (List.getElem?_eq_getElem hLength)⟩

/-- The attribute that was found, if there was one, has a new body. -/
def Rewrites (found : Option (Nat × Attribute)) (new : Attribute → Bytes → Prop)
    (l l' : List Attribute) : Prop :=
  found = none ∧ l' = l ∨
    ∃ place a info, found = some (place, a) ∧ new a info ∧ l' = setBody l place info

namespace Rewrites

variable {view : Pool} {l₀ : List Attribute} {found : Option (Nat × Attribute)}
  {new : Attribute → Bytes → Prop}

theorem forall₂ (hAll : List.Forall₂ R l₀ l) (hName : ∀ a b, R a b → b.name = a.name)
    (hFound : view.attribute? l₀ name = .ok found) (h : Rewrites found new l l')
    (hNew : ∀ place a info, found = some (place, a) → view.text a.name = .ok name →
      new a info → R a ⟨a.name, info⟩) :
    List.Forall₂ R l₀ l' := by
  obtain ⟨-, rfl⟩ | ⟨place, a, info, rfl, hInfo, rfl⟩ := h
  · exact hAll
  · obtain ⟨before, after, rfl, rfl, -, hText⟩ := Pool.attribute?_eq_some.1 hFound
    exact forall₂_setBody hAll hName (by simp) (hNew _ a info rfl hText hInfo)

/-- The attribute is found again, with its new body. -/
theorem search (hNames : SameAttributeNames l₀ l) (hFound : view.attribute? l₀ name = .ok found)
    (h : Rewrites found new l l') :
    found = none ∧ view.attribute? l' name = .ok none ∨ ∃ place a info, found = some (place, a) ∧
      new a info ∧ view.attribute? l' name = .ok (some (place, ⟨a.name, info⟩)) := by
  obtain ⟨rfl, rfl⟩ | ⟨place, a, info, rfl, hInfo, rfl⟩ := h
  · exact .inl ⟨rfl, (attribute?_same hNames hFound).1 rfl⟩
  · obtain ⟨hAt, -, hSome⟩ := (attribute?_same (hNames.setBody place info) hFound).2 place a rfl
    refine .inr ⟨place, a, info, rfl, hInfo, hSome _ ?_⟩
    have hLength : place < l.length := by
      rw [← hNames.length_eq]
      exact (List.getElem?_eq_some_iff.1 hAt).1
    have hHere : l[place].name = a.name := by
      rw [← (List.getElem?_eq_some_iff.1 hAt).2]
      exact hNames.get _ hLength
    rw [getElem?_setBody_self (List.getElem?_eq_getElem hLength), hHere]

/-- An attribute of another name is found where it was found, and as it was. -/
theorem search_other {other : String} {o : Option (Nat × Attribute)} (hOther : other ≠ name)
    (hNames : SameAttributeNames l₀ l) (hFound : view.attribute? l₀ name = .ok found)
    (hSearch : view.attribute? l other = .ok o) (h : Rewrites found new l l') :
    view.attribute? l' other = .ok o := by
  obtain ⟨-, rfl⟩ | ⟨place, a, info, rfl, -, rfl⟩ := h
  · exact hSearch
  have hSame : SameAttributeNames l (setBody l place info) :=
    SameAttributeNames.setBody (List.forall₂_same.2 fun _ _ => rfl) place info
  obtain ⟨hNone, hSome⟩ := attribute?_same hSame hSearch
  cases o with
  | none => exact hNone rfl
  | some entry =>
    obtain ⟨place', b⟩ := entry
    obtain ⟨hAt, hText, hBack⟩ := hSome place' b rfl
    refine hBack b ?_
    rw [getElem?_setBody_ne, hAt]
    rintro rfl
    -- both names would be read at the same place
    obtain ⟨hAt₀, hText₀, -⟩ := (attribute?_same hNames hFound).2 place a rfl
    obtain ⟨hLength₀, rfl⟩ := List.getElem?_eq_some_iff.1 hAt₀
    obtain ⟨hLength, rfl⟩ := List.getElem?_eq_some_iff.1 hAt
    have hHere : l[place].name = l₀[place].name := hNames.get hLength₀ hLength
    rw [hHere] at hText
    exact hOther (Except.ok.inj (hText.symm.trans hText₀))

end Rewrites

end Attributes

-- ---------------------------------------------------------------------------
-- Tables
-- ---------------------------------------------------------------------------

/-- What has become of a row of a type table, if `locals` are the rows of local variables, each with
what has become of it: it follows the local variable of its slot and its start. -/
structure TypeRowFixed (locals : List (LocalVariable × LocalVariable)) (v v' : LocalVariable) :
    Prop where
  start : v'.start = v.start
  length : v'.length = v.length
  slot : v'.slot = v.slot
  descriptor : v'.descriptor = v.descriptor
  name : v'.name = v.name ∨ IsRenamed locals ((v.slot, v.start), v'.name)

/-- What has become of a table of local variables. -/
def LocalsFixed (pool : Pool) (locals : List (LocalVariable × LocalVariable))
    (info info' : Bytes) : Prop :=
  ∃ rows rows', LocalVariable.table info = .ok rows ∧ LocalVariable.table info' = .ok rows' ∧
    List.Forall₂ (RowFixed pool) rows rows' ∧ locals = rows.zip rows'

/-- What has become of a type table. -/
def TypesFixed (locals : List (LocalVariable × LocalVariable)) (info info' : Bytes) : Prop :=
  ∃ rows rows', LocalVariable.table info = .ok rows ∧ LocalVariable.table info' = .ok rows' ∧
    List.Forall₂ (TypeRowFixed locals) rows rows'

/-- What has become of an attribute of a body: it stays, unless it is the table of local variables
or a type table. The names of attributes are looked up in the pool `view`. -/
def NestedFixed (view pool : Pool) (locals : List (LocalVariable × LocalVariable))
    (a a' : Attribute) : Prop :=
  a'.name = a.name ∧ (a'.info = a.info ∨
    view.text a.name = .ok AttributeName.localVariableTable ∧
      LocalsFixed pool locals a.info a'.info ∨
    view.text a.name = .ok AttributeName.localVariableTypeTable ∧
      TypesFixed locals a.info a'.info)

theorem NestedFixed.refl {view pool : Pool} {locals : List (LocalVariable × LocalVariable)}
    (a : Attribute) : NestedFixed view pool locals a a := ⟨rfl, .inl rfl⟩

/-- Rows that were read can be written with other names. -/
theorem table_of_tableToBytes {rows : List LocalVariable} {info : Bytes}
    (hFits : ∀ v ∈ rows, v.Fits) (h : LocalVariable.tableToBytes rows = .ok info) :
    LocalVariable.table info = .ok rows := by
  obtain ⟨hLength, rfl⟩ := LocalVariable.tableToBytes_eq_ok.1 h
  exact (reads_table LocalVariable.reads_read).front_eq ⟨hLength, hFits⟩

theorem fits_of_table {rows : List LocalVariable} {info : Bytes}
    (h : LocalVariable.table info = .ok rows) : ∀ v ∈ rows, v.Fits :=
  ((reads_table LocalVariable.reads_read).fits_of_front h).2

theorem fits_of_rowFixed {rows rows' : List LocalVariable} (hZero : p.entries[0]? = some .unusable)
    (hFits : ∀ v ∈ rows, v.Fits) (h : List.Forall₂ (RowFixed p) rows rows') :
    ∀ v ∈ rows', v.Fits :=
  forall_of_forall₂ hFits (fun _ _ => trivial) h fun v v' hv _ hFixed => by
    obtain ⟨_, _, -, hNew, -⟩ := hFixed.name
    exact ⟨Pool.ne_zero_of_text hZero hNew, hFixed.descriptor ▸ hv.2⟩

theorem fits_of_rowsOf {found : Option (Nat × Attribute)} {rows : List LocalVariable}
    (h : rowsOf found = .ok rows) : ∀ v ∈ rows, v.Fits := by
  cases found with
  | none =>
    obtain rfl := Except.ok.inj h
    exact nofun
  | some entry => exact fits_of_table h

/-- The names of type rows lead somewhere, since those of local variables do. -/
theorem fits_of_typeRowFixed {rows rows' types types' : List LocalVariable}
    (hRows : ∀ v ∈ rows', v.Fits) (hTypes : ∀ v ∈ types, v.Fits)
    (h : List.Forall₂ (TypeRowFixed (rows.zip rows')) types types') : ∀ v ∈ types', v.Fits :=
  forall_of_forall₂ hTypes (fun _ _ => trivial) h fun v v' hv _ hFixed => by
    refine ⟨?_, hFixed.descriptor ▸ hv.2⟩
    rcases hFixed.name with hSame | ⟨w, hw, hEq, -⟩
    · exact hSame ▸ hv.1
    · rw [(Prod.mk.inj hEq).2]
      exact (hRows _ (List.of_mem_zip hw).2).1

/-- The rows of a type table follow those of the local variables. -/
theorem followRows_spec {locals : List (LocalVariable × LocalVariable)} {renamed : Renamed}
    (hRenamed : ∀ e ∈ renamed, IsRenamed locals e) (rows : List LocalVariable) :
    List.Forall₂ (TypeRowFixed locals) rows (followRows renamed rows) := by
  refine List.forall₂_map_right_iff.2 (List.forall₂_same.2 fun v _ => ⟨rfl, rfl, rfl, rfl, ?_⟩)
  cases hFound : renamed.lookup (v.slot, v.start) with
  | none => exact .inl rfl
  | some name =>
    obtain ⟨before, after, rfl, -⟩ := List.lookup_eq_some_iff.1 hFound
    exact .inr (hRenamed _ (List.mem_append_right before List.mem_cons_self))

theorem rewrites_of_replaceRows {code code' : Code} {plain types : Option (Nat × Attribute)}
    {rows : List LocalVariable} {renamed : Renamed}
    (h : replaceRows code plain types rows renamed = .ok code') : code'.head = code.head ∧
      ∃ mid, Rewrites plain (fun _ info => LocalVariable.tableToBytes rows = .ok info)
          code.attributes mid ∧
        Rewrites types (fun a info => ∃ old, LocalVariable.table a.info = .ok old ∧
          LocalVariable.tableToBytes (followRows renamed old) = .ok info) mid code'.attributes := by
  simp only [replaceRows] at h
  cases plain with
  | none =>
    cases types with
    | none =>
      simp only [bind_ok_iff, pure_ok_iff] at h
      obtain ⟨_, rfl, _, rfl, rfl⟩ := h
      exact ⟨rfl, _, .inl ⟨rfl, rfl⟩, .inl ⟨rfl, rfl⟩⟩
    | some found =>
      simp only [bind_ok_iff, pure_ok_iff] at h
      obtain ⟨_, rfl, old, hOld, info, hInfo, _, rfl, rfl⟩ := h
      exact ⟨rfl, _, .inl ⟨rfl, rfl⟩, .inr ⟨_, _, info, rfl, ⟨old, hOld, hInfo⟩, rfl⟩⟩
  | some entry =>
    cases types with
    | none =>
      simp only [bind_ok_iff, pure_ok_iff] at h
      obtain ⟨info, hInfo, _, rfl, _, rfl, rfl⟩ := h
      exact ⟨rfl, _, .inr ⟨_, _, info, rfl, hInfo, rfl⟩, .inl ⟨rfl, rfl⟩⟩
    | some found =>
      simp only [bind_ok_iff, pure_ok_iff] at h
      obtain ⟨info, hInfo, _, rfl, old, hOld, info', hInfo', _, rfl, rfl⟩ := h
      exact ⟨rfl, _, .inr ⟨_, _, info, rfl, hInfo, rfl⟩,
        .inr ⟨_, _, info', rfl, ⟨old, hOld, hInfo'⟩, rfl⟩⟩

theorem replaceRows_spec {view : Pool} {code code' : Code} {plain types : Option (Nat × Attribute)}
    {rows rows' : List LocalVariable} {renamed : Renamed}
    (hPlain : view.attribute? code.attributes AttributeName.localVariableTable = .ok plain)
    (hTypes : view.attribute? code.attributes AttributeName.localVariableTypeTable = .ok types)
    (hZero : p.entries[0]? = some .unusable) (hRows : rowsOf plain = .ok rows)
    (hFixed : List.Forall₂ (RowFixed p) rows rows')
    (hRenamed : ∀ e ∈ renamed, IsRenamed (rows.zip rows') e)
    (h : replaceRows code plain types rows' renamed = .ok code') :
    code'.head = code.head ∧
      List.Forall₂ (NestedFixed view p (rows.zip rows')) code.attributes code'.attributes ∧
      ∃ plain', view.attribute? code'.attributes AttributeName.localVariableTable = .ok plain' ∧
        rowsOf plain' = .ok rows' := by
  obtain ⟨hHead, mid, hLocals, hFollow⟩ := rewrites_of_replaceRows h
  have hSelf : List.Forall₂ (NestedFixed view p (rows.zip rows')) code.attributes
      code.attributes := List.forall₂_same.2 fun a _ => .refl a
  have hName : ∀ a b, NestedFixed view p (rows.zip rows') a b → b.name = a.name :=
    fun _ _ h => h.1
  have hFits := fits_of_rowFixed hZero (fits_of_rowsOf hRows) hFixed
  have hMid : List.Forall₂ (NestedFixed view p (rows.zip rows')) code.attributes mid := by
    refine hLocals.forall₂ hSelf hName hPlain fun place a info hSome hText hInfo => ?_
    rw [hSome] at hRows
    exact ⟨rfl, .inr (.inl
      ⟨hText, rows, rows', hRows, table_of_tableToBytes hFits hInfo, hFixed, rfl⟩)⟩
  refine ⟨hHead, ?_, ?_⟩
  · refine hFollow.forall₂ hMid hName hTypes fun place a info _ hText hInfo => ?_
    obtain ⟨old, hOld, hInfo⟩ := hInfo
    have hAll := followRows_spec hRenamed old
    have hTypeFits := fits_of_typeRowFixed hFits (fits_of_table hOld) hAll
    exact ⟨rfl, .inr (.inr ⟨hText, old, _, hOld, table_of_tableToBytes hTypeFits hInfo, hAll⟩)⟩
  · have hNames : SameAttributeNames code.attributes mid := hMid.imp hName
    obtain ⟨rfl, hSearch⟩ | ⟨place, a, info, rfl, hInfo, hSearch⟩ :=
      hLocals.search (List.forall₂_same.2 fun _ _ => rfl) hPlain
    · obtain rfl := Except.ok.inj hRows
      obtain rfl := List.forall₂_nil_left_iff.1 hFixed
      exact ⟨none, hFollow.search_other (by decide) hNames hTypes hSearch, rfl⟩
    · exact ⟨_, hFollow.search_other (by decide) hNames hTypes hSearch,
        table_of_tableToBytes hFits hInfo⟩

-- ---------------------------------------------------------------------------
-- Methods
-- ---------------------------------------------------------------------------

/-- What has become of the body of a method. -/
def CodeFixed (view pool : Pool) (info info' : Bytes) : Prop :=
  ∃ code code' locals, Code.split info = .ok code ∧ Code.split info' = .ok code' ∧
    code'.head = code.head ∧
      List.Forall₂ (NestedFixed view pool locals) code.attributes code'.attributes

/-- What has become of declared parameters. -/
def ParametersFixed (pool : Pool) (info info' : Bytes) : Prop :=
  ∃ list list', MethodParameter.table info = .ok list ∧ MethodParameter.table info' = .ok list' ∧
    List.Forall₂ (ParameterFixed pool) list list'

/-- What has become of an attribute of a method: it stays, unless it is the body or the declaration
of the parameters. -/
def AttributeFixed (view pool : Pool) (a a' : Attribute) : Prop :=
  a'.name = a.name ∧ (a'.info = a.info ∨
    view.text a.name = .ok AttributeName.code ∧ CodeFixed view pool a.info a'.info ∨
    view.text a.name = .ok AttributeName.methodParameters ∧ ParametersFixed pool a.info a'.info)

/-- What has become of a method. -/
structure MethodFixed (view pool : Pool) (m m' : Member) : Prop where
  access : m'.access = m.access
  name : m'.name = m.name
  descriptor : m'.descriptor = m.descriptor
  attributes : List.Forall₂ (AttributeFixed view pool) m.attributes m'.attributes

theorem LocalsFixed.mono {locals : List (LocalVariable × LocalVariable)} {info info' : Bytes}
    (h : LocalsFixed p locals info info') (hGrows : p.Grows q) :
    LocalsFixed q locals info info' := by
  obtain ⟨rows, rows', hRows, hRows', hAll, hEq⟩ := h
  exact ⟨rows, rows', hRows, hRows', hAll.imp fun _ _ h => h.mono hGrows, hEq⟩

theorem NestedFixed.mono {view : Pool} {locals : List (LocalVariable × LocalVariable)}
    {a a' : Attribute} (h : NestedFixed view p locals a a') (hGrows : p.Grows q) :
    NestedFixed view q locals a a' :=
  h.imp_right fun hCases =>
    hCases.imp_right fun hTable => hTable.imp_left fun h => h.imp_right (·.mono hGrows)

theorem CodeFixed.mono {view : Pool} {info info' : Bytes} (h : CodeFixed view p info info')
    (hGrows : p.Grows q) : CodeFixed view q info info' := by
  obtain ⟨code, code', locals, hSplit, hSplit', hHead, hNested⟩ := h
  exact ⟨code, code', locals, hSplit, hSplit', hHead, hNested.imp fun _ _ h => h.mono hGrows⟩

theorem ParametersFixed.mono {info info' : Bytes} (h : ParametersFixed p info info')
    (hGrows : p.Grows q) : ParametersFixed q info info' := by
  obtain ⟨list, list', hList, hList', hAll⟩ := h
  exact ⟨list, list', hList, hList', hAll.imp fun _ _ h => h.mono hGrows⟩

theorem MethodFixed.mono {view : Pool} {m m' : Member} (h : MethodFixed view p m m')
    (hGrows : p.Grows q) : MethodFixed view q m m' :=
  { h with
    attributes := h.attributes.imp fun _ _ hFixed => hFixed.imp_right fun hCases =>
      hCases.imp_right fun hTable => hTable.imp (·.imp_right (·.mono hGrows))
        (·.imp_right (·.mono hGrows)) }

/-- The rows of local variables that the fix looks at. -/
def RowsAt (view : Pool) (l : List Attribute) (rows : List LocalVariable) : Prop :=
  ∃ found, view.attribute? l AttributeName.code = .ok found ∧ (found = none ∧ rows = [] ∨
    ∃ place a code plain types, found = some (place, a) ∧ Code.split a.info = .ok code ∧
      view.attribute? code.attributes AttributeName.localVariableTable = .ok plain ∧
      view.attribute? code.attributes AttributeName.localVariableTypeTable = .ok types ∧
      rowsOf plain = .ok rows)

/-- The declared parameters that the fix looks at. -/
def ParametersAt (view : Pool) (l : List Attribute) (list : List MethodParameter) : Prop :=
  ∃ found, view.attribute? l AttributeName.methodParameters = .ok found ∧
    parametersOf found = .ok list

variable {view : Pool} {m m' : Member} {tables : NameTables} {rows rows' : List LocalVariable}
  {list list' : List MethodParameter}

/-- The tables of a method are found where its rows and its parameters are. -/
theorem exists_find (hRows : RowsAt view m.attributes rows)
    (hList : ParametersAt view m.attributes list) : ∃ tables, NameTables.find view m = .ok tables ∧
      rowsOf tables.plain = .ok rows ∧ parametersOf tables.parameters = .ok list := by
  obtain ⟨found, hFound, hRows⟩ := hRows
  obtain ⟨parameters, hParameters, hList⟩ := hList
  obtain ⟨rfl, rfl⟩ | ⟨place, a, code, plain, types, rfl, hSplit, hPlain, hTypes, hRows⟩ := hRows
  · refine ⟨⟨none, none, none, parameters⟩, ?_, rfl, hList⟩
    rw [NameTables.find, hFound, hParameters]
    rfl
  · refine ⟨⟨some (place, code), plain, types, parameters⟩, ?_, hRows, hList⟩
    simp only [NameTables.find, hFound, hParameters, bind_ok_iff, pure_ok_iff]
    refine ⟨_, rfl, _, rfl, some (place, code), ?_, plain, hPlain, types, hTypes, rfl⟩
    simp only [Option.mapM_some, hSplit]
    rfl

theorem parametersAt_of_find (hFind : NameTables.find view m = .ok tables)
    (hList : parametersOf tables.parameters = .ok list) :
    ParametersAt view m.attributes list := by
  simp only [NameTables.find, bind_ok_iff, pure_ok_iff] at hFind
  obtain ⟨_, -, parameters, hParameters, _, -, _, -, _, -, rfl⟩ := hFind
  exact ⟨parameters, hParameters, hList⟩

/-- Which body is found, and which tables in it. -/
theorem find_cases (hFind : NameTables.find view m = .ok tables) : ∃ found,
    view.attribute? m.attributes AttributeName.code = .ok found ∧
    view.attribute? m.attributes AttributeName.methodParameters = .ok tables.parameters ∧
    (found = none ∧ tables.code = none ∧ tables.plain = none ∨
      ∃ place a code, found = some (place, a) ∧ Code.split a.info = .ok code ∧
        tables.code = some (place, code) ∧
        view.attribute? code.attributes AttributeName.localVariableTable = .ok tables.plain ∧
        view.attribute? code.attributes AttributeName.localVariableTypeTable =
          .ok tables.types) := by
  simp only [NameTables.find, bind_ok_iff, pure_ok_iff] at hFind
  obtain ⟨found, hFound, parameters, hParameters, code, hCode, plain, hPlain, types, hTypes,
    rfl⟩ := hFind
  refine ⟨found, hFound, hParameters, ?_⟩
  cases found with
  | none =>
    obtain rfl := Except.ok.inj hCode
    exact .inl ⟨rfl, rfl, (Except.ok.inj hPlain).symm⟩
  | some entry =>
    obtain ⟨place, a⟩ := entry
    simp only [Option.mapM_some, map_ok_iff, bind_ok_iff, pure_ok_iff] at hCode
    obtain ⟨_, ⟨code, hSplit, rfl⟩, rfl⟩ := hCode
    exact .inr ⟨place, a, code, rfl, hSplit, rfl, hPlain, hTypes⟩

theorem rowsAt_of_find (hFind : NameTables.find view m = .ok tables)
    (hRows : rowsOf tables.plain = .ok rows) : RowsAt view m.attributes rows := by
  obtain ⟨found, hFound, -, hCases⟩ := find_cases hFind
  refine ⟨found, hFound, ?_⟩
  obtain ⟨rfl, -, hPlain⟩ | ⟨place, a, code, rfl, hSplit, -, hPlain, hTypes⟩ := hCases
  · rw [hPlain] at hRows
    exact .inl ⟨rfl, (Except.ok.inj hRows).symm⟩
  · exact .inr ⟨place, a, code, _, _, rfl, hSplit, hPlain, hTypes, hRows⟩

/-- What is written into the attributes of a method first: a body with new rows, if there is one. -/
def RewritesBody (view : Pool) (tables : NameTables) (rows : List LocalVariable) (renamed : Renamed)
    (found : Option (Nat × Attribute)) (l mid : List Attribute) : Prop :=
  Rewrites found (fun a info => ∃ code code', Code.split a.info = .ok code ∧
    view.attribute? code.attributes AttributeName.localVariableTable = .ok tables.plain ∧
    view.attribute? code.attributes AttributeName.localVariableTypeTable = .ok tables.types ∧
    replaceRows code tables.plain tables.types rows renamed = .ok code' ∧
    code'.toBytes = .ok info) l mid

/-- What is written into a method whose attributes are `mid` by then: new parameters, if there are
any. -/
def RewritesParameters (tables : NameTables) (parameters : Option (List MethodParameter))
    (m m' : Member) (mid : List Attribute) : Prop :=
  parameters = none ∧ m' = { m with attributes := mid } ∨
    ∃ list new, parameters = some list ∧ m' = { m with attributes := new } ∧
      Rewrites tables.parameters
        (fun _ info => MethodParameter.tableToBytes list = .ok info) mid new

/-- The parameters are written last, into whatever attributes there are by then. -/
theorem rewritesParameters_of_replace {renamed : Renamed}
    {parameters : Option (List MethodParameter)} (hCode : tables.code = none)
    (h : tables.replace m rows renamed parameters = .ok m') :
    RewritesParameters tables parameters m m' m.attributes := by
  rw [NameTables.replace, hCode] at h
  obtain ⟨mid, hMid, h⟩ := bind_ok_iff.1 h
  obtain rfl := pure_ok_iff.1 hMid
  cases parameters with
  | none =>
    obtain ⟨_, rfl, rfl⟩ : ∃ new, m.attributes = new ∧ { m with attributes := new } = m' := by
      cases hParameters : tables.parameters with
      | none => simpa [hParameters] using h
      | some entry => simpa [hParameters] using h
    exact .inl ⟨rfl, rfl⟩
  | some list =>
    unfold RewritesParameters
    cases hParameters : tables.parameters with
    | none =>
      simp only [hParameters, bind_ok_iff, pure_ok_iff] at h
      obtain ⟨_, rfl, rfl⟩ := h
      exact .inr ⟨list, _, rfl, rfl, .inl ⟨rfl, rfl⟩⟩
    | some entry =>
      simp only [hParameters, bind_ok_iff, pure_ok_iff] at h
      obtain ⟨info, hInfo, _, rfl, rfl⟩ := h
      exact .inr ⟨list, _, rfl, rfl, .inr ⟨_, _, info, rfl, hInfo, rfl⟩⟩

/-- What is written into a method: a body with new rows, and new parameters if there are any. -/
theorem rewrites_of_replace {renamed : Renamed} {parameters : Option (List MethodParameter)}
    (hFind : NameTables.find view m = .ok tables)
    (h : tables.replace m rows renamed parameters = .ok m') : ∃ found mid,
      view.attribute? m.attributes AttributeName.code = .ok found ∧
      RewritesBody view tables rows renamed found m.attributes mid ∧
      RewritesParameters tables parameters m m' mid := by
  obtain ⟨found, hFound, -, hCases⟩ := find_cases hFind
  -- What is left to do behind the body is a replacement without one.
  have hSecond : ∀ mid, ({ tables with code := none } : NameTables).replace
      { m with attributes := mid } rows renamed parameters = .ok m' →
      RewritesParameters tables parameters m m' mid := fun mid h =>
    rewritesParameters_of_replace rfl h
  simp only [NameTables.replace] at h
  obtain ⟨rfl, hCode, -⟩ | ⟨place, a, code, rfl, hSplit, hCode, hPlain, hTypes⟩ := hCases
  · rw [hCode] at h
    obtain ⟨mid, hMid, h⟩ := bind_ok_iff.1 h
    obtain rfl := pure_ok_iff.1 hMid
    exact ⟨none, _, hFound, .inl ⟨rfl, rfl⟩, hSecond _ h⟩
  · rw [hCode] at h
    obtain ⟨code', hReplace, h⟩ := bind_ok_iff.1 h
    obtain ⟨info, hInfo, h⟩ := bind_ok_iff.1 h
    obtain ⟨mid, hMid, h⟩ := bind_ok_iff.1 h
    obtain rfl := pure_ok_iff.1 hMid
    exact ⟨_, _, hFound, .inr ⟨place, a, info, rfl,
      ⟨code, code', hSplit, hPlain, hTypes, hReplace, hInfo⟩, rfl⟩, hSecond _ h⟩

/-- The bodies of a method have nothing behind their nested attributes. -/
def MethodFilled (view : Pool) (l : List Attribute) : Prop :=
  ∀ a ∈ l, view.text a.name = .ok AttributeName.code → CodeBody.read.fills a.info = true

/-- A body with new rows is written and read again. -/
theorem split_of_replaceRows {renamed : Renamed} {info info' : Bytes} {code code' : Code}
    {plain types : Option (Nat × Attribute)} (hFills : CodeBody.read.fills info = true)
    (hSplit : Code.split info = .ok code)
    (hPlain : view.attribute? code.attributes AttributeName.localVariableTable = .ok plain)
    (hTypes : view.attribute? code.attributes AttributeName.localVariableTypeTable = .ok types)
    (hZero : p.entries[0]? = some .unusable) (hRows : rowsOf plain = .ok rows)
    (hFixed : List.Forall₂ (RowFixed p) rows rows')
    (hRenamed : ∀ e ∈ renamed, IsRenamed (rows.zip rows') e)
    (h : replaceRows code plain types rows' renamed = .ok code')
    (hInfo : code'.toBytes = .ok info') : CodeFixed view p info info' ∧
      ∃ plain' types', Code.split info' = .ok code' ∧
        view.attribute? code'.attributes AttributeName.localVariableTable = .ok plain' ∧
        view.attribute? code'.attributes AttributeName.localVariableTypeTable = .ok types' ∧
        rowsOf plain' = .ok rows' := by
  obtain ⟨hHead, hAll, plain', hPlain', hRows'⟩ :=
    replaceRows_spec hPlain hTypes hZero hRows hFixed hRenamed h
  have hNames : SameAttributeNames code.attributes code'.attributes := hAll.imp fun _ _ h => h.1
  obtain ⟨types', hTypes'⟩ := exists_attribute?_same hNames hTypes
  obtain ⟨b, hFits, rfl, rfl⟩ := Code.split_eq_ok (fills_iff.1 hFills) hSplit
  obtain ⟨hWrite, rfl⟩ := Code.toBytes_eq_ok.1 hInfo
  have hNew : ({ b with attributes := code'.attributes } : CodeBody).Fits :=
    ⟨hFits.bytecode, hFits.exceptions,
      ClassRemapping.allFit_of_names hNames hFits.attributes hWrite⟩
  have hSplit' : Code.split (code'.head ++ tableBytes Attribute.written code'.attributes) =
      .ok code' := by
    obtain ⟨head, attributes⟩ := code'
    obtain rfl : head = b.head := hHead
    have hRead := CodeBody.reads_read.eq_some.2 ⟨hNew, (List.append_nil _).symm⟩
    have hBack := Code.split_of_read hRead
    rwa [CodeBody.moved, List.length_nil, List.take_zero, List.append_nil] at hBack
  exact ⟨⟨_, code', _, hSplit, hSplit', hHead, hAll⟩, plain', types', hSplit', hPlain', hTypes',
    hRows'⟩

/-- Parameters behind the fix are written and read again. -/
theorem table_of_parametersToBytes {info : Bytes} (hZero : p.entries[0]? = some .unusable)
    (hFixed : List.Forall₂ (ParameterFixed p) list list')
    (h : MethodParameter.tableToBytes list' = .ok info) :
    MethodParameter.table info = .ok list' := by
  have hFits : ∀ x ∈ list', x.Fits :=
    forall_of_forall₂ (fun _ _ => trivial) (fun _ _ => trivial) hFixed fun x x' _ _ hx => by
      intro hNull
      cases hName : x.name with
      | none => exact nomatch (hx.unnamed hName).symm.trans hNull
      | some i =>
        obtain ⟨j, hj, _, _, -, hText, -⟩ := hx.named i hName
        obtain rfl := Option.some.inj (hj.symm.trans hNull)
        exact Pool.ne_zero_of_text hZero hText rfl
  obtain ⟨hLength, rfl⟩ := MethodParameter.tableToBytes_eq_ok.1 h
  exact (reads_smallTable MethodParameter.reads_read).front_eq ⟨hLength, hFits⟩

/-- The attributes behind the body are what they were, but for names, and the rows are the new
ones. -/
theorem rewritesBody_spec {renamed : Renamed} {found : Option (Nat × Attribute)}
    {mid : List Attribute} (hFind : NameTables.find view m = .ok tables)
    (hFilled : MethodFilled view m.attributes) (hZero : p.entries[0]? = some .unusable)
    (hRows : rowsOf tables.plain = .ok rows) (hFixed : List.Forall₂ (RowFixed p) rows rows')
    (hRenamed : ∀ e ∈ renamed, IsRenamed (rows.zip rows') e)
    (hFound : view.attribute? m.attributes AttributeName.code = .ok found)
    (hBody : RewritesBody view tables rows' renamed found m.attributes mid) :
    List.Forall₂ (AttributeFixed view p) m.attributes mid ∧ RowsAt view mid rows' := by
  have hSelf : SameAttributeNames m.attributes m.attributes := List.forall₂_same.2 fun _ _ => rfl
  refine ⟨hBody.forall₂ (List.forall₂_same.2 fun _ _ => ⟨rfl, .inl rfl⟩) (fun _ _ h => h.1) hFound
    fun place a info hSome hText hNew => ?_, ?_⟩
  · obtain ⟨code, code', hSplit, hPlain, hTypes, hReplace, hInfo⟩ := hNew
    obtain ⟨before, after, hAttributes, -⟩ := Pool.attribute?_eq_some.1 (hSome ▸ hFound)
    have hMem : a ∈ m.attributes := by simp [hAttributes]
    exact ⟨rfl, .inr (.inl ⟨hText, (split_of_replaceRows (hFilled a hMem hText) hSplit hPlain hTypes
      hZero hRows hFixed hRenamed hReplace hInfo).1⟩)⟩
  · obtain ⟨rfl, hNone⟩ | ⟨place, a, info, rfl, hNew, hFoundMid⟩ := hBody.search hSelf hFound
    · obtain ⟨_, hAgain, ⟨-, rfl⟩ | ⟨_, _, _, _, _, rfl, -⟩⟩ := rowsAt_of_find hFind hRows
      · obtain rfl := List.forall₂_nil_left_iff.1 hFixed
        exact ⟨none, hNone, .inl ⟨rfl, rfl⟩⟩
      · cases hFound.symm.trans hAgain
    · obtain ⟨code, code', hSplit, hPlain, hTypes, hReplace, hInfo⟩ := hNew
      obtain ⟨before, after, hAttributes, -, -, hText⟩ := Pool.attribute?_eq_some.1 hFound
      have hMem : a ∈ m.attributes := by simp [hAttributes]
      obtain ⟨-, plain', types', hSplit', hPlain', hTypes', hRows'⟩ :=
        split_of_replaceRows (hFilled a hMem hText) hSplit hPlain hTypes hZero hRows hFixed
          hRenamed hReplace hInfo
      exact ⟨_, hFoundMid,
        .inr ⟨place, _, code', plain', types', rfl, hSplit', hPlain', hTypes', hRows'⟩⟩

/-- New parameters leave the body alone. -/
theorem rewritesParameters_spec {mid new : List Attribute}
    (hZero : p.entries[0]? = some .unusable) (hList : parametersOf tables.parameters = .ok list)
    (hParameters : List.Forall₂ (ParameterFixed p) list list')
    (hMid : List.Forall₂ (AttributeFixed view p) m.attributes mid)
    (hRowsMid : RowsAt view mid rows)
    (hSearch : view.attribute? m.attributes AttributeName.methodParameters = .ok tables.parameters)
    (hRewrites : Rewrites tables.parameters
      (fun _ info => MethodParameter.tableToBytes list' = .ok info) mid new) :
    List.Forall₂ (AttributeFixed view p) m.attributes new ∧ RowsAt view new rows ∧
      ParametersAt view new list' := by
  have hName : ∀ a b, AttributeFixed view p a b → b.name = a.name := fun _ _ h => h.1
  have hNames : SameAttributeNames m.attributes mid := hMid.imp hName
  refine ⟨hRewrites.forall₂ hMid hName hSearch fun place a info hFoundAt hText hInfo => ?_, ?_, ?_⟩
  · rw [hFoundAt] at hList
    exact ⟨rfl, .inr (.inr ⟨hText, list, list', hList,
      table_of_parametersToBytes hZero hParameters hInfo, hParameters⟩)⟩
  · obtain ⟨found', hFound', hCases⟩ := hRowsMid
    exact ⟨found', hRewrites.search_other (by decide) hNames hSearch hFound', hCases⟩
  · obtain ⟨hGone, hNone⟩ | ⟨place, a, info, -, hInfo, hFoundAt⟩ :=
      hRewrites.search hNames hSearch
    · rw [hGone] at hList
      obtain rfl := Except.ok.inj hList
      obtain rfl := List.forall₂_nil_left_iff.1 hParameters
      exact ⟨none, hNone, rfl⟩
    · exact ⟨_, hFoundAt, table_of_parametersToBytes hZero hParameters hInfo⟩

/-- **A method behind the fix.** Its attributes are what they were, but for names, and the names that
the fix looks at are the new ones. -/
theorem replace_spec {renamed : Renamed} {changed : Bool}
    (hFind : NameTables.find view m = .ok tables) (hFilled : MethodFilled view m.attributes)
    (hZero : p.entries[0]? = some .unusable) (hRows : rowsOf tables.plain = .ok rows)
    (hList : parametersOf tables.parameters = .ok list)
    (hFixed : List.Forall₂ (RowFixed p) rows rows')
    (hRenamed : ∀ e ∈ renamed, IsRenamed (rows.zip rows') e)
    (hParameters : List.Forall₂ (ParameterFixed p) list list')
    (hSame : changed = false → list' = list)
    (h : tables.replace m rows' renamed (if changed then some list' else none) = .ok m') :
    MethodFixed view p m m' ∧ RowsAt view m'.attributes rows' ∧
      ParametersAt view m'.attributes list' := by
  obtain ⟨found, mid, hFound, hBody, hMore⟩ := rewrites_of_replace hFind h
  obtain ⟨_, -, hSearch, -⟩ := find_cases hFind
  obtain ⟨hMid, hRowsMid⟩ :=
    rewritesBody_spec hFind hFilled hZero hRows hFixed hRenamed hFound hBody
  obtain ⟨hNone, rfl⟩ | ⟨new, attributes, hSome, rfl, hRewrites⟩ := hMore
  · have hUnchanged : changed = false := by
      cases changed with
      | false => rfl
      | true => cases hNone
    obtain rfl := hSame hUnchanged
    have hSearchMid := hBody.search_other (by decide) (List.forall₂_same.2 fun _ _ => rfl) hFound
      hSearch
    exact ⟨⟨rfl, rfl, rfl, hMid⟩, hRowsMid, _, hSearchMid, hList⟩
  · obtain rfl : list' = new := by
      cases changed with
      | false => cases hSome
      | true => exact Option.some.inj hSome
    obtain ⟨hNew, hRowsNew, hListNew⟩ :=
      rewritesParameters_spec hZero hList hParameters hMid hRowsMid hSearch hRewrites
    exact ⟨⟨rfl, rfl, rfl, hNew⟩, hRowsNew, hListNew⟩

-- ---------------------------------------------------------------------------
-- Nothing to fix
-- ---------------------------------------------------------------------------

/-- An identifier stands at an index. -/
def IsNameAt (pool : Pool) (i : UInt16) : Prop :=
  ∃ name, pool.text i = .ok name ∧ isIdentifier name = true

/-- All names that the fix looks at are identifiers. -/
def NamesFine (pool : Pool) (m : Member) : Prop :=
  ∃ rows list, RowsAt pool m.attributes rows ∧ ParametersAt pool m.attributes list ∧
    (∀ v ∈ rows, IsNameAt pool v.name) ∧ ∀ x ∈ list, ∀ i, x.name = some i → IsNameAt pool i

theorem IsNameAt.mono (h : IsNameAt p i) (hGrows : p.Grows q) : IsNameAt q i :=
  let ⟨name, hText, hFine⟩ := h
  ⟨name, hGrows.text hText, hFine⟩

theorem RowsAt.mono {l : List Attribute} (h : RowsAt p l rows) (hGrows : p.Grows q) :
    RowsAt q l rows := by
  obtain ⟨found, hFound, hCases⟩ := h
  refine ⟨found, hGrows.attribute? hFound, hCases.imp_right ?_⟩
  rintro ⟨place, a, code, plain, types, rfl, hSplit, hPlain, hTypes, hRows⟩
  exact ⟨place, a, code, plain, types, rfl, hSplit, hGrows.attribute? hPlain,
    hGrows.attribute? hTypes, hRows⟩

theorem ParametersAt.mono {l : List Attribute} (h : ParametersAt p l list) (hGrows : p.Grows q) :
    ParametersAt q l list :=
  let ⟨found, hFound, hList⟩ := h
  ⟨found, hGrows.attribute? hFound, hList⟩

theorem NamesFine.mono (h : NamesFine p m) (hGrows : p.Grows q) : NamesFine q m := by
  obtain ⟨rows, list, hRows, hList, hFine, hFineList⟩ := h
  exact ⟨rows, list, hRows.mono hGrows, hList.mono hGrows, fun v hv => (hFine v hv).mono hGrows,
    fun x hx i hi => (hFineList x hx i hi).mono hGrows⟩

theorem isNameAt_of_rowFixed (h : List.Forall₂ (RowFixed p) rows rows') :
    ∀ v ∈ rows', IsNameAt p v.name :=
  forall_of_forall₂ (fun _ _ => trivial) (fun _ _ => trivial) h fun _ _ _ _ hFixed =>
    let ⟨_, new, _, hNew, hFine, _⟩ := hFixed.name
    ⟨new, hNew, hFine⟩

theorem isNameAt_of_parameterFixed (h : List.Forall₂ (ParameterFixed p) list list') :
    ∀ x ∈ list', ∀ i, x.name = some i → IsNameAt p i :=
  forall_of_forall₂ (fun _ _ => trivial) (fun _ _ => trivial) h fun x x' _ _ hFixed i hi => by
    cases hName : x.name with
    | none => exact nomatch (hFixed.unnamed hName).symm.trans hi
    | some i₀ =>
      obtain ⟨j, hj, _, new, -, hNew, hFine, -⟩ := hFixed.named i₀ hName
      obtain rfl := Option.some.inj (hj.symm.trans hi)
      exact ⟨new, hNew, hFine⟩

/-- **What the fix makes of a method.** The names that it looks at are identifiers behind it, and
everything else is what it was. -/
theorem fixMethod_spec {o : Option Member} (hp : p.Intact) (hView : AddsGiven view p)
    (hZero : view.entries[0]? = some .unusable) (hFilled : MethodFilled view m.attributes)
    (h : Yields (fixMethod view m) p o q) :
    q.Intact ∧ AddsGiven p q ∧ MethodFixed view q m (o.getD m) ∧ NamesFine q (o.getD m) ∧
      ∃ descriptor, q.text m.descriptor = .ok descriptor := by
  obtain ⟨descriptor, tables, hDescriptor, hFind, hFix⟩ := yields_fixMethod.1 h
  obtain ⟨rows, list, existing, rows', renamed, s, p₁, list', changed, t, hRows, hList, -, hFixRows,
    hFixList, hCases⟩ := yields_fix.1 hFix
  obtain ⟨hp₁, hAdds₁, hFixed, hRenamed, hSameRows⟩ := fixRows_spec hp hFixRows
  obtain ⟨hq, hAdds₂, hParameters, hSameList⟩ := fixParameters_spec hp₁ hFixList
  have hFixed := hFixed.imp fun _ _ h => h.mono hAdds₂.grows
  have hAdds := hAdds₁.trans hAdds₂
  have hGrows := (hView.trans hAdds).grows
  refine ⟨hq, hAdds, ?_⟩
  obtain ⟨hMethod, hRowsAt, hListAt⟩ : MethodFixed view q m (o.getD m) ∧
      RowsAt view (o.getD m).attributes rows' ∧ ParametersAt view (o.getD m).attributes list' := by
    obtain ⟨hNoRows, hNoList, rfl⟩ | ⟨-, m', hReplace, rfl⟩ := hCases
    · obtain rfl := hSameRows hNoRows
      obtain rfl := hSameList hNoList
      exact ⟨⟨rfl, rfl, rfl, List.forall₂_same.2 fun _ _ => ⟨rfl, .inl rfl⟩⟩,
        rowsAt_of_find hFind hRows, parametersAt_of_find hFind hList⟩
    · have hZero' := (hGrows.entry hZero).resolve_right fun h => h.1
      exact replace_spec hFind hFilled hZero' hRows hList hFixed hRenamed hParameters hSameList
        hReplace
  exact ⟨hMethod, ⟨rows', list', hRowsAt.mono hGrows, hListAt.mono hGrows,
    isNameAt_of_rowFixed hFixed, isNameAt_of_parameterFixed hParameters⟩, descriptor,
    hAdds.grows.text hDescriptor⟩

-- ---------------------------------------------------------------------------
-- The second time
-- ---------------------------------------------------------------------------

theorem yields_isFine (h : IsNameAt p i) (s : NameScope) :
    Yields ((isFine i).run s) p (true, s) p := by
  obtain ⟨name, hText, hFine⟩ := h
  rw [run_isFine]
  refine yields_bind.2 ⟨name, p, yields_reading.2 ⟨hText, rfl⟩, ?_⟩
  rw [hFine]
  exact yields_pure.2 ⟨rfl, rfl⟩

theorem yields_fixRows_fine (h : ∀ v ∈ rows, IsNameAt p v.name) (s : NameScope) :
    Yields ((fixRows rows).run s) p ((rows, []), s) p := by
  induction rows with
  | nil => exact yields_run_pure.2 ⟨⟨rfl, rfl⟩, rfl⟩
  | cons v more ih =>
    obtain ⟨hv, hMore⟩ := List.forall_mem_cons.1 h
    exact yields_run_bind.2 ⟨true, s, p, yields_isFine hv s,
      yields_run_bind.2 ⟨(more, []), s, p, ih hMore, yields_run_pure.2 ⟨⟨rfl, rfl⟩, rfl⟩⟩⟩

theorem yields_fixParameter_fine {x : MethodParameter} {place : Nat}
    (h : ∀ i, x.name = some i → IsNameAt p i) (s : NameScope) :
    Yields ((fixParameter place x).run s) p ((x, false), s) p := by
  unfold fixParameter
  split
  · rename_i name hName
    exact yields_run_bind.2 ⟨true, s, p, yields_isFine (h name hName) s,
      yields_run_pure.2 ⟨⟨rfl, rfl⟩, rfl⟩⟩
  · exact yields_run_pure.2 ⟨⟨rfl, rfl⟩, rfl⟩

theorem yields_fixParameters_fine {place : Nat}
    (h : ∀ x ∈ list, ∀ i, x.name = some i → IsNameAt p i) (s : NameScope) :
    Yields ((fixParameters place list).run s) p ((list, false), s) p := by
  induction list generalizing place with
  | nil => exact yields_run_pure.2 ⟨⟨rfl, rfl⟩, rfl⟩
  | cons x more ih =>
    obtain ⟨hx, hMore⟩ := List.forall_mem_cons.1 h
    exact yields_run_bind.2 ⟨(x, false), s, p, yields_fixParameter_fine hx s,
      yields_run_bind.2 ⟨(more, false), s, p, ih hMore, yields_run_pure.2 ⟨⟨rfl, rfl⟩, rfl⟩⟩⟩

/-- **Nothing is left to fix** in a method whose names are identifiers. -/
theorem yields_fixMethod_fine {descriptor : String} (h : NamesFine p m)
    (hDescriptor : p.text m.descriptor = .ok descriptor) : Yields (fixMethod p m) p none p := by
  obtain ⟨rows, list, hRows, hList, hFine, hFineList⟩ := h
  obtain ⟨tables, hFind, hRows, hList⟩ := exists_find hRows hList
  have hNames : ∀ i ∈ rows.map (·.name) ++ list.filterMap (·.name), IsNameAt p i := by
    intro i hi
    rcases List.mem_append.1 hi with hi | hi
    · obtain ⟨v, hv, rfl⟩ := List.mem_map.1 hi
      exact hFine v hv
    · obtain ⟨x, hx, hName⟩ := List.mem_filterMap.1 hi
      exact hFineList x hx i hName
  obtain ⟨existing, -, hExisting⟩ := Pool.exists_mapM_same (P := fun _ => True)
    (f := fun i => Pool.reading (Pool.text · i)) fun i hi =>
      let ⟨name, hText, _⟩ := hNames i hi
      ⟨name, trivial, yields_reading.2 ⟨hText, rfl⟩⟩
  refine yields_fixMethod.2 ⟨descriptor, tables, hDescriptor, hFind, ?_⟩
  exact yields_fix.2 ⟨rows, list, existing, rows, [], _, p, list, false, _, hRows, hList, hExisting,
    yields_fixRows_fine hFine _, yields_fixParameters_fine hFineList _, .inl ⟨rfl, rfl, rfl⟩⟩

end LocalNames

end Jarsmith
