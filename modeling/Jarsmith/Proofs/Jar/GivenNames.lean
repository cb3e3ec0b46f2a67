import Jarsmith.Proofs.ClassFile.ParameterSlots
import Jarsmith.Proofs.Jar.FixedNames
import Mathlib.Data.List.Perm.Subperm

/-!
# Names are given out once

A method hands out names for its local variables and its parameters. All but `this` are searched
for: letters are put behind a word and a number until the name is not taken, so no name is given out
twice, and none that stays in the method.

* `NameScope.Searched`, `NameScope.run_unique` — the search, which always ends.
* `LocalNames.GivenApart` — names of places in a method that do not meet.
* `LocalNames.givenApart_named` — the names that are given out one after the other.
* `LocalNames.GivenApart.neverTwice_iff` — they never meet exactly if `this` is given out once.
* `LocalNames.fixMethod_givenApart` — they are the names behind the fix of a method.
-/

namespace Jarsmith

open Outcome
open Pool (Yields Grows yields_bind yields_pure yields_reading)

namespace NameScope

-- ---------------------------------------------------------------------------
-- The search for a name
-- ---------------------------------------------------------------------------

/-- The search for a name that is not taken: as long as a name is, a letter is put behind it. -/
inductive Searched (taken : List String) : String → String → Prop where
  | free {name : String} (hFree : name ∉ taken) : Searched taken name name
  | next {name found : String} (hTaken : name ∈ taken)
      (hMore : Searched taken (name.push 'x') found) : Searched taken name found

variable {taken : List String} {name found : String} {s : NameScope}

theorem padded_succ (name : String) (letters : Nat) :
    padded name (letters + 1) = padded (name.push 'x') letters := by
  rw [← String.toList_inj]
  simp [padded, List.replicate_succ]

theorem padded_inj {m n : Nat} (h : padded name m = padded name n) : m = n := by
  have hLength := congrArg (fun text => text.toList.length) h
  simp only [padded, String.toList_append, String.toList_ofList, List.length_append,
    List.length_replicate] at hLength
  omega

theorem Searched.not_mem (h : Searched taken name found) : found ∉ taken := by
  induction h with
  | free hFree => exact hFree
  | next _ _ ih => exact ih

theorem Searched.exists_padded (h : Searched taken name found) :
    ∃ letters, found = padded name letters := by
  induction h with
  | @free name _ => exact ⟨0, (String.append_empty).symm⟩
  | next _ _ ih =>
    obtain ⟨letters, hFound⟩ := ih
    exact ⟨letters + 1, hFound.trans (padded_succ _ letters).symm⟩

/-- The first name that is not taken is found. -/
theorem searched_of_first {letters : Nat} (hFree : padded name letters ∉ taken)
    (hTaken : ∀ n < letters, padded name n ∈ taken) :
    Searched taken name (padded name letters) := by
  induction letters generalizing name with
  | zero =>
    have hName : padded name 0 = name := String.append_empty
    rw [hName] at hFree ⊢
    exact .free hFree
  | succ letters ih =>
    have hName : name ∈ taken := by
      have h := hTaken 0 (Nat.succ_pos letters)
      rwa [show padded name 0 = name from String.append_empty] at h
    rw [padded_succ] at hFree ⊢
    refine .next hName (ih hFree fun n hn => ?_)
    rw [← padded_succ]
    exact hTaken (n + 1) (Nat.succ_lt_succ hn)

/-- Of the names with letters behind them, more than are taken, one is free. -/
theorem exists_free (taken : List String) (name : String) :
    ∃ letters, letters < taken.length + 1 ∧ padded name letters ∉ taken := by
  by_contra hNone
  push Not at hNone
  have hNodup : ((List.range (taken.length + 1)).map (padded name)).Nodup :=
    List.nodup_range.map fun _ _ h => padded_inj h
  have hSubset : (List.range (taken.length + 1)).map (padded name) ⊆ taken := by
    intro candidate hMem
    obtain ⟨letters, hLetters, rfl⟩ := List.mem_map.1 hMem
    exact hNone letters (List.mem_range.1 hLetters)
  have hLength := (hNodup.subperm hSubset).length_le
  rw [List.length_map, List.length_range] at hLength
  omega

/-- **What is given out is what the search finds**, which always ends. It is taken from then on. -/
theorem run_unique (name : String) (s : NameScope) : ∃ found, Searched s.taken name found ∧
    (unique name).run s = (found, { s with taken := found :: s.taken }) := by
  refine ⟨_, ?_, rfl⟩
  cases hFirst : (List.range (s.taken.length + 1)).find? fun letters =>
      !s.taken.contains (padded name letters) with
  | none =>
    obtain ⟨letters, hLess, hFree⟩ := exists_free s.taken name
    have hTaken := List.find?_eq_none.1 hFirst letters (List.mem_range.2 hLess)
    rw [List.contains_eq_mem, Bool.not_eq_true', decide_eq_false_iff_not] at hTaken
    exact absurd hFree hTaken
  | some letters =>
    have hFound : ((List.range (s.taken.length + 1)).map (padded name)).find? (fun n =>
        !s.taken.contains n) = some (padded name letters) := by
      rw [List.find?_map]
      exact congrArg (Option.map (padded name)) hFirst
    obtain ⟨hFree, -, hBefore⟩ := List.find?_range_eq_some.1 hFirst
    rw [hFound, Option.getD_some]
    refine searched_of_first (by simpa using hFree) fun n hn => ?_
    simpa using hBefore n hn

end NameScope

namespace LocalNames

open NameScope Descriptor FieldType

-- ---------------------------------------------------------------------------
-- Places that have names
-- ---------------------------------------------------------------------------

/-- What a name is for: the local variable in a slot, or the declared parameter at a place. -/
inductive NamePlace where
  | row (slot : UInt16)
  | parameter (place : Nat)
  deriving DecidableEq

/-- A name for a place. -/
def nameFor : NamePlace → StateM NameScope String
  | .row slot => nameForSlot slot
  | .parameter place => nameForParameter place

/-- A place with the name that it had and the one that it has. -/
structure Naming where
  place : NamePlace
  old : String
  new : String
  deriving DecidableEq

/-- The name of a place if it is an identifier, else a new one. -/
def nameOrKeep (place : NamePlace) (old : String) : StateM NameScope String :=
  if isIdentifier old then pure old else nameFor place

/-- Names for places one after the other. -/
def nameAll : List (NamePlace × String) → StateM NameScope (List Naming)
  | [] => pure []
  | (place, old) :: more => do
    let new ← nameOrKeep place old
    let others ← nameAll more
    pure (⟨place, old, new⟩ :: others)

/-- The names that the places of a method get. -/
def named (descriptor : String) (isStatic : Bool) (places : List (NamePlace × String)) :
    List Naming :=
  ((nameAll places).run (NameScope.new descriptor isStatic (places.map (·.2)))).1

variable {s t : NameScope} {place : NamePlace} {name : String} {n : Naming}

/-- What stands in front of the letters of a name: `param` and the number of the parameter that the
slot belongs to, or `var` and a number. -/
inductive Base (s : NameScope) : NamePlace → String → Prop where
  | slot {slot : UInt16} (hThis : ¬ (slot = 0 ∧ s.isStatic = false)) (hSlot : slot < s.stop) :
      Base s (.row slot) ("param" ++ toString (s.parameterAt slot))
  | local {slot : UInt16} (hThis : ¬ (slot = 0 ∧ s.isStatic = false)) (hSlot : ¬ slot < s.stop)
      (number : Nat) : Base s (.row slot) ("var" ++ toString number)
  | parameter (place : Nat) : Base s (.parameter place) ("param" ++ toString place)

/-- The local variable that holds the object of an instance method. -/
def IsReceiver (s : NameScope) (place : NamePlace) : Prop :=
  place = .row 0 ∧ s.isStatic = false

/-- A name is searched for beside all that are taken, at least. -/
def Found (s : NameScope) (place : NamePlace) (name : String) : Prop :=
  ∃ base taken, Base s place base ∧ s.taken ⊆ taken ∧ Searched taken base name

/-- How a name was chosen: it stayed, or it is `this`, or it was searched for. -/
inductive Chosen (s : NameScope) : Naming → Prop where
  | kept {place : NamePlace} {name : String} (hFine : isIdentifier name = true) :
      Chosen s ⟨place, name, name⟩
  | this {place : NamePlace} {old : String} (hBad : isIdentifier old = false)
      (hThis : IsReceiver s place) : Chosen s ⟨place, old, "this"⟩
  | found {place : NamePlace} {old name : String} (hBad : isIdentifier old = false)
      (hFound : Found s place name) : Chosen s ⟨place, old, name⟩

/-- A scope behind another one: the layout stays, and so do the names that are taken. -/
structure Follows (s t : NameScope) : Prop where
  isStatic : t.isStatic = s.isStatic
  slots : t.slots = s.slots
  stop : t.stop = s.stop
  taken : s.taken ⊆ t.taken

theorem Follows.refl (s : NameScope) : Follows s s := ⟨rfl, rfl, rfl, List.Subset.refl _⟩

theorem Follows.trans {u : NameScope} (h : Follows s t) (h' : Follows t u) : Follows s u where
  isStatic := h'.isStatic.trans h.isStatic
  slots := h'.slots.trans h.slots
  stop := h'.stop.trans h.stop
  taken := List.Subset.trans h.taken h'.taken

theorem Follows.base {base : String} (h : Follows s t) (hBase : Base t place base) :
    Base s place base := by
  cases hBase with
  | @slot slot hThis hSlot =>
    have hAt : t.parameterAt slot = s.parameterAt slot := by
      rw [parameterAt, parameterAt, h.slots]
    rw [hAt]
    exact .slot (h.isStatic ▸ hThis) (h.stop ▸ hSlot)
  | «local» hThis hSlot number => exact .local (h.isStatic ▸ hThis) (h.stop ▸ hSlot) number
  | parameter place => exact .parameter place

theorem Found.mono (h : Follows s t) (hFound : Found t place name) : Found s place name :=
  let ⟨base, taken, hBase, hTaken, hSearch⟩ := hFound
  ⟨base, taken, h.base hBase, List.Subset.trans h.taken hTaken, hSearch⟩

theorem Found.not_mem (h : Found s place name) : name ∉ s.taken :=
  let ⟨_, _, _, hTaken, hSearch⟩ := h
  fun hMem => hSearch.not_mem (hTaken hMem)

theorem Chosen.mono (h : Follows s t) (hChosen : Chosen t n) : Chosen s n := by
  cases hChosen with
  | kept hFine => exact .kept hFine
  | this hBad hThis => exact .this hBad (hThis.imp_right h.isStatic.symm.trans)
  | found hBad hFound => exact .found hBad (hFound.mono h)

/-- What a search from `base` gives out is taken from then on. -/
theorem found_unique {base : String} (hBase : Base s place base) (hFollows : Follows s t) :
    ∃ name u, (unique base).run t = (name, u) ∧ Follows s u ∧ Found s place name ∧
      name ∈ u.taken := by
  obtain ⟨name, hSearch, hRun⟩ := run_unique base t
  exact ⟨name, _, hRun,
    { hFollows with taken := List.Subset.trans hFollows.taken (List.subset_cons_self _ _) },
    ⟨base, t.taken, hBase, hFollows.taken, hSearch⟩, List.mem_cons_self⟩

/-- **What is given out at one place:** `this`, or what a search finds, which is taken from then
on. -/
theorem run_nameFor (place : NamePlace) (s : NameScope) : ∃ name t,
    (nameFor place).run s = (name, t) ∧ Follows s t ∧
      (IsReceiver s place ∧ name = "this" ∨ Found s place name ∧ name ∈ t.taken) := by
  cases place with
  | parameter place =>
    obtain ⟨name, t, hRun, hFollows, hFound⟩ := found_unique (.parameter place) (.refl s)
    exact ⟨name, t, hRun, hFollows, .inr hFound⟩
  | row slot =>
    have hName : (nameFor (.row slot)).run s = (if slot = 0 ∧ !s.isStatic then pure "this"
        else if slot < s.stop then unique ("param" ++ toString (s.parameterAt slot))
        else do
          set { s with nextLocal := s.nextLocal + 1 }
          unique ("var" ++ toString s.nextLocal) : StateM NameScope String).run s := rfl
    simp only [Bool.not_eq_true'] at hName
    rw [hName]
    split
    · rename_i hThis
      exact ⟨"this", s, rfl, .refl s, .inl ⟨⟨congrArg NamePlace.row hThis.1, hThis.2⟩, rfl⟩⟩
    · rename_i hThis
      split
      · rename_i hSlot
        obtain ⟨name, t, hRun, hFollows, hFound⟩ := found_unique (.slot hThis hSlot) (.refl s)
        exact ⟨name, t, hRun, hFollows, .inr hFound⟩
      · rename_i hSlot
        obtain ⟨name, t, hRun, hFollows, hFound⟩ :=
          found_unique (t := { s with nextLocal := s.nextLocal + 1 })
            (.local hThis hSlot s.nextLocal) ⟨rfl, rfl, rfl, List.Subset.refl _⟩
        exact ⟨name, t, hRun, hFollows, .inr hFound⟩

-- ---------------------------------------------------------------------------
-- One place after the other
-- ---------------------------------------------------------------------------

/-- Two names only meet if both stayed, or if they are `this`. -/
def Apart (a b : Naming) : Prop :=
  a.new = b.new → isIdentifier a.old = true ∧ isIdentifier b.old = true ∨ a.new = "this"

/-- One step: the first name is chosen, and meets none that is chosen behind it. -/
theorem chosen_first (place : NamePlace) (old : String) (s : NameScope)
    (hKept : isIdentifier old = true → old ∈ s.taken) : ∃ new t,
      (nameOrKeep place old).run s = (new, t) ∧ Follows s t ∧ Chosen s ⟨place, old, new⟩ ∧
      ∀ n, Chosen t n → (isIdentifier n.old = true → n.old ∈ s.taken) →
        Apart ⟨place, old, new⟩ n := by
  unfold nameOrKeep
  cases hOld : isIdentifier old with
  | true =>
    refine ⟨old, s, rfl, .refl s, .kept hOld, fun n hn _ hSame => ?_⟩
    cases hn with
    | kept hFine => exact .inl ⟨hOld, hFine⟩
    | this _ _ => exact .inr hSame
    | found _ hFound =>
      obtain rfl : old = _ := hSame
      exact absurd (hKept hOld) hFound.not_mem
  | false =>
    obtain ⟨name, t, hRun, hFollows, ⟨hThis, rfl⟩ | ⟨hFound, hTaken⟩⟩ := run_nameFor place s
    · exact ⟨"this", t, hRun, hFollows, .this hOld hThis, fun _ _ _ _ => .inr rfl⟩
    · refine ⟨name, t, hRun, hFollows, .found hOld hFound, fun n hn hLater hSame => ?_⟩
      cases hn with
      | kept hFine =>
        obtain rfl : name = _ := hSame
        exact absurd (hLater hFine) hFound.not_mem
      | this _ _ => exact .inr hSame
      | found _ hOther =>
        obtain rfl : name = _ := hSame
        exact absurd hTaken hOther.not_mem

theorem run_nameAll_cons {old new : String} {more : List (NamePlace × String)} {u : NameScope}
    {names : List Naming} (hFirst : (nameOrKeep place old).run s = (new, t))
    (hMore : (nameAll more).run t = (names, u)) :
    (nameAll ((place, old) :: more)).run s = (⟨place, old, new⟩ :: names, u) := by
  have hRun : (nameAll ((place, old) :: more)).run s =
      (⟨place, old, ((nameOrKeep place old).run s).1⟩ ::
        ((nameAll more).run ((nameOrKeep place old).run s).2).1,
        ((nameAll more).run ((nameOrKeep place old).run s).2).2) := rfl
  rw [hRun, hFirst, hMore]

/-- **Names one after the other.** Each is chosen for its place, and no two of them meet. -/
theorem nameAll_spec {places : List (NamePlace × String)} {s : NameScope}
    (hKept : ∀ x ∈ places, isIdentifier x.2 = true → x.2 ∈ s.taken) : ∃ names t,
      (nameAll places).run s = (names, t) ∧ Follows s t ∧
      names.map (fun n => (n.place, n.old)) = places ∧ (∀ n ∈ names, Chosen s n) ∧
      names.Pairwise Apart := by
  induction places generalizing s with
  | nil => exact ⟨[], s, rfl, .refl s, rfl, nofun, .nil⟩
  | cons x more ih =>
    obtain ⟨place, old⟩ := x
    obtain ⟨hOld, hMore⟩ := List.forall_mem_cons.1 hKept
    obtain ⟨new, t, hRun, hFollows, hChosen, hApart⟩ := chosen_first place old s hOld
    obtain ⟨names, u, hNames, hFollows', hPlaces, hAll, hPairs⟩ :=
      ih fun x hx hFine => hFollows.taken (hMore x hx hFine)
    refine ⟨_, u, run_nameAll_cons hRun hNames, hFollows.trans hFollows',
      by rw [List.map_cons, hPlaces], ?_, ?_⟩
    · exact List.forall_mem_cons.2 ⟨hChosen, fun n hn => (hAll n hn).mono hFollows⟩
    · refine List.pairwise_cons.2 ⟨fun n hn => hApart n (hAll n hn) fun hFine => ?_, hPairs⟩
      have hMem : (n.place, n.old) ∈ more := hPlaces ▸ List.mem_map_of_mem hn
      exact hMore _ hMem hFine

-- ---------------------------------------------------------------------------
-- Words and numbers
-- ---------------------------------------------------------------------------

variable {descriptor : String} {isStatic : Bool} {existing : List String}

/-- How a new name goes with its place: `this` for the object of an instance method, `param` and the
number of a parameter for its declaration and for the local variables that it takes, `var` and a
number for a local variable behind the parameters. The parameters have their places only as long as
they end below slot 65536. -/
structure FitsPlace (descriptor : String) (isStatic : Bool) (place : NamePlace) (name : String) :
    Prop where
  receiver : place = .row 0 → isStatic = false → name = "this"
  declared : ∀ i : Nat, place = .parameter i →
    ∃ letters, name = padded ("param" ++ toString i) letters
  within : ∀ (slot : UInt16) (t : MethodType) (i : Nat), place = .row slot →
    MethodType.parse descriptor = .ok t →
    firstSlot isStatic + totalWidth t.parameters < 65536 →
    firstSlot isStatic + totalWidth (t.parameters.take i) ≤ slot.toNat →
    slot.toNat < firstSlot isStatic + totalWidth (t.parameters.take (i + 1)) →
      ∃ letters, name = padded ("param" ++ toString i) letters
  behind : ∀ slot : UInt16, place = .row slot → (slot = 0 → isStatic = true) →
    (∀ t, MethodType.parse descriptor = .ok t →
      firstSlot isStatic + totalWidth t.parameters ≤ slot.toNat) →
      ∃ number letters : Nat, name = padded ("var" ++ toString number) letters

/-- The number of the parameter that takes a slot. -/
theorem parameterAt_eq {first : Nat} {types : List FieldType} {slot : UInt16} {i : Nat}
    (hLaid : LaidOut first types s.slots s.stop)
    (hLow : first + totalWidth (types.take i) ≤ slot.toNat)
    (hHigh : slot.toNat < first + totalWidth (types.take (i + 1))) : s.parameterAt slot = i := by
  have hLess : i < types.length := by
    by_contra hNot
    rw [List.take_of_length_le (by omega)] at hLow
    rw [List.take_of_length_le (by omega)] at hHigh
    omega
  have hPlace : i < s.slots.length := hLaid.length.symm ▸ hLess
  let numbered := s.slots.zip (List.range s.slots.length)
  have hLength : numbered.length = s.slots.length := by simp [numbered]
  have hAt : ∀ j (h : j < s.slots.length), numbered[j] = (s.slots[j], j) := fun j h => by
    simp [numbered]
  -- the slots behind that of the parameter start too late
  have hLate : ∀ e ∈ (numbered.drop (i + 1)).reverse, ¬ e.1 ≤ slot := by
    intro e he
    obtain ⟨j, hj, rfl⟩ := List.getElem_of_mem (List.mem_reverse.1 he)
    rw [List.length_drop, hLength] at hj
    have hStart := hLaid.slot (i + 1 + j) (by omega)
    rw [List.getElem_drop, hAt _ (by omega), UInt16.le_iff_toNat_le, hStart]
    rcases Nat.eq_zero_or_pos j with rfl | hPos
    · exact Nat.not_le.2 hHigh
    · have hMore : totalWidth (types.take (i + 1)) < totalWidth (types.take (i + 1 + j)) :=
        totalWidth_take_lt (Nat.lt_add_of_pos_right hPos) (by rw [← hLaid.length]; omega)
      omega
  have hFound : numbered.reverse.find? (fun e => decide (e.1 ≤ slot)) = some (s.slots[i], i) := by
    refine List.find?_eq_some_iff_append.2 ⟨?_, (numbered.drop (i + 1)).reverse,
      (numbered.take i).reverse, ?_, fun e he => by simpa using hLate e he⟩
    · rw [decide_eq_true_eq, UInt16.le_iff_toNat_le, hLaid.slot i hPlace]
      exact hLow
    · have hSplit := List.take_append_drop i numbered
      rw [List.drop_eq_getElem_cons (hLength ▸ hPlace), hAt i hPlace] at hSplit
      rw [← List.singleton_append, ← List.append_assoc, ← List.reverse_singleton,
        ← List.reverse_append, ← List.reverse_append]
      exact congrArg List.reverse hSplit.symm
  have hValue : s.parameterAt slot =
      ((numbered.reverse.find? fun e => decide (e.1 ≤ slot)).map (·.2)).getD 0 := rfl
  rw [hValue, hFound]
  rfl

/-- The layout of a scope is that of its descriptor, if the parameters have their places. -/
theorem laidOut_new {t : MethodType} (existing : List String)
    (hParse : MethodType.parse descriptor = .ok t)
    (hRoom : firstSlot isStatic + totalWidth t.parameters < 65536) :
    LaidOut (firstSlot isStatic) t.parameters (NameScope.new descriptor isStatic existing).slots
      (NameScope.new descriptor isStatic existing).stop := by
  obtain ⟨slots, stop, hLayout, -, -, -, hLaid⟩ := layout_spec hParse isStatic
  rw [NameScope.new, hLayout]
  exact hLaid.2 hRoom

/-- A slot in front of the end belongs to the object or to a parameter. -/
theorem not_behind_new {slot : UInt16}
    (hSlot : slot < (NameScope.new descriptor isStatic existing).stop)
    (hThis : slot = 0 → isStatic = true)
    (hBehind : ∀ t, MethodType.parse descriptor = .ok t →
      firstSlot isStatic + totalWidth t.parameters ≤ slot.toNat) : False := by
  cases hParse : MethodType.parse descriptor with
  | ok t =>
    have hLow := hBehind t hParse
    have hRoom := Nat.lt_of_le_of_lt hLow slot.toNat_lt
    rw [UInt16.lt_iff_toNat_lt, (laidOut_new existing hParse hRoom).ends] at hSlot
    omega
  | error fault =>
    have hLayout : layout descriptor isStatic = .error fault := by rw [layout, hParse]; rfl
    rw [NameScope.new, hLayout, UInt16.lt_iff_toNat_lt] at hSlot
    cases isStatic with
    | true => exact absurd hSlot (Nat.not_lt_zero _)
    | false =>
      have hZero : slot = 0 := UInt16.toNat_inj.1 (Nat.lt_one_iff.1 hSlot)
      cases hThis hZero

/-- A new name goes with its place. -/
theorem fitsPlace_of_chosen (h : Chosen (NameScope.new descriptor isStatic existing) n)
    (hOld : isIdentifier n.old = false) : FitsPlace descriptor isStatic n.place n.new := by
  cases h with
  | kept hFine =>
    rw [hOld] at hFine
    cases hFine
  | this _ hThis =>
    obtain ⟨rfl, hInstance⟩ := hThis
    obtain rfl : isStatic = false := hInstance
    refine ⟨fun _ _ => rfl, nofun, fun slot t i hPlace _ _ hLow => ?_, fun slot hPlace hZero => ?_⟩
    · obtain rfl := NamePlace.row.inj hPlace
      exact absurd (Nat.le_of_add_right_le hLow) (by decide)
    · obtain rfl := NamePlace.row.inj hPlace
      cases hZero rfl
  | found _ hFound =>
    obtain ⟨base, taken, hBase, -, hSearch⟩ := hFound
    obtain ⟨letters, rfl⟩ := hSearch.exists_padded
    cases hBase with
    | parameter place =>
      refine ⟨nofun, fun i hPlace => ?_, nofun, nofun⟩
      obtain rfl := NamePlace.parameter.inj hPlace
      exact ⟨letters, rfl⟩
    | slot hThis hSlot =>
      refine ⟨fun hPlace hInstance => ?_, nofun, fun slot t i hPlace hParse hRoom hLow hHigh => ?_,
        fun slot hPlace hZero hBehind => ?_⟩
      · exact absurd ⟨NamePlace.row.inj hPlace, hInstance⟩ hThis
      · obtain rfl := NamePlace.row.inj hPlace
        rw [parameterAt_eq (laidOut_new existing hParse hRoom) hLow hHigh]
        exact ⟨letters, rfl⟩
      · obtain rfl := NamePlace.row.inj hPlace
        exact (not_behind_new hSlot hZero hBehind).elim
    | «local» hThis hSlot number =>
      refine ⟨fun hPlace hInstance => ?_, nofun, fun slot t i hPlace hParse hRoom hLow hHigh => ?_,
        fun _ _ _ _ => ⟨number, letters, rfl⟩⟩
      · exact absurd ⟨NamePlace.row.inj hPlace, hInstance⟩ hThis
      · obtain rfl := NamePlace.row.inj hPlace
        have hEnds := (laidOut_new existing hParse hRoom).ends
        rw [UInt16.lt_iff_toNat_lt, hEnds] at hSlot
        have hAll := totalWidth_take_le t.parameters (i + 1)
        omega

/-- Names of places in one method. Those that were identifiers stay. Any other one goes with its
place. It is `this`, for the object of an instance method only, or what the search finds beside all
names that stay. No two names meet but such that stay and `this`. -/
structure GivenApart (descriptor : String) (isStatic : Bool) (names : List Naming) : Prop where
  kept : ∀ n ∈ names, isIdentifier n.old = true → n.new = n.old
  fits : ∀ n ∈ names, isIdentifier n.old = false → FitsPlace descriptor isStatic n.place n.new
  searched : ∀ n ∈ names, isIdentifier n.old = false →
    n.new = "this" ∧ n.place = .row 0 ∧ isStatic = false ∨
      n.new ≠ "this" ∧ ∃ base taken, Searched taken base n.new ∧
        ∀ k ∈ names, isIdentifier k.old = true → k.old ∈ taken
  apart : names.Pairwise Apart

theorem Found.ne_this (h : Found s place name) : name ≠ "this" := by
  obtain ⟨base, taken, hBase, -, hSearch⟩ := h
  obtain ⟨letters, rfl⟩ := hSearch.exists_padded
  intro hThis
  have hHead := congrArg (fun text : String => text.toList.head?) hThis
  cases hBase <;> simp [padded] at hHead

/-- **The names that are given out in one method,** in whatever order its places come. -/
theorem givenApart_named (descriptor : String) (isStatic : Bool)
    (places : List (NamePlace × String)) :
    (named descriptor isStatic places).map (fun n => (n.place, n.old)) = places ∧
      GivenApart descriptor isStatic (named descriptor isStatic places) := by
  obtain ⟨names, t, hRun, -, hPlaces, hChosen, hApart⟩ :=
    nameAll_spec (s := NameScope.new descriptor isStatic (places.map (·.2))) fun x hx hFine =>
      List.mem_filter.2 ⟨List.mem_map_of_mem hx, hFine⟩
  have hNamed : named descriptor isStatic places = names := by rw [named, hRun]
  rw [hNamed]
  refine ⟨hPlaces, fun n hn hFine => ?_, fun n hn => fitsPlace_of_chosen (hChosen n hn),
    fun n hn hBad => ?_, hApart⟩
  · cases hChosen n hn with
    | kept _ => rfl
    | this hBad | found hBad =>
      rw [show isIdentifier _ = true from hFine] at hBad
      cases hBad
  · cases hChosen n hn with
    | kept hFine =>
      rw [show isIdentifier _ = false from hBad] at hFine
      cases hFine
    | this _ hThis => exact .inl ⟨rfl, hThis⟩
    | found _ hFound =>
      obtain ⟨base, taken, -, hTaken, hSearch⟩ := id hFound
      refine .inr ⟨hFound.ne_this, base, taken, hSearch, fun k hk hFine => hTaken ?_⟩
      have hPlace : (k.place, k.old) ∈ places := hPlaces ▸ List.mem_map_of_mem hk
      exact List.mem_filter.2 ⟨List.mem_map_of_mem hPlace, hFine⟩

-- ---------------------------------------------------------------------------
-- Names that are given out twice
-- ---------------------------------------------------------------------------

/-- The place and the old name. -/
def Naming.before (n : Naming) : NamePlace × String := (n.place, n.old)

/-- The place and the new name. -/
def Naming.after (n : Naming) : NamePlace × String := (n.place, n.new)

variable {names : List Naming}

/-- The name of a place has to be given out, and the place holds the object of an instance method. -/
def isUnnamedReceiver (isStatic : Bool) (x : NamePlace × String) : Bool :=
  !isIdentifier x.2 && (!isStatic && x.1 == .row 0)

/-- The name `this` has to be given out once at most, and not if a name is `this` already. -/
structure ThisOnce (isStatic : Bool) (asked : List (NamePlace × String)) : Prop where
  once : asked.countP (isUnnamedReceiver isStatic) ≤ 1
  unused : 0 < asked.countP (isUnnamedReceiver isStatic) → ∀ x ∈ asked, x.2 ≠ "this"

/-- No name is given out twice, and none that stays. -/
structure NeverTwice (names : List Naming) : Prop where
  distinct : ((names.filter fun n => !isIdentifier n.old).map (·.new)).Nodup
  unused : ∀ n ∈ names, isIdentifier n.old = false →
    ∀ k ∈ names, isIdentifier k.old = true → n.new ≠ k.new

/-- If names meet at one value only, none of them meet exactly if at most one has this value. -/
theorem nodup_map_iff_countP_le {α β : Type} [DecidableEq β] {f : α → β} {b : β} {l : List α}
    (hMeet : l.Pairwise fun x y => f x = f y → f x = b) :
    (l.map f).Nodup ↔ l.countP (fun x => f x = b) ≤ 1 := by
  induction l with
  | nil => exact ⟨fun _ => Nat.zero_le 1, fun _ => List.nodup_nil⟩
  | cons x more ih =>
    obtain ⟨hFirst, hMore⟩ := List.pairwise_cons.1 hMeet
    have hMem : f x ∈ more.map f ↔ f x = b ∧ 0 < more.countP (fun y => f y = b) := by
      rw [List.mem_map, List.countP_pos_iff]
      constructor
      · rintro ⟨y, hy, hSame⟩
        have hb := hFirst y hy hSame.symm
        exact ⟨hb, y, hy, decide_eq_true (hSame.trans hb)⟩
      · rintro ⟨hb, y, hy, hSame⟩
        exact ⟨y, hy, (of_decide_eq_true hSame).trans hb.symm⟩
    rw [List.map_cons, List.nodup_cons, hMem, ih hMore, List.countP_cons]
    by_cases hb : f x = b
    · simp only [hb, true_and, decide_true, if_true]
      omega
    · simp [hb]

theorem GivenApart.new_eq_this {n : Naming} (h : GivenApart descriptor isStatic names)
    (hn : n ∈ names) (hBad : isIdentifier n.old = false) :
    n.new = "this" ↔ isUnnamedReceiver isStatic (n.place, n.old) = true := by
  have hReceiver : isUnnamedReceiver isStatic (n.place, n.old) = true ↔
      isStatic = false ∧ n.place = .row 0 := by
    simp [isUnnamedReceiver, hBad]
  rw [hReceiver]
  constructor
  · intro hThis
    obtain ⟨-, hPlace, hInstance⟩ | ⟨hOther, -⟩ := h.searched n hn hBad
    · exact ⟨hInstance, hPlace⟩
    · exact absurd hThis hOther
  · rintro ⟨hInstance, hPlace⟩
    exact (h.fits n hn hBad).receiver hPlace hInstance

/-- **The names given out never meet exactly if `this` is given out once.** -/
theorem GivenApart.neverTwice_iff (h : GivenApart descriptor isStatic names) :
    NeverTwice names ↔ ThisOnce isStatic (names.map Naming.before) := by
  have hCount : (names.map Naming.before).countP (isUnnamedReceiver isStatic) =
      (names.filter fun n => !isIdentifier n.old).countP fun n => n.new = "this" := by
    rw [List.countP_map, List.countP_filter]
    refine List.countP_congr fun n hn => ?_
    cases hOld : isIdentifier n.old with
    | true => simp [Naming.before, isUnnamedReceiver, hOld]
    | false =>
      have hThis := h.new_eq_this hn hOld
      simp [Naming.before, hThis]
  have hPairs : (names.filter fun n => !isIdentifier n.old).Pairwise fun a b =>
      a.new = b.new → a.new = "this" := by
    refine (List.pairwise_filter.2 (h.apart.imp fun hApart ha _ hSame => ?_))
    obtain ⟨hFine, -⟩ | hThis := hApart hSame
    · rw [hFine] at ha
      cases ha
    · exact hThis
  have hDistinct := nodup_map_iff_countP_le hPairs
  rw [← hCount] at hDistinct
  constructor
  · rintro ⟨hOnce, hUnused⟩
    refine ⟨hDistinct.1 hOnce, fun hSome x hx hThis => ?_⟩
    rw [hCount, List.countP_pos_iff] at hSome
    obtain ⟨n, hn, hNew⟩ := hSome
    obtain ⟨hn, hBad⟩ := List.mem_filter.1 hn
    obtain ⟨k, hk, rfl⟩ := List.mem_map.1 hx
    have hFine : isIdentifier k.old = true := by
      rw [show k.old = "this" from hThis]
      decide +kernel
    refine hUnused n hn (by simpa using hBad) k hk hFine ?_
    rw [of_decide_eq_true hNew, h.kept k hk hFine]
    exact hThis.symm
  · rintro ⟨hOnce, hUnused⟩
    refine ⟨hDistinct.2 hOnce, fun n hn hBad k hk hFine hSame => ?_⟩
    rw [h.kept k hk hFine] at hSame
    obtain ⟨hThis, -⟩ | ⟨-, base, taken, hSearch, hTaken⟩ := h.searched n hn hBad
    · refine hUnused ?_ _ (List.mem_map_of_mem hk) (hSame.symm.trans hThis)
      exact List.countP_pos_iff.2
        ⟨_, List.mem_map_of_mem hn, (h.new_eq_this hn hBad).1 hThis⟩
    · exact hSearch.not_mem (hSame ▸ hTaken k hk hFine)
-- ---------------------------------------------------------------------------
-- The names of a method
-- ---------------------------------------------------------------------------

variable {p q : Pool} {places : List (NamePlace × UInt16)}

/-- The places of rows, with the indices of their names. -/
def rowPlaces (rows : List LocalVariable) : List (NamePlace × UInt16) :=
  rows.map fun v => (.row v.slot, v.name)

/-- The places of declared parameters that have names, with the indices of these; the first
parameter has the given place. -/
def parameterPlaces (place : Nat) : List MethodParameter → List (NamePlace × UInt16)
  | [] => []
  | x :: more =>
    (x.name.map fun name => (.parameter place, name)).toList ++ parameterPlaces (place + 1) more

/-- The names of places are read in a pool. -/
def Reads (pool : Pool) : List (NamePlace × UInt16) → List (NamePlace × String) → Prop :=
  List.Forall₂ fun x y => y.1 = x.1 ∧ pool.text x.2 = .ok y.2

theorem Reads.mono {texts : List (NamePlace × String)} (h : Reads p places texts)
    (hGrows : p.Grows q) : Reads q places texts :=
  List.Forall₂.imp (fun _ _ h => ⟨h.1, hGrows.text h.2⟩) h

theorem Reads.eq {texts texts' : List (NamePlace × String)} (h : Reads p places texts)
    (h' : Reads p places texts') : texts = texts' := by
  induction h generalizing texts' with
  | nil => exact (List.forall₂_nil_left_iff.1 h').symm
  | @cons x y _ _ hFirst _ ih =>
    obtain ⟨y', others, hFirst', hMore, rfl⟩ := List.forall₂_cons_left_iff.1 h'
    have hText := Except.ok.inj (hFirst.2.symm.trans hFirst'.2)
    rw [ih hMore, Prod.ext (hFirst.1.trans hFirst'.1.symm) hText]

theorem map_parameterPlaces (place : Nat) (list : List MethodParameter) :
    (parameterPlaces place list).map (·.2) = list.filterMap (·.name) := by
  induction list generalizing place with
  | nil => rfl
  | cons x more ih =>
    rw [parameterPlaces, List.map_append, ih, List.filterMap_cons]
    cases x.name <;> rfl

/-- What is given out stands at the index that comes back. -/
theorem text_of_fresh {word : StateM NameScope String} {j : UInt16} (hp : p.Sound)
    (h : Yields ((fresh word).run s) p (j, t) q) :
    q.Sound ∧ p.Grows q ∧ ∃ name, q.text j = .ok name ∧ word.run s = (name, t) := by
  have hRun : Yields (Pool.internText (word.run s).1 >>= fun index => pure (index, (word.run s).2))
      p (j, t) q := h
  obtain ⟨index, _, hIntern, hRun⟩ := yields_bind.1 hRun
  obtain ⟨hEq, rfl⟩ := yields_pure.1 hRun
  obtain ⟨rfl, rfl⟩ := Prod.mk.inj hEq
  obtain ⟨hq, hGrows, hText⟩ := Pool.internText_spec hp hIntern
  exact ⟨hq, hGrows, _, hText, rfl⟩

/-- The names behind a run are those of `nameAll`. Old names are read where the new ones are. -/
structure NamesRun (q : Pool) (s t : NameScope) (places places' : List (NamePlace × UInt16))
    (names : List Naming) : Prop where
  before : Reads q places (names.map Naming.before)
  after : Reads q places' (names.map Naming.after)
  run : (nameAll (names.map Naming.before)).run s = (names, t)

/-- A first place, whose names are read by then. -/
theorem NamesRun.cons {u : NameScope} {more more' : List (NamePlace × UInt16)} {i j : UInt16}
    {old new : String} (h : NamesRun q t u more more' names) (hOld : q.text i = .ok old)
    (hNew : q.text j = .ok new) (hRun : (nameOrKeep place old).run s = (new, t)) :
    NamesRun q s u ((place, i) :: more) ((place, j) :: more') (⟨place, old, new⟩ :: names) where
  before := .cons ⟨rfl, hOld⟩ h.before
  after := .cons ⟨rfl, hNew⟩ h.after
  run := run_nameAll_cons hRun h.run

theorem nameOrKeep_of_fine {old : String} (hFine : isIdentifier old = true) (s : NameScope) :
    (nameOrKeep place old).run s = (old, s) := by
  rw [nameOrKeep, if_pos hFine]
  rfl

theorem nameOrKeep_of_not {old : String} (hBad : isIdentifier old = false) :
    nameOrKeep place old = nameFor place := by
  rw [nameOrKeep, hBad, if_neg Bool.false_ne_true]

/-- **The rows get the names that are given out.** -/
theorem fixRows_names : ∀ {rows rows' : List LocalVariable} {renamed : Renamed} {s t : NameScope}
    {p q : Pool}, p.Sound → Yields ((fixRows rows).run s) p ((rows', renamed), t) q →
      q.Sound ∧ p.Grows q ∧ ∃ names, NamesRun q s t (rowPlaces rows) (rowPlaces rows') names
  | [], rows', renamed, s, t, p, q, hp, h => by
    obtain ⟨⟨hEq, rfl⟩, rfl⟩ := yields_run_pure.1 h
    obtain ⟨rfl, rfl⟩ := Prod.mk.inj hEq
    exact ⟨hp, .refl, [], .nil, .nil, rfl⟩
  | v :: more, rows', renamed, s, t, p, q, hp, h => by
    obtain ⟨old, more', hOld, ⟨hIsFine, rfl, hMore⟩ |
      ⟨hBad, index, renamed', u, p₁, hFresh, hMore, rfl, rfl⟩⟩ := fixRows_cons h
    · obtain ⟨hq, hGrows, names, hNames⟩ := fixRows_names hp hMore
      have hText := hGrows.text hOld
      exact ⟨hq, hGrows, _, hNames.cons hText hText (nameOrKeep_of_fine hIsFine s)⟩
    · obtain ⟨hp₁, hGrows₁, name, hName, hRun⟩ := text_of_fresh hp hFresh
      obtain ⟨hq, hGrows₂, names, hNames⟩ := fixRows_names hp₁ hMore
      have hStep : (nameOrKeep (.row v.slot) old).run s = (name, u) := by
        rw [nameOrKeep_of_not hBad]
        exact hRun
      have hGrows := hGrows₁.trans_same hGrows₂
      exact ⟨hq, hGrows, _, hNames.cons (hGrows.text hOld) (hGrows₂.text hName) hStep⟩

/-- A declared parameter gets the name that is given out, if it has one. -/
theorem fixParameter_names {x x' : MethodParameter} {changed : Bool} {number : Nat} (hp : p.Sound)
    (h : Yields ((fixParameter number x).run s) p ((x', changed), t) q) :
    q.Sound ∧ p.Grows q ∧ (x.name = none ∧ x'.name = none ∧ s = t ∨
      ∃ i j old new, x.name = some i ∧ x'.name = some j ∧ q.text i = .ok old ∧
        q.text j = .ok new ∧ (nameOrKeep (.parameter number) old).run s = (new, t)) := by
  obtain ⟨⟨rfl, rfl, rfl, rfl⟩, hFine⟩ | ⟨-, i, j, old, hName, hOld, hBad, rfl, hFresh⟩ :=
    fixParameter_cases h
  · refine ⟨hp, .refl, ?_⟩
    cases hName : x'.name with
    | none => exact .inl ⟨rfl, rfl, rfl⟩
    | some i =>
      obtain ⟨old, hOld, hIsFine⟩ := hFine i hName
      exact .inr ⟨i, i, old, old, rfl, rfl, hOld, hOld, nameOrKeep_of_fine hIsFine s⟩
  · obtain ⟨hq, hGrows, new, hNew, hRun⟩ := text_of_fresh hp hFresh
    refine ⟨hq, hGrows, .inr ⟨i, j, old, new, hName, rfl, hGrows.text hOld, hNew, ?_⟩⟩
    rw [nameOrKeep_of_not hBad]
    exact hRun

/-- **The declared parameters get the names that are given out.** -/
theorem fixParameters_names : ∀ {number : Nat} {list list' : List MethodParameter} {changed : Bool}
    {s t : NameScope} {p q : Pool}, p.Sound →
      Yields ((fixParameters number list).run s) p ((list', changed), t) q →
        q.Sound ∧ p.Grows q ∧ ∃ names,
          NamesRun q s t (parameterPlaces number list) (parameterPlaces number list') names
  | number, [], list', changed, s, t, p, q, hp, h => by
    obtain ⟨⟨hEq, rfl⟩, rfl⟩ := yields_run_pure.1 h
    obtain ⟨rfl, rfl⟩ := Prod.mk.inj hEq
    exact ⟨hp, .refl, [], .nil, .nil, rfl⟩
  | number, x :: more, list', changed, s, t, p, q, hp, h => by
    obtain ⟨⟨x', first⟩, s₁, p₁, hFirst, h⟩ := yields_run_bind.1 h
    obtain ⟨⟨more', others⟩, s₂, p₂, hMore, h⟩ := yields_run_bind.1 h
    obtain ⟨⟨hEq, rfl⟩, rfl⟩ := yields_run_pure.1 h
    obtain ⟨rfl, rfl⟩ := Prod.mk.inj hEq
    obtain ⟨hp₁, hGrows₁, hx⟩ := fixParameter_names hp hFirst
    obtain ⟨hq, hGrows₂, names, hNames⟩ := fixParameters_names hp₁ hMore
    refine ⟨hq, hGrows₁.trans_same hGrows₂, ?_⟩
    rw [parameterPlaces, parameterPlaces]
    obtain ⟨hNone, hNone', rfl⟩ | ⟨i, j, old, new, hi, hj, hOld, hNew, hRun⟩ := hx
    · rw [hNone, hNone']
      exact ⟨names, hNames⟩
    · rw [hi, hj]
      exact ⟨_, hNames.cons (hGrows₂.text hOld) (hGrows₂.text hNew) hRun⟩

/-- One run behind another one. -/
theorem run_nameAll_append (first more : List (NamePlace × String)) (s : NameScope) :
    (nameAll (first ++ more)).run s =
      (((nameAll first).run s).1 ++ ((nameAll more).run ((nameAll first).run s).2).1,
        ((nameAll more).run ((nameAll first).run s).2).2) := by
  induction first generalizing s with
  | nil => rfl
  | cons x rest ih =>
    obtain ⟨place, old⟩ := x
    exact run_nameAll_cons rfl (ih _)

theorem NamesRun.append {p₁ : Pool} {u : NameScope} {places' more more' : List (NamePlace × UInt16)}
    {others : List Naming} (h : NamesRun p₁ s t places places' names) (hGrows : p₁.Grows q)
    (hMore : NamesRun q t u more more' others) :
    NamesRun q s u (places ++ more) (places' ++ more') (names ++ others) where
  before := by
    rw [List.map_append]
    exact List.rel_append (h.before.mono hGrows) hMore.before
  after := by
    rw [List.map_append]
    exact List.rel_append (h.after.mono hGrows) hMore.after
  run := by
    rw [List.map_append, run_nameAll_append, h.run, hMore.run]

/-- Names that were read one by one. -/
theorem reads_zip {existing : List String}
    (h : List.Forall₂ (fun i text => p.text i = .ok text) (places.map (·.2)) existing) :
    Reads p places ((places.map (·.1)).zip existing) := by
  induction places generalizing existing with
  | nil => exact .nil
  | cons x more ih =>
    obtain ⟨text, others, hText, hMore, rfl⟩ := List.forall₂_cons_left_iff.1 h
    exact .cons ⟨rfl, hText⟩ (ih hMore)

variable {view : Pool} {m : Member}

/-- **The names of a method behind the fix** are those that are given out for its rows and then for
its declared parameters, and they are what is written. -/
theorem names_of_fixMethod {o : Option Member} (hp : p.Intact)
    (h : Yields (fixMethod view m) p o q) : ∃ descriptor tables rows list rows' list' asked,
      p.text m.descriptor = .ok descriptor ∧ NameTables.find view m = .ok tables ∧
      rowsOf tables.plain = .ok rows ∧ parametersOf tables.parameters = .ok list ∧
      Reads p (rowPlaces rows ++ parameterPlaces 0 list) asked ∧
      Reads q (rowPlaces rows' ++ parameterPlaces 0 list')
        ((named descriptor (m.access.has AccessFlags.staticBit) asked).map Naming.after) ∧
      (o = none ∧ rows' = rows ∧ list' = list ∨ ∃ m' renamed parameters, o = some m' ∧
        tables.replace m rows' renamed parameters = .ok m' ∧
        (parameters = some list' ∨ parameters = none ∧ list' = list)) := by
  obtain ⟨descriptor, tables, hDescriptor, hFind, hFix⟩ := yields_fixMethod.1 h
  obtain ⟨rows, list, existing, rows', renamed, s, p₁, list', changed, t, hRows, hList, hExisting,
    hFixRows, hFixList, hCases⟩ := yields_fix.1 hFix
  obtain ⟨hp₁, -, -, -, hSameRows⟩ := fixRows_spec hp hFixRows
  obtain ⟨-, -, -, hSameList⟩ := fixParameters_spec hp₁ hFixList
  obtain ⟨-, hGrows₁, first, hFirst⟩ := fixRows_names hp.sound hFixRows
  obtain ⟨-, hGrows₂, others, hOthers⟩ := fixParameters_names hp₁.sound hFixList
  have hAll := hFirst.append hGrows₂ hOthers
  -- the old names were read before any was given out
  have hTexts : List.Forall₂ (fun i text => p.text i = .ok text)
      ((rowPlaces rows ++ parameterPlaces 0 list).map (·.2)) existing := by
    rw [List.map_append, map_parameterPlaces, rowPlaces, List.map_map]
    exact (Pool.forall₂_of_mapM_same (I := (· = p)) (P := fun _ => True)
      (R := fun q i text => q.text i = .ok text) (fun _ _ _ _ hGrows h => hGrows.text h)
      (fun i q text r hq _ hRun => by
        obtain ⟨hText, rfl⟩ := yields_reading.1 hRun
        exact ⟨hq, .refl, hText⟩)
      (fun _ _ => trivial) rfl hExisting).2.2
  have hReads := reads_zip hTexts
  have hBefore := (hReads.mono (hGrows₁.trans_same hGrows₂)).eq hAll.before
  have hSnd : ((first ++ others).map Naming.before).map (·.2) = existing := by
    rw [← hBefore, List.map_snd_zip]
    rw [List.length_map, ← hTexts.length_eq, List.length_map]
  have hNamed : named descriptor (m.access.has AccessFlags.staticBit)
      ((first ++ others).map Naming.before) = first ++ others := by
    rw [named, hSnd, hAll.run]
  refine ⟨descriptor, tables, rows, list, rows', list', _, hDescriptor, hFind, hRows, hList,
    hBefore ▸ hReads, hNamed.symm ▸ hAll.after, ?_⟩
  obtain ⟨hNoRows, hNoList, rfl⟩ | ⟨-, m', hReplace, rfl⟩ := hCases
  · exact .inl ⟨rfl, hSameRows hNoRows, hSameList hNoList⟩
  · refine .inr ⟨m', renamed, _, rfl, hReplace, ?_⟩
    cases changed with
    | true => exact .inl rfl
    | false => exact .inr ⟨rfl, hSameList rfl⟩

/-- **No name is given out twice in a method,** but `this`. A search for a name always ends with one
that is not taken. Whatever places ask for names, in whatever order, the names that they get are
apart from each other and from those that stay, exactly if `this` is given out once; and the names of
a method behind the fix are such names. -/
theorem fixMethod_givenApart (view p q : Pool) (m : Member) (o : Option Member) :
    (∀ (name : String) (s : NameScope), ∃ found, Searched s.taken name found ∧
      (unique name).run s = (found, { s with taken := found :: s.taken })) ∧
    (∀ (descriptor : String) (isStatic : Bool) (asked : List (NamePlace × String)),
      (named descriptor isStatic asked).map Naming.before = asked ∧
        GivenApart descriptor isStatic (named descriptor isStatic asked) ∧
        (NeverTwice (named descriptor isStatic asked) ↔ ThisOnce isStatic asked)) ∧
    (p.Intact → Yields (fixMethod view m) p o q → ∃ descriptor tables rows list rows' list' asked,
      p.text m.descriptor = .ok descriptor ∧ NameTables.find view m = .ok tables ∧
      rowsOf tables.plain = .ok rows ∧ parametersOf tables.parameters = .ok list ∧
      Reads p (rowPlaces rows ++ parameterPlaces 0 list) asked ∧
      Reads q (rowPlaces rows' ++ parameterPlaces 0 list')
        ((named descriptor (m.access.has AccessFlags.staticBit) asked).map Naming.after) ∧
      (o = none ∧ rows' = rows ∧ list' = list ∨ ∃ m' renamed parameters, o = some m' ∧
        tables.replace m rows' renamed parameters = .ok m' ∧
        (parameters = some list' ∨ parameters = none ∧ list' = list))) := by
  refine ⟨run_unique, fun descriptor isStatic asked => ?_, names_of_fixMethod⟩
  obtain ⟨hBefore, hApart⟩ := givenApart_named descriptor isStatic asked
  have hNever := hApart.neverTwice_iff
  rw [show (named descriptor isStatic asked).map Naming.before = asked from hBefore] at hNever
  exact ⟨hBefore, hApart, hNever⟩

/-- Numbers go on behind names that stay, and letters behind numbers that are taken. -/
example : (named "(JI)V" true [(.row 1, "1"), (.row 2, ""), (.row 2, "param1x"), (.row 3, "-"),
      (.row 3, "var1"), (.row 4, "0"), (.parameter 0, "+"), (.parameter 1, "2")]).map (·.new) =
    ["param0", "param1", "param1x", "var0", "var1", "var1x", "param0x", "param1xx"] := by
  decide +kernel

open Transformer in
set_option maxRecDepth 4096 in
/-- The one row of an instance method in slot 0 gets the name `this`. -/
theorem fixMethod_givenApart_numbered : (numbered []).pool.Intact ∧
    Yields (fixMethod (numbered []).pool (numberedMethod [6])) (numbered []).pool
      (some (numberedMethod [7])) numberedPool ∧
    ∃ rows' list', Reads numberedPool (rowPlaces rows' ++ parameterPlaces 0 list')
        [(.row 0, "this")] ∧ ∃ tables renamed parameters,
      NameTables.find (numbered []).pool (numberedMethod [6]) = .ok tables ∧
      tables.replace (numberedMethod [6]) rows' renamed parameters = .ok (numberedMethod [7]) := by
  have hParse : ClassFile.parse (numberedEntry [6]).data = .ok (numbered [6]) := by rfl
  have hIntact := ClassFile.intact_parse hParse
  have hRun : Yields (fixMethod (numbered []).pool (numberedMethod [6])) (numbered []).pool
      (some (numberedMethod [7])) numberedPool := yields_fixMethod_numbered (.inl rfl)
  refine ⟨hIntact, hRun, ?_⟩
  obtain ⟨descriptor, tables, rows, list, rows', list', asked, hDescriptor, hFind, hRows, hList,
    hBefore, hAfter, hNone | ⟨m', renamed, parameters, hSome, hReplace, -⟩⟩ :=
    (fixMethod_givenApart _ _ _ _ _).2.2 hIntact hRun
  · cases hNone.1
  obtain ⟨_, hFound, hRow, hNoParameter⟩ : ∃ tables,
      NameTables.find (numbered []).pool (numberedMethod [6]) = .ok tables ∧
        rowsOf tables.plain = .ok [⟨0, 1, 6, 1, 0⟩] ∧ parametersOf tables.parameters = .ok [] :=
    ⟨_, rfl, rfl, rfl⟩
  obtain rfl := Except.ok.inj (hFind.symm.trans hFound)
  obtain rfl := Except.ok.inj (hRows.symm.trans hRow)
  obtain rfl := Except.ok.inj (hList.symm.trans hNoParameter)
  obtain rfl : descriptor = "()V" := (Except.ok.inj hDescriptor).symm
  obtain rfl : asked = [(.row 0, "1")] := hBefore.eq (.cons ⟨rfl, rfl⟩ .nil)
  have hNames : (named "()V" false [(.row 0, "1")]).map Naming.after = [(.row 0, "this")] := by
    decide +kernel
  obtain rfl := Option.some.inj hSome
  exact ⟨rows', list', hNames ▸ hAfter, tables, renamed, parameters, hFind, hReplace⟩

/-- Two local variables in slot 0 of an instance method are both called `this`. -/
theorem not_neverTwice_twoReceivers :
    ¬ NeverTwice (named "()V" false [(.row 0, "1"), (.row 0, "2")]) := by
  intro hNever
  have hBoth : ¬ (((named "()V" false [(.row 0, "1"), (.row 0, "2")]).filter fun n =>
      !isIdentifier n.old).map (·.new)).Nodup := by decide +kernel
  exact hBoth hNever.distinct

end LocalNames

end Jarsmith
