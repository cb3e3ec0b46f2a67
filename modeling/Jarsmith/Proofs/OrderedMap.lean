import Jarsmith.OrderedMap
import Mathlib.Data.List.Nodup

/-!
# Entries of ordered maps

An ordered map is its list of entries: looking a key up finds its entry, and a list of entries under
distinct keys is taken over as it is.

* `get?_eq_some`, `get?_eq_none` — looking up in terms of the entries.
* `entries_ofList` — the entries of the map of a list.
* `get?_ofList_map`, `get?_ofList_map_of_unique` — looking up in a map under new keys.
* `ofList_map_back` — new keys that can be turned back.
* `get?_mapValues`, `mapValues_insert` — changing every value.
* `foldl_induction`, `foldl_independent`, `foldl_entries` — taking in the entries of a map one after
  the other.
* `entries_foldl_of_step`, `mem_keys_foldl` — a map that is filled from a list.
-/

namespace Jarsmith.OrderedMap

variable {κ α β : Type} [DecidableEq κ] {m : OrderedMap κ α} {k : κ} {a : α} {l : List (κ × α)}

theorem lookup_eq_some (hNodup : (l.map Prod.fst).Nodup) : lookup k l = some a ↔ (k, a) ∈ l := by
  induction l with
  | nil => simp [lookup]
  | cons e rest ih =>
    obtain ⟨j, b⟩ := e
    obtain ⟨hHead, hRest⟩ := List.nodup_cons.1 hNodup
    rw [lookup, List.mem_cons]
    split
    · rename_i hKey
      subst hKey
      constructor
      · rintro ⟨⟩
        exact .inl rfl
      · rintro (hEq | hMem)
        · cases hEq
          rfl
        · exact absurd (List.mem_map_of_mem hMem) hHead
    · rename_i hKey
      rw [ih hRest]
      constructor
      · exact .inr
      · rintro (hEq | hMem)
        · exact absurd (congrArg Prod.fst hEq).symm hKey
        · exact hMem

theorem get?_eq_some : m.get? k = some a ↔ (k, a) ∈ m.entries := lookup_eq_some m.nodup

theorem get?_eq_none : m.get? k = none ↔ k ∉ m.keys := by
  constructor
  · intro hNone hMem
    obtain ⟨⟨_, a⟩, hEntry, rfl⟩ := List.mem_map.1 hMem
    rw [get?_eq_some.2 hEntry] at hNone
    cases hNone
  · exact lookup_eq_none

/-- A new key is written behind the others. -/
theorem write_of_not_mem (hKey : k ∉ l.map Prod.fst) : write k a l = l ++ [(k, a)] := by
  induction l with
  | nil => rfl
  | cons e rest ih =>
    rw [List.map_cons, List.mem_cons, not_or] at hKey
    rw [write, if_neg (Ne.symm hKey.1), ih hKey.2, List.cons_append]

theorem mem_keys : k ∈ m.keys ↔ ∃ a, m.get? k = some a := by
  rw [← Option.ne_none_iff_exists', ne_eq, get?_eq_none, not_not]

omit [DecidableEq κ] in
/-- The key of an entry stands nowhere else. -/
theorem ne_of_split {before after : List (κ × α)} (hSplit : m.entries = before ++ (k, a) :: after) :
    (∀ e ∈ before, e.1 ≠ k) ∧ ∀ e ∈ after, e.1 ≠ k := by
  have hNodup := m.nodup
  rw [hSplit, List.map_append, List.map_cons, List.nodup_middle, List.nodup_cons, List.mem_append,
    not_or] at hNodup
  obtain ⟨⟨hBefore, hAfter⟩, -⟩ := hNodup
  exact ⟨fun e hMem hKey => hBefore (List.mem_map.2 ⟨e, hMem, hKey⟩),
    fun e hMem hKey => hAfter (List.mem_map.2 ⟨e, hMem, hKey⟩)⟩

/-- What comes before an entry and behind it. -/
theorem exists_split (hGet : m.get? k = some a) :
    ∃ before after, m.entries = before ++ (k, a) :: after ∧
      (∀ e ∈ before, e.1 ≠ k) ∧ ∀ e ∈ after, e.1 ≠ k := by
  obtain ⟨before, after, hSplit⟩ := List.append_of_mem (get?_eq_some.1 hGet)
  exact ⟨before, after, hSplit, ne_of_split hSplit⟩

theorem entries_insert_of_not_mem (hKey : k ∉ m.keys) :
    (m.insert k a).entries = m.entries ++ [(k, a)] :=
  write_of_not_mem hKey

theorem write_write {b : α} : write k b (write k a l) = write k b l := by
  induction l with
  | nil => simp [write]
  | cons e rest ih =>
    by_cases hKey : e.1 = k
    · simp [write, hKey]
    · simp [write, hKey, ih]

/-- Of two values for one key the later one stays. -/
theorem insert_insert {b : α} : (m.insert k a).insert k b = m.insert k b := by
  ext1
  exact write_write

theorem update_insert {fresh : α} {f : α → α} :
    (m.insert k a).update k fresh f = m.insert k (f a) := by
  rw [update, get?_insert, if_pos rfl, insert_insert, Option.getD_some]

theorem update_of_not_mem {fresh : α} {f : α → α} (hKey : k ∉ m.keys) :
    m.update k fresh f = m.insert k (f fresh) := by
  rw [update, get?_eq_none.2 hKey, Option.getD_none]

theorem get?_insert_ne_none {j : κ} :
    (m.insert k a).get? j ≠ none ↔ k = j ∨ m.get? j ≠ none := by
  rw [get?_insert]
  split
  · rename_i hKey
    exact ⟨fun _ => .inl hKey, fun _ => Option.some_ne_none a⟩
  · rename_i hKey
    exact ⟨.inr, fun h => h.resolve_left hKey⟩

theorem insert_of_get? (hGet : m.get? k = some a) : m.insert k a = m := by
  have hWrite : ∀ l : List (κ × α), lookup k l = some a → write k a l = l := by
    intro l hLookup
    induction l with
    | nil => cases hLookup
    | cons e rest ih =>
      rw [lookup] at hLookup
      rw [write]
      split
      · rename_i hKey
        rw [if_pos hKey] at hLookup
        rw [← hKey, ← Option.some.inj hLookup]
      · rename_i hKey
        rw [if_neg hKey] at hLookup
        rw [ih hLookup]
  ext1
  exact hWrite m.entries hGet

theorem erase_of_get? (hGet : m.get? k = none) : m.erase k = m := by
  have hRemove : ∀ l : List (κ × α), k ∉ l.map Prod.fst → remove k l = l := by
    intro l hKey
    induction l with
    | nil => rfl
    | cons e rest ih =>
      rw [List.map_cons, List.mem_cons, not_or] at hKey
      rw [remove, if_neg (Ne.symm hKey.1), ih hKey.2]
  ext1
  exact hRemove m.entries (get?_eq_none.1 hGet)

theorem mem_keys_insert {j : κ} : j ∈ (m.insert k a).keys ↔ j = k ∨ j ∈ m.keys := by
  rw [keys_insert]
  split
  · rename_i hKey
    exact ⟨.inr, fun h => h.elim (· ▸ hKey) id⟩
  · rw [List.mem_append, List.mem_singleton, or_comm]

/-- An entry behind a write is the new one or an old one. -/
theorem forall_entries_insert {P : κ × α → Prop} (hOld : ∀ e ∈ m.entries, P e) (hNew : P (k, a)) :
    ∀ e ∈ (m.insert k a).entries, P e := by
  have hWrite : ∀ l : List (κ × α), (∀ e ∈ l, P e) → ∀ e ∈ write k a l, P e := by
    intro l hl
    induction l with
    | nil => exact List.forall_mem_singleton.2 hNew
    | cons e rest ih =>
      obtain ⟨hFirst, hRest⟩ := List.forall_mem_cons.1 hl
      rw [write]
      split
      · exact List.forall_mem_cons.2 ⟨hNew, hRest⟩
      · exact List.forall_mem_cons.2 ⟨hFirst, ih hRest⟩
  exact hWrite m.entries hOld

theorem get?_filter {p : κ → α → Bool} :
    (m.filter p).get? k = some a ↔ m.get? k = some a ∧ p k a = true := by
  rw [get?_eq_some, get?_eq_some, filter, List.mem_filter]

theorem entries_foldl_insert (hNodup : (m.entries ++ l).map Prod.fst |>.Nodup) :
    (l.foldl (fun m (k, a) => m.insert k a) m).entries = m.entries ++ l := by
  induction l generalizing m with
  | nil => exact (List.append_nil _).symm
  | cons e rest ih =>
    have hSplit : m.entries ++ e :: rest = m.entries ++ [e] ++ rest := by
      rw [List.append_assoc, List.singleton_append]
    rw [hSplit] at hNodup ⊢
    have hKey : e.1 ∉ m.entries.map Prod.fst := by
      rw [List.map_append, List.map_append, List.append_assoc] at hNodup
      exact fun hMem => (List.nodup_append.1 hNodup).2.2 _ hMem _ (by simp) rfl
    have hEntries : (m.insert e.1 e.2).entries = m.entries ++ [e] :=
      entries_insert_of_not_mem hKey
    rw [← hEntries] at hNodup ⊢
    exact ih hNodup

/-- A list of entries under distinct keys is taken over as it is. -/
theorem entries_ofList (hNodup : (l.map Prod.fst).Nodup) : (ofList l).entries = l :=
  entries_foldl_insert (m := ∅) hNodup

-- ---------------------------------------------------------------------------
-- Changed values
-- ---------------------------------------------------------------------------

section Values

variable {f : κ → α → β}

omit [DecidableEq κ] in
@[simp] theorem keys_mapValues : (m.mapValues f).keys = m.keys := by
  rw [keys, keys, mapValues, List.map_map]
  rfl

@[simp] theorem get?_mapValues : (m.mapValues f).get? k = (m.get? k).map (f k) := by
  have hLookup : ∀ l : List (κ × α),
      lookup k (l.map fun (j, a) => (j, f j a)) = (lookup k l).map (f k) := by
    intro l
    induction l with
    | nil => rfl
    | cons e rest ih =>
      rw [List.map_cons, lookup, lookup]
      split
      · rename_i hKey
        rw [← hKey]
        rfl
      · exact ih
  exact hLookup m.entries

theorem mapValues_insert : (m.insert k a).mapValues f = (m.mapValues f).insert k (f k a) := by
  have hWrite : ∀ l : List (κ × α),
      (write k a l).map (fun (j, a) => (j, f j a)) =
        write k (f k a) (l.map fun (j, a) => (j, f j a)) := by
    intro l
    induction l with
    | nil => rfl
    | cons e rest ih =>
      rw [List.map_cons, write, write]
      split
      · rfl
      · rw [List.map_cons, ih]
  ext1
  exact hWrite m.entries

end Values

-- ---------------------------------------------------------------------------
-- Taking in entries
-- ---------------------------------------------------------------------------

section Folds

variable {σ : Type} {step : σ → κ × α → σ} {s : σ}

theorem lookup_concat {j : κ} {e : κ × α} (hKey : e.1 ∉ l.map Prod.fst) :
    lookup j (l ++ [e]) = if e.1 = j then some e.2 else lookup j l := by
  have hWrite : write e.1 e.2 l = l ++ [e] := write_of_not_mem hKey
  rw [← hWrite, lookup_write]

omit [DecidableEq κ] in
/-- Entries under distinct keys are taken in one after the other: what holds of those that are done
and the state, and survives one more entry, holds in the end. -/
theorem foldl_induction {motive : List (κ × α) → σ → Prop} (hNodup : (l.map Prod.fst).Nodup)
    (hStart : motive [] s)
    (hStep : ∀ done e t, e ∈ l → e.1 ∉ done.map Prod.fst → motive done t →
      motive (done ++ [e]) (step t e)) :
    motive l (l.foldl step s) := by
  have hRest : ∀ rest done t, done ++ rest = l → motive done t →
      motive l (rest.foldl step t) := by
    intro rest
    induction rest with
    | nil =>
      intro done t hAll hDone
      rw [← hAll, List.append_nil]
      exact hDone
    | cons e rest ih =>
      intro done t hAll hDone
      have hMem : e ∈ l := hAll ▸ List.mem_append_right done List.mem_cons_self
      have hNew : e.1 ∉ done.map Prod.fst := by
        rw [← hAll, List.map_append] at hNodup
        exact fun hOld => (List.nodup_append.1 hNodup).2.2 _ hOld _ List.mem_cons_self rfl
      refine ih (done ++ [e]) (step t e) ?_ (hStep done e t hMem hNew hDone)
      rw [List.append_assoc, List.singleton_append, hAll]
  exact hRest l [] s rfl hStart

/-- A view that only the entry of one key changes sees that entry, if there is one. -/
theorem foldl_independent (view : σ → β) (change : β → α → β) {j : κ}
    (hNodup : (l.map Prod.fst).Nodup)
    (hStep : ∀ t, ∀ e ∈ l, view (step t e) = if e.1 = j then change (view t) e.2 else view t) :
    view (l.foldl step s) = (lookup j l).elim (view s) (change (view s)) := by
  refine foldl_induction (motive := fun done t =>
    view t = (lookup j done).elim (view s) (change (view s))) hNodup rfl ?_
  intro done e t hMem hNew hView
  rw [hStep t e hMem, lookup_concat hNew]
  split
  · rename_i hKey
    rw [hView, lookup_eq_none (hKey ▸ hNew)]
    rfl
  · exact hView

omit [DecidableEq κ] in
theorem foldl_unchanged {ε : Type} {step : σ → ε → σ} {l : List ε} (view : σ → β)
    (hStep : ∀ t, ∀ e ∈ l, view (step t e) = view t) : view (l.foldl step s) = view s :=
  List.foldlRecOn (motive := fun t => view t = view s) l step rfl
    fun t hView e hMem => (hStep t e hMem).trans hView

/-- A structure over a map that takes in the entries of `m` under their own keys, with other values,
ends with the keys of `m`. -/
theorem foldl_entries (mk : OrderedMap κ β → σ) {g : κ → α → β}
    (hStep : ∀ n : OrderedMap κ β, ∀ e ∈ m.entries, e.1 ∉ n.keys →
      step (mk n) e = mk (n.insert e.1 (g e.1 e.2))) :
    m.entries.foldl step (mk ∅) = mk (m.mapValues g) := by
  have hTaken : ∃ n : OrderedMap κ β, m.entries.foldl step (mk ∅) = mk n ∧
      n.entries = m.entries.map fun e => (e.1, g e.1 e.2) := by
    refine foldl_induction (motive := fun done t => ∃ n : OrderedMap κ β, t = mk n ∧
      n.entries = done.map fun e => (e.1, g e.1 e.2)) m.nodup ⟨∅, rfl, rfl⟩ ?_
    rintro done e _ hMem hNew ⟨n, rfl, hEntries⟩
    have hAbsent : e.1 ∉ n.keys := by
      rw [keys, hEntries, List.map_map]
      exact hNew
    refine ⟨_, hStep n e hMem hAbsent, ?_⟩
    rw [entries_insert_of_not_mem hAbsent, hEntries, List.map_append, List.map_singleton]
  obtain ⟨n, hFold, hEntries⟩ := hTaken
  have hValues : n = m.mapValues g := ext hEntries
  rw [hFold, hValues]

omit [DecidableEq κ] in
/-- A map that gets one more entry behind the others with every step whose key is new. -/
theorem entries_foldl_of_step {ε : Type} {step : σ → ε → σ} {l : List ε} (view : σ → OrderedMap κ α)
    {key : ε → κ} {value : ε → α}
    (hStep : ∀ t e, key e ∉ (view t).keys →
      (view (step t e)).entries = (view t).entries ++ [(key e, value e)])
    (hNodup : ((view s).keys ++ l.map key).Nodup) :
    (view (l.foldl step s)).entries = (view s).entries ++ l.map fun e => (key e, value e) := by
  induction l generalizing s with
  | nil => exact (List.append_nil _).symm
  | cons e rest ih =>
    have hNew : key e ∉ (view s).keys := fun hMem =>
      (List.nodup_append.1 hNodup).2.2 _ hMem _ List.mem_cons_self rfl
    have hEntries := hStep s e hNew
    rw [List.foldl_cons, ih, hEntries, List.append_assoc]
    · rfl
    · rw [keys, hEntries, List.map_append, List.append_assoc]
      exact hNodup

omit [DecidableEq κ] in
/-- The keys of a map to which every step adds one. -/
theorem mem_keys_foldl {ε : Type} {step : σ → ε → σ} {l : List ε} (view : σ → OrderedMap κ α)
    {key : ε → κ}
    (hStep : ∀ t, ∀ e ∈ l, k ∈ (view (step t e)).keys ↔ k = key e ∨ k ∈ (view t).keys) :
    k ∈ (view (l.foldl step s)).keys ↔ (∃ e ∈ l, k = key e) ∨ k ∈ (view s).keys := by
  induction l generalizing s with
  | nil => simp
  | cons e rest ih =>
    have hRest := fun t other hMem => hStep t other (List.mem_cons_of_mem _ hMem)
    rw [List.foldl_cons, ih hRest, hStep s e List.mem_cons_self, List.exists_mem_cons_iff,
      or_left_comm, or_assoc]

/-- What a map holds that was filled by steps which write something or nothing. -/
theorem of_get?_foldl {ε : Type} {fill : OrderedMap κ β → ε → OrderedMap κ β} {l : List ε} {b : β}
    {P : κ → β → Prop}
    (hFill : ∀ m, ∀ e ∈ l, fill m e = m ∨ ∃ j c, P j c ∧ fill m e = m.insert j c)
    (hGet : (l.foldl fill ∅).get? k = some b) : P k b := by
  refine List.foldlRecOn (motive := fun m : OrderedMap κ β => m.get? k = some b → P k b) l _ ?_ ?_
    hGet
  · intro hEmpty
    cases hEmpty
  · intro m ih e hMem hStep
    obtain hSame | ⟨j, c, hHolds, hInsert⟩ := hFill m e hMem
    · rw [hSame] at hStep
      exact ih hStep
    · rw [hInsert, get?_insert] at hStep
      split at hStep
      · rename_i hKey
        rw [← hKey, ← Option.some.inj hStep]
        exact hHolds
      · exact ih hStep

end Folds

-- ---------------------------------------------------------------------------
-- Maps under new keys
-- ---------------------------------------------------------------------------

section Rekeyed

variable {ι : Type} {f : κ → α → ι} {g : κ → α → β}

/-- New keys are distinct if they tell the old ones apart. -/
theorem nodup_map_entries
    (hf : ∀ i a j b, m.get? i = some a → m.get? j = some b → f i a = f j b → i = j) :
    (m.entries.map fun e => f e.1 e.2).Nodup := by
  refine List.Nodup.map_on ?_ (List.Nodup.of_map Prod.fst m.nodup)
  rintro ⟨i, a⟩ hi ⟨j, b⟩ hj hEq
  have hGet := get?_eq_some.2 hi
  obtain rfl := hf i a j b hGet (get?_eq_some.2 hj) hEq
  rw [Option.some.inj (hGet.symm.trans (get?_eq_some.2 hj))]

theorem nodup_keys_map
    (hf : ∀ i a j b, m.get? i = some a → m.get? j = some b → f i a = f j b → i = j) :
    ((m.entries.map fun e => (f e.1 e.2, g e.1 e.2)).map Prod.fst).Nodup := by
  rw [List.map_map]
  exact nodup_map_entries hf

/-- What a map under new keys gives comes from an entry of the old map. -/
theorem get?_ofList_map [DecidableEq ι] {k : ι} {b : β}
    (hf : ∀ i a j b, m.get? i = some a → m.get? j = some b → f i a = f j b → i = j) :
    (ofList (m.entries.map fun e => (f e.1 e.2, g e.1 e.2))).get? k = some b ↔
      ∃ i a, m.get? i = some a ∧ f i a = k ∧ g i a = b := by
  rw [get?_eq_some, entries_ofList (nodup_keys_map hf), List.mem_map]
  constructor
  · rintro ⟨⟨i, a⟩, hMem, hEq⟩
    cases hEq
    exact ⟨i, a, get?_eq_some.2 hMem, rfl, rfl⟩
  · rintro ⟨i, a, hGet, rfl, rfl⟩
    exact ⟨(i, a), get?_eq_some.1 hGet, rfl⟩

/-- Looking up the new form of a key, if no other key has it. -/
theorem get?_ofList_map_of_unique [DecidableEq ι] {h : κ → ι}
    (hf : ∀ i a j b, m.get? i = some a → m.get? j = some b → f i a = f j b → i = j)
    (hk : ∀ i a, m.get? i = some a → (f i a = h k ↔ i = k)) :
    (ofList (m.entries.map fun e => (f e.1 e.2, g e.1 e.2))).get? (h k) =
      (m.get? k).map (g k) := by
  refine Option.ext fun b => ?_
  rw [get?_ofList_map hf, Option.map_eq_some_iff]
  constructor
  · rintro ⟨i, a, hGet, hKey, rfl⟩
    obtain rfl := (hk i a hGet).1 hKey
    exact ⟨a, hGet, rfl⟩
  · rintro ⟨a, hGet, rfl⟩
    exact ⟨k, a, hGet, (hk k a hGet).2 rfl, rfl⟩

/-- New entries under distinct keys that can be turned back give the old map back. -/
theorem ofList_map_back [DecidableEq ι] {forth : κ × α → ι × β} {back : ι × β → κ × α}
    (hNodup : ((m.entries.map forth).map Prod.fst).Nodup)
    (hBack : ∀ e ∈ m.entries, back (forth e) = e) :
    ofList ((ofList (m.entries.map forth)).entries.map back) = m := by
  have hOld : (m.entries.map forth).map back = m.entries := by
    rw [List.map_map]
    exact (List.map_congr_left hBack).trans (List.map_id _)
  ext1
  rw [entries_ofList hNodup, hOld]
  exact entries_ofList m.nodup

end Rekeyed

end Jarsmith.OrderedMap
