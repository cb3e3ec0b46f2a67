/-!
# Ordered maps

A finite map that keeps its keys in the order in which they first came in. Replacing the value of a
key leaves the key at its place; a key that was erased and comes back stands last.

Main statements:

* `keys_insert` — a write keeps the keys, or appends the new one;
* `get?_insert` — a write changes the value of its own key only;
* `get?_erase` — erasing a key removes that key only.
-/

namespace Jarsmith

/-- A finite map in the order of first insertion. -/
structure OrderedMap (κ : Type) (α : Type) where
  entries : List (κ × α)
  nodup : (entries.map Prod.fst).Nodup

namespace OrderedMap

variable {κ α β : Type}

instance : Inhabited (OrderedMap κ α) := ⟨⟨[], List.nodup_nil⟩⟩
instance : EmptyCollection (OrderedMap κ α) := ⟨⟨[], List.nodup_nil⟩⟩

@[ext] theorem ext {m n : OrderedMap κ α} (h : m.entries = n.entries) : m = n := by
  cases m; cases n; simp_all

/-- The keys, in order. -/
def keys (m : OrderedMap κ α) : List κ := m.entries.map Prod.fst

/-- The values, in the order of their keys. -/
def values (m : OrderedMap κ α) : List α := m.entries.map Prod.snd

/-- The number of keys. -/
def size (m : OrderedMap κ α) : Nat := m.entries.length

/-- Whether there is no key. -/
def isEmpty (m : OrderedMap κ α) : Bool := m.entries.isEmpty

@[simp] theorem entries_empty : (∅ : OrderedMap κ α).entries = [] := rfl

section Lists

variable [DecidableEq κ]

/-- The value that a list of entries gives first for `k`. -/
def lookup (k : κ) : List (κ × α) → Option α
  | [] => none
  | (j, a) :: rest => if j = k then some a else lookup k rest

/-- The entries with the value of `k` replaced at its place, or with `k` appended. -/
def write (k : κ) (a : α) : List (κ × α) → List (κ × α)
  | [] => [(k, a)]
  | (j, b) :: rest => if j = k then (k, a) :: rest else (j, b) :: write k a rest

/-- The entries without the first one of `k`. -/
def remove (k : κ) : List (κ × α) → List (κ × α)
  | [] => []
  | (j, b) :: rest => if j = k then rest else (j, b) :: remove k rest

theorem keys_write (k : κ) (a : α) (l : List (κ × α)) :
    (write k a l).map Prod.fst =
      if k ∈ l.map Prod.fst then l.map Prod.fst else l.map Prod.fst ++ [k] := by
  induction l with
  | nil => simp [write]
  | cons e rest ih =>
    by_cases h : e.1 = k
    · simp [write, h]
    · by_cases hk : k ∈ rest.map Prod.fst
      · rw [if_pos hk] at ih
        simp only [write, h, if_false, List.map_cons, ih]
        rw [if_pos (List.mem_cons_of_mem _ hk)]
      · rw [if_neg hk] at ih
        have : k ∉ (e :: rest).map Prod.fst := by
          simp only [List.map_cons, List.mem_cons, not_or]
          exact ⟨fun heq => h heq.symm, hk⟩
        rw [if_neg this]
        simp only [write, h, if_false, List.map_cons, ih, List.cons_append]

theorem nodup_write (k : κ) (a : α) {l : List (κ × α)} (h : (l.map Prod.fst).Nodup) :
    ((write k a l).map Prod.fst).Nodup := by
  rw [keys_write]
  split
  · exact h
  · rename_i hk
    rw [List.nodup_append]
    refine ⟨h, by simp, ?_⟩
    intro x hx y hy
    simp only [List.mem_singleton] at hy
    subst hy
    exact fun heq => hk (heq ▸ hx)

theorem remove_sublist (k : κ) (l : List (κ × α)) : (remove k l).Sublist l := by
  induction l with
  | nil => exact List.Sublist.slnil
  | cons e rest ih =>
    simp only [remove]
    split
    · exact List.sublist_cons_self e rest
    · exact ih.cons_cons e

theorem lookup_write (j k : κ) (a : α) (l : List (κ × α)) :
    lookup j (write k a l) = if k = j then some a else lookup j l := by
  induction l with
  | nil => simp [write, lookup]
  | cons e rest ih =>
    by_cases h : e.1 = k
    · by_cases hj : k = j
      · simp [write, lookup, h, hj]
      · have : ¬ e.1 = j := by rw [h]; exact hj
        simp [write, lookup, h, hj]
    · simp only [write, h, if_false, lookup, ih]
      by_cases hj : e.1 = j
      · have : ¬ k = j := fun hk => h (hj.trans hk.symm)
        simp [hj, this]
      · simp [hj]

theorem lookup_eq_none {k : κ} {l : List (κ × α)} (h : k ∉ l.map Prod.fst) : lookup k l = none := by
  induction l with
  | nil => rfl
  | cons e rest ih =>
    simp only [List.map_cons, List.mem_cons, not_or] at h
    simp only [lookup]
    rw [if_neg fun heq => h.1 heq.symm]
    exact ih h.2

theorem lookup_remove (j k : κ) {l : List (κ × α)} (h : (l.map Prod.fst).Nodup) :
    lookup j (remove k l) = if k = j then none else lookup j l := by
  induction l with
  | nil => simp [remove, lookup]
  | cons e rest ih =>
    simp only [List.map_cons, List.nodup_cons] at h
    by_cases he : e.1 = k
    · by_cases hj : k = j
      · simp only [remove, he, if_true, hj]
        exact lookup_eq_none (by rw [← hj, ← he]; exact h.1)
      · simp [remove, lookup, he, hj]
    · simp only [remove, he, if_false, lookup, ih h.2]
      by_cases hj : e.1 = j
      · have : ¬ k = j := fun hk => he (hj.trans hk.symm)
        simp [hj, this]
      · simp [hj]

end Lists

section Operations

variable [DecidableEq κ]

/-- The value of `k`. -/
def get? (m : OrderedMap κ α) (k : κ) : Option α := lookup k m.entries

/-- Whether `k` is a key. -/
def contains (m : OrderedMap κ α) (k : κ) : Bool := (m.get? k).isSome

/-- Gives `k` the value `a`, at the place of `k` if it has one. -/
def insert (m : OrderedMap κ α) (k : κ) (a : α) : OrderedMap κ α :=
  ⟨write k a m.entries, nodup_write k a m.nodup⟩

/-- Removes `k`; the other keys keep their order. -/
def erase (m : OrderedMap κ α) (k : κ) : OrderedMap κ α :=
  ⟨remove k m.entries, ((remove_sublist k m.entries).map Prod.fst).nodup m.nodup⟩

/-- Changes the value of `k`, starting from `fresh` when there is none. -/
def update (m : OrderedMap κ α) (k : κ) (fresh : α) (f : α → α) : OrderedMap κ α :=
  m.insert k (f ((m.get? k).getD fresh))

/-- The map of a list of entries; of two entries with one key the later value stays. -/
def ofList (l : List (κ × α)) : OrderedMap κ α :=
  l.foldl (fun m (k, a) => m.insert k a) ∅

theorem keys_insert (m : OrderedMap κ α) (k : κ) (a : α) :
    (m.insert k a).keys = if k ∈ m.keys then m.keys else m.keys ++ [k] :=
  keys_write k a m.entries

@[simp] theorem get?_empty (k : κ) : (∅ : OrderedMap κ α).get? k = none := rfl

@[simp] theorem get?_insert (m : OrderedMap κ α) (j k : κ) (a : α) :
    (m.insert k a).get? j = if k = j then some a else m.get? j :=
  lookup_write j k a m.entries

@[simp] theorem get?_erase (m : OrderedMap κ α) (j k : κ) :
    (m.erase k).get? j = if k = j then none else m.get? j :=
  lookup_remove j k m.nodup

end Operations

/-- Changes every value; the keys and their order stay. -/
def mapValues (m : OrderedMap κ α) (f : κ → α → β) : OrderedMap κ β :=
  ⟨m.entries.map fun (k, a) => (k, f k a), by
    have : (m.entries.map fun (k, a) => (k, f k a)).map Prod.fst = m.entries.map Prod.fst := by
      simp [List.map_map, Function.comp_def]
    rw [this]; exact m.nodup⟩

/-- The entries that satisfy `p`, in their order. -/
def filter (m : OrderedMap κ α) (p : κ → α → Bool) : OrderedMap κ α :=
  ⟨m.entries.filter fun (k, a) => p k a,
    ((List.filter_sublist (l := m.entries)).map Prod.fst).nodup m.nodup⟩

/-- Whether two maps give related values for the same keys, whatever the order of the keys. -/
def agrees [DecidableEq κ] (same : α → α → Bool) (m n : OrderedMap κ α) : Bool :=
  m.size == n.size && m.entries.all fun (k, a) =>
    match n.get? k with
    | some b => same a b
    | none => false

end OrderedMap

end Jarsmith
