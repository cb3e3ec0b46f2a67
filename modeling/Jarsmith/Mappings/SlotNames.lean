/-!
# Names by slot

The names of a method's parameters, by the local variable in which a parameter starts, in the order
of the slots.

* `get?_insert` — a write changes the name of its own slot only.
-/

namespace Jarsmith

/-- Names by slot, in the order of the slots. -/
structure SlotNames where
  entries : List (UInt16 × String)
  sorted : entries.Pairwise fun a b => a.1.toNat < b.1.toNat
  deriving DecidableEq

namespace SlotNames

instance : EmptyCollection SlotNames := ⟨⟨[], .nil⟩⟩
instance : Inhabited SlotNames := ⟨∅⟩

@[ext] theorem ext {m n : SlotNames} (h : m.entries = n.entries) : m = n := by
  cases m; cases n; simp_all

/-- The name that a list of entries gives first for `slot`. -/
def lookup (slot : UInt16) : List (UInt16 × String) → Option String
  | [] => none
  | (k, name) :: rest => if k = slot then some name else lookup slot rest

/-- The entries with the name of `slot`, at the place that keeps sorted entries sorted. -/
def write (slot : UInt16) (name : String) : List (UInt16 × String) → List (UInt16 × String)
  | [] => [(slot, name)]
  | (k, old) :: rest =>
    if slot.toNat < k.toNat then (slot, name) :: (k, old) :: rest
    else if k = slot then (slot, name) :: rest
    else (k, old) :: write slot name rest

theorem mem_write {slot : UInt16} {name : String} {l : List (UInt16 × String)}
    {e : UInt16 × String} (h : e ∈ write slot name l) : e.1 = slot ∨ e ∈ l := by
  induction l with
  | nil => simp only [write, List.mem_singleton] at h; simp [h]
  | cons f rest ih =>
    simp only [write] at h
    split at h
    · rcases List.mem_cons.1 h with rfl | h
      · exact .inl rfl
      · exact .inr h
    · split at h
      · rcases List.mem_cons.1 h with rfl | h
        · exact .inl rfl
        · exact .inr (List.mem_cons_of_mem _ h)
      · rcases List.mem_cons.1 h with rfl | h
        · exact .inr List.mem_cons_self
        · exact (ih h).imp id (List.mem_cons_of_mem _)

theorem sorted_write (slot : UInt16) (name : String) {l : List (UInt16 × String)}
    (h : l.Pairwise fun a b => a.1.toNat < b.1.toNat) :
    (write slot name l).Pairwise fun a b => a.1.toNat < b.1.toNat := by
  induction l with
  | nil => simp [write]
  | cons f rest ih =>
    obtain ⟨hf, hrest⟩ := List.pairwise_cons.1 h
    simp only [write]
    split
    · rename_i hlt
      refine List.pairwise_cons.2 ⟨fun e he => ?_, h⟩
      rcases List.mem_cons.1 he with rfl | he
      · exact hlt
      · exact Nat.lt_trans hlt (hf e he)
    · split
      · rename_i heq
        exact List.pairwise_cons.2 ⟨fun e he => heq ▸ hf e he, hrest⟩
      · rename_i hlt hne
        refine List.pairwise_cons.2 ⟨fun e he => ?_, ih hrest⟩
        rcases mem_write he with heq | he
        · have : f.1.toNat ≠ slot.toNat := fun h => hne (UInt16.toNat.inj h)
          show f.1.toNat < e.1.toNat
          rw [heq]
          omega
        · exact hf e he

theorem lookup_write (slot key : UInt16) (name : String) (l : List (UInt16 × String)) :
    lookup slot (write key name l) = if key = slot then some name else lookup slot l := by
  induction l with
  | nil => simp [write, lookup]
  | cons f rest ih =>
    simp only [write]
    split
    · simp [lookup]
    · split
      · rename_i h
        by_cases hs : key = slot
        · simp [lookup, hs]
        · have : ¬ f.1 = slot := fun hf => hs (h.symm.trans hf)
          simp [lookup, hs, this]
      · rename_i h
        simp only [lookup, ih]
        by_cases hf : f.1 = slot
        · have : ¬ key = slot := fun hk => h (hf.trans hk.symm)
          simp [hf, this]
        · simp [hf]

/-- The name of `slot`. -/
def get? (m : SlotNames) (slot : UInt16) : Option String := lookup slot m.entries

/-- Names `slot`. -/
def insert (m : SlotNames) (slot : UInt16) (name : String) : SlotNames :=
  ⟨write slot name m.entries, sorted_write slot name m.sorted⟩

@[simp] theorem get?_insert (m : SlotNames) (slot key : UInt16) (name : String) :
    (m.insert key name).get? slot = if key = slot then some name else m.get? slot :=
  lookup_write slot key name m.entries

/-- The names of both; a slot that both name is called as `other` says. -/
def overriddenBy (m other : SlotNames) : SlotNames :=
  other.entries.foldl (fun m (slot, name) => m.insert slot name) m

end SlotNames

end Jarsmith
