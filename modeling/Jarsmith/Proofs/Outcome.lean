/-!
# Outcomes of computations that may fail

When a computation in `Except` succeeds or fails, by the steps it is made of. A proof takes a
computation apart with these instead of looking into the monad.
-/

namespace Jarsmith.Outcome

variable {ε α β : Type}

/-- Inverts one step of a `do` block. -/
@[simp] theorem bind_ok_iff {x : Except ε α} {f : α → Except ε β} {b : β} :
    (x >>= f) = .ok b ↔ ∃ a, x = .ok a ∧ f a = .ok b := by
  cases x <;> simp [bind, Except.bind]

@[simp] theorem pure_ok_iff {a b : α} : (pure a : Except ε α) = .ok b ↔ a = b := by
  simp [pure, Except.pure]

@[simp] theorem throw_ok_iff {e : ε} {a : α} : (throw e : Except ε α) = .ok a ↔ False := by
  simp [throw, throwThe, MonadExceptOf.throw]

@[simp] theorem map_ok_iff {x : Except ε α} {f : α → β} {b : β} :
    (f <$> x) = .ok b ↔ ∃ a, x = .ok a ∧ f a = b := by
  cases x <;> simp [Functor.map, Except.map]

/-- A loop over steps that succeed exactly where `P` holds, with the outcome `g`. -/
theorem mapM_ok_iff {f : α → Except ε β} {g : α → β} {P : α → Prop}
    (hf : ∀ a b, f a = .ok b ↔ P a ∧ g a = b) {l : List α} {bs : List β} :
    l.mapM f = .ok bs ↔ (∀ a ∈ l, P a) ∧ l.map g = bs := by
  induction l generalizing bs with
  | nil => simp
  | cons a more ih =>
    simp only [List.mapM_cons, bind_ok_iff, pure_ok_iff, hf, ih, List.forall_mem_cons, List.map_cons]
    constructor
    · rintro ⟨b, ⟨ha, rfl⟩, more, ⟨hMore, rfl⟩, rfl⟩
      exact ⟨⟨ha, hMore⟩, rfl⟩
    · rintro ⟨⟨ha, hMore⟩, rfl⟩
      exact ⟨_, ⟨ha, rfl⟩, _, ⟨hMore, rfl⟩, rfl⟩

/-- A loop over steps each of which succeeds. -/
theorem exists_mapM_ok {f : α → Except ε β} {l : List α} (hf : ∀ a ∈ l, ∃ b, f a = .ok b) :
    ∃ bs, l.mapM f = .ok bs := by
  induction l with
  | nil => exact ⟨[], rfl⟩
  | cons a more ih =>
    obtain ⟨⟨b, hb⟩, hMore⟩ := List.forall_mem_cons.1 hf
    obtain ⟨bs, hbs⟩ := ih hMore
    rw [List.mapM_cons]
    exact ⟨b :: bs, bind_ok_iff.2 ⟨b, hb, bind_ok_iff.2 ⟨bs, hbs, rfl⟩⟩⟩

/-- Every step of a loop that succeeds does. -/
theorem exists_of_mapM_ok {f : α → Except ε β} {l : List α} {bs : List β}
    (h : l.mapM f = .ok bs) : ∀ a ∈ l, ∃ b, f a = .ok b := by
  induction l generalizing bs with
  | nil => exact fun _ => nofun
  | cons a more ih =>
    rw [List.mapM_cons] at h
    obtain ⟨b, hb, h⟩ := bind_ok_iff.1 h
    obtain ⟨rest, hRest, -⟩ := bind_ok_iff.1 h
    exact List.forall_mem_cons.2 ⟨⟨b, hb⟩, ih hRest⟩

theorem bind_error_iff {x : Except ε α} {f : α → Except ε β} {e : ε} :
    (x >>= f) = .error e ↔ x = .error e ∨ ∃ a, x = .ok a ∧ f a = .error e := by
  cases x <;> simp [bind, Except.bind]

theorem map_error_iff {x : Except ε α} {f : α → β} {e : ε} :
    x.map f = .error e ↔ x = .error e := by
  cases x <;> simp [Except.map]

theorem mapError_ok_iff {ε' : Type} {x : Except ε α} {f : ε → ε'} {a : α} :
    x.mapError f = .ok a ↔ x = .ok a := by
  cases x with
  | error e => exact ⟨nofun, nofun⟩
  | ok b => constructor <;> rintro ⟨⟩ <;> rfl

end Jarsmith.Outcome
