import Jarsmith.Memo
import Jarsmith.World
import Mathlib.Order.Defs.Unbundled

/-!
# Running computations

What a computation with a state does, step by step. A computation keeps what it did to the state
before it failed, so what it leaves is told for every outcome.

* `Running.bind_iff`, `Running.bind_ok_iff` — take one step of a `do` block apart.
* `Running.onPart_iff` — running on a part of the state.
* `Respects` — whatever comes out, a relation between the state before and the state behind holds.
* `Running.memoized_of_unanswered` — a computation behind a log that has no answer.
-/

namespace Jarsmith

variable {σ τ α β κ : Type}

-- ---------------------------------------------------------------------------
-- Single runs
-- ---------------------------------------------------------------------------

namespace Running

variable {x : ExceptT Error (StateM σ) α} {f : α → ExceptT Error (StateM σ) β} {s t u : σ} {a : α}
  {b : β} {e : Error}

/-- Takes one step of a `do` block apart. -/
theorem bind_iff {r : Result β} : (x >>= f).run.run s = (r, u) ↔
    (∃ e, x.run.run s = (.error e, u) ∧ .error e = r) ∨
      ∃ a t, x.run.run s = (.ok a, t) ∧ (f a).run.run t = (r, u) := by
  simp only [ExceptT.run_bind, StateT.run_bind]
  generalize x.run.run s = first
  rcases first with ⟨_ | a, t⟩
  · constructor
    · intro h
      cases h
      exact .inl ⟨_, rfl, rfl⟩
    · rintro (⟨e, h, rfl⟩ | ⟨a, t, h, -⟩) <;> cases h
      rfl
  · constructor
    · exact fun h => .inr ⟨a, t, rfl, h⟩
    · rintro (⟨e, h, -⟩ | ⟨a', t', h, h'⟩) <;> cases h
      exact h'

/-- Inverts one step of a `do` block. -/
theorem bind_ok_iff : (x >>= f).run.run s = (.ok b, u) ↔
    ∃ a t, x.run.run s = (.ok a, t) ∧ (f a).run.run t = (.ok b, u) :=
  bind_iff.trans (or_iff_right fun ⟨_, _, h⟩ => nomatch h)

/-- A run of which the answer is known. -/
theorem run_of_fst {r : Result α} (h : (x.run.run s).1 = r) :
    x.run.run s = (r, (x.run.run s).2) := Prod.ext h rfl

/-- A step that succeeds. -/
theorem bind_of_ok {r : Result β} (hx : x.run.run s = (.ok a, t)) :
    (x >>= f).run.run s = (r, u) ↔ (f a).run.run t = (r, u) := by
  rw [bind_iff, hx]
  constructor
  · rintro (⟨e, h, -⟩ | ⟨a', t', h, hf⟩) <;> cases h
    exact hf
  · exact fun hf => .inr ⟨a, t, rfl, hf⟩

theorem pure_iff {r : Result α} :
    (pure a : ExceptT Error (StateM σ) α).run.run s = (r, t) ↔ .ok a = r ∧ s = t :=
  Prod.mk.injEq .. ▸ Iff.rfl

theorem throw_iff {r : Result α} :
    (throw e : ExceptT Error (StateM σ) α).run.run s = (r, t) ↔ .error e = r ∧ s = t :=
  Prod.mk.injEq .. ▸ Iff.rfl

/-- A step that does not look at the state. -/
theorem liftExcept_iff {q r : Result α} :
    (liftExcept q : ExceptT Error (StateM σ) α).run.run s = (r, t) ↔ q = r ∧ s = t := by
  cases q with
  | error e => exact throw_iff
  | ok a => exact pure_iff

/-- An error on the way is reported together with what was going on. -/
theorem during_iff {artifact step : String} {r : Result α} :
    (during artifact step x).run.run s = (r, t) ↔
      ∃ q, x.run.run s = (q, t) ∧ q.mapError (.during artifact step) = r := by
  show ((x.run.run s).1.mapError _, (x.run.run s).2) = _ ↔ _
  generalize x.run.run s = run
  obtain ⟨q, u⟩ := run
  constructor
  · intro h
    cases h
    exact ⟨q, rfl, rfl⟩
  · rintro ⟨_, h, rfl⟩
    cases h
    rfl

theorem during_ok_iff {artifact step : String} :
    (during artifact step x).run.run s = (.ok a, t) ↔ x.run.run s = (.ok a, t) := by
  rw [during_iff]
  constructor
  · rintro ⟨q, h, hq⟩
    cases q with
    | error e => cases hq
    | ok b =>
      cases hq
      exact h
  · exact fun h => ⟨_, h, rfl⟩

/-- A failure that is looked at is no failure. -/
theorem observing_iff {r : Result (Result α)} :
    (observing x).run.run s = (r, t) ↔ ∃ q, x.run.run s = (q, t) ∧ .ok q = r := by
  have hRun : (observing x).run.run s = (.ok (x.run.run s).1, (x.run.run s).2) := by
    rw [observing, ExceptT.run_tryCatch, StateT.run_bind]
    simp only [ExceptT.run_bind, StateT.run_bind]
    generalize x.run.run s = run
    rcases run with ⟨_ | a, u⟩ <;> rfl
  rw [hRun]
  generalize x.run.run s = run
  obtain ⟨q, u⟩ := run
  constructor
  · intro h
    cases h
    exact ⟨q, rfl, rfl⟩
  · rintro ⟨_, h, rfl⟩
    cases h
    rfl

/-- Running on a part of the state. -/
theorem onPart_iff {part : σ → τ} {withPart : σ → τ → σ} {y : ExceptT Error (StateM τ) α}
    {r : Result α} : (onPart part withPart y).run.run s = (r, u) ↔
      ∃ t, y.run.run (part s) = (r, t) ∧ withPart s t = u := by
  show ((y.run.run (part s)).1, withPart s (y.run.run (part s)).2) = _ ↔ _
  generalize y.run.run (part s) = run
  obtain ⟨q, t⟩ := run
  constructor
  · intro h
    cases h
    exact ⟨t, rfl, rfl⟩
  · rintro ⟨_, h, rfl⟩
    cases h
    rfl

theorem onPart_pure {part : σ → τ} {withPart : σ → τ → σ} (hSame : ∀ s, withPart s (part s) = s)
    (a : α) : onPart part withPart (pure a) = pure a :=
  ExceptT.ext (funext fun s => congrArg (Prod.mk _) (hSame s))

/-- Running on a part goes step by step. -/
theorem onPart_bind {part : σ → τ} {withPart : σ → τ → σ} (hPart : ∀ s t, part (withPart s t) = t)
    (hLast : ∀ s t u, withPart (withPart s t) u = withPart s u)
    (y : ExceptT Error (StateM τ) α) (g : α → ExceptT Error (StateM τ) β) :
    onPart part withPart (y >>= g) =
      onPart part withPart y >>= fun a => onPart part withPart (g a) := by
  refine ExceptT.ext (funext fun s => ?_)
  obtain ⟨q, t, hRun⟩ : ∃ q t, (y >>= g).run.run (part s) = (q, t) := ⟨_, _, rfl⟩
  refine (onPart_iff.2 ⟨t, hRun, rfl⟩).trans (bind_iff.2 ?_).symm
  obtain ⟨e, hFail, hq⟩ | ⟨a, u, hFirst, hRest⟩ := bind_iff.1 hRun
  · exact .inl ⟨e, onPart_iff.2 ⟨t, hFail, rfl⟩, hq⟩
  · refine .inr ⟨a, withPart s u, onPart_iff.2 ⟨u, hFirst, rfl⟩, onPart_iff.2 ⟨t, ?_, hLast s u t⟩⟩
    rw [hPart]
    exact hRest

/-- Going on behind an outcome that is looked at. -/
theorem run_observing_bind {g : Result α → ExceptT Error (StateM σ) β} :
    (observing x >>= g).run.run s = (g (x.run.run s).1).run.run (x.run.run s).2 :=
  (bind_of_ok (observing_iff.2 ⟨_, rfl, rfl⟩)).2 rfl

/-- Looking at the outcome, to go on with a success and to pass a failure on, is to go on. -/
theorem observing_bind {g : Result α → ExceptT Error (StateM σ) β}
    (hPass : ∀ e, g (.error e) = throw e) : (observing x >>= g) = x >>= fun a => g (.ok a) := by
  refine ExceptT.ext (funext fun s => ?_)
  obtain ⟨q, t, hRun⟩ : ∃ q t, x.run.run s = (q, t) := ⟨_, _, rfl⟩
  refine run_observing_bind.trans ?_
  rw [hRun]
  cases q with
  | error e =>
    rw [hPass]
    exact (bind_iff.2 (.inl ⟨e, hRun, rfl⟩)).symm
  | ok a => exact ((bind_of_ok hRun).2 rfl).symm

/-- A loop whose steps leave the state as it is. -/
theorem foldlM_of_run {l : List α} {step : β → α → ExceptT Error (StateM σ) β}
    {g : β → α → Result β} (hStep : ∀ b, ∀ a ∈ l, (step b a).run.run s = (g b a, s)) :
    (l.foldlM step b).run.run s = (l.foldlM g b, s) := by
  induction l generalizing b with
  | nil => rfl
  | cons a more ih =>
    have hHead := hStep b a List.mem_cons_self
    rw [List.foldlM_cons, List.foldlM_cons]
    cases hResult : g b a with
    | error e =>
      rw [hResult] at hHead
      exact bind_iff.2 (.inl ⟨e, hHead, rfl⟩)
    | ok next =>
      rw [hResult] at hHead
      exact (bind_of_ok hHead).2 (ih fun b a hMem => hStep b a (List.mem_cons_of_mem _ hMem))

/-- A computation behind a log that has its answer. -/
theorem memoized_of_answered [DecidableEq κ] {log : σ → AnswerLog κ α}
    {withLog : σ → AnswerLog κ α → σ} {key : κ} {answer r : Result α}
    (hSome : (log s).answer? key = some answer) :
    (memoized log withLog key x).run.run s = (r, u) ↔ answer = r ∧ s = u := by
  have hGet : (getThe σ : ExceptT Error (StateM σ) σ).run.run s = (.ok s, s) := rfl
  rw [memoized, bind_of_ok hGet, hSome]
  exact liftExcept_iff

/-- A computation behind a log that has no answer. Its outcome is logged. -/
theorem memoized_of_unanswered [DecidableEq κ] {log : σ → AnswerLog κ α}
    {withLog : σ → AnswerLog κ α → σ} {key : κ} {r : Result α}
    (hNone : (log s).answer? key = none) :
    (memoized log withLog key x).run.run s = (r, u) ↔
      ∃ t, x.run.run s = (r, t) ∧ withLog t (log t ++ [(key, r)]) = u := by
  have hGet : (getThe σ : ExceptT Error (StateM σ) σ).run.run s = (.ok s, s) := rfl
  rw [memoized, bind_of_ok hGet, hNone]
  constructor
  · intro h
    obtain ⟨_, hFail, -⟩ | ⟨q, t, hObserve, h⟩ := bind_iff.1 h
    · obtain ⟨_, -, hOk⟩ := observing_iff.1 hFail
      cases hOk
    · obtain ⟨_, hRun, hq⟩ := observing_iff.1 hObserve
      cases hq
      obtain ⟨_, hFail, -⟩ | ⟨_, _, hModify, h⟩ := bind_iff.1 h
      · cases hFail
      · cases hModify
        obtain ⟨rfl, rfl⟩ := liftExcept_iff.1 h
        exact ⟨t, hRun, rfl⟩
  · rintro ⟨t, hRun, rfl⟩
    refine (bind_of_ok (observing_iff.2 ⟨r, hRun, rfl⟩)).2 ?_
    have hModify : (modifyThe σ fun s => withLog s (log s ++ [(key, r)]) :
        ExceptT Error (StateM σ) Unit).run.run t = (.ok (), withLog t (log t ++ [(key, r)])) := rfl
    exact (bind_of_ok hModify).2 (liftExcept_iff.2 ⟨rfl, rfl⟩)

end Running

-- ---------------------------------------------------------------------------
-- What every run respects
-- ---------------------------------------------------------------------------

instance isPreorder_invImage {R : τ → τ → Prop} [IsPreorder τ R] (part : σ → τ) :
    IsPreorder σ (InvImage R part) where
  refl s := refl_of R (part s)
  trans _ _ _ h h' := trans_of R h h'

/-- Whatever comes out, the relation holds between the state before and the state behind. -/
structure Respects (R : σ → σ → Prop) (x : ExceptT Error (StateM σ) α) : Prop where
  run : ∀ {s r t}, x.run.run s = (r, t) → R s t

namespace Respects

open Running

variable {R R' : σ → σ → Prop} {x : ExceptT Error (StateM σ) α}
  {f : α → ExceptT Error (StateM σ) β} {a : α} {e : Error}

theorem imp (hx : Respects R x) (hImp : ∀ {s t}, R s t → R' s t) : Respects R' x :=
  ⟨fun h => hImp (hx.run h)⟩

theorem during {artifact step : String} (hx : Respects R x) :
    Respects R (during artifact step x) :=
  ⟨fun h => let ⟨_, hRun, _⟩ := during_iff.1 h; hx.run hRun⟩

theorem onPart {R : τ → τ → Prop} {part : σ → τ} {withPart : σ → τ → σ}
    {y : ExceptT Error (StateM τ) α} (hPart : ∀ s t, part (withPart s t) = t)
    (hy : Respects R y) : Respects (InvImage R part) (onPart part withPart y) where
  run {s r u} h := by
    obtain ⟨t, hRun, rfl⟩ := onPart_iff.1 h
    show R (part s) (part (withPart s t))
    rw [hPart]
    exact hy.run hRun

variable [IsPreorder σ R]

theorem pure : Respects R (pure a : ExceptT Error (StateM σ) α) where
  run {s r t} h := by
    obtain ⟨-, rfl⟩ := pure_iff.1 h
    exact refl_of R s

theorem throw : Respects R (throw e : ExceptT Error (StateM σ) α) where
  run {s r t} h := by
    obtain ⟨-, rfl⟩ := throw_iff.1 h
    exact refl_of R s

theorem liftExcept {q : Result α} : Respects R (liftExcept q : ExceptT Error (StateM σ) α) where
  run {s r t} h := by
    obtain ⟨-, rfl⟩ := liftExcept_iff.1 h
    exact refl_of R s

theorem lift {q : Result α} : Respects R (liftM q : ExceptT Error (StateM σ) α) where
  run {s r t} h := by
    cases h
    exact refl_of R s

theorem get : Respects R (getThe σ : ExceptT Error (StateM σ) σ) where
  run {s r t} h := by
    cases h
    exact refl_of R s

/-- Only the outcomes matter that the first step can have. -/
theorem bind_of_run (hx : Respects R x)
    (hf : ∀ {s a t}, x.run.run s = (.ok a, t) → Respects R (f a)) : Respects R (x >>= f) where
  run {s r u} h := by
    obtain ⟨_, h, -⟩ | ⟨a, t, h, h'⟩ := bind_iff.1 h
    · exact hx.run h
    · exact trans_of R (hx.run h) ((hf h).run h')

theorem bind (hx : Respects R x) (hf : ∀ a, Respects R (f a)) : Respects R (x >>= f) :=
  hx.bind_of_run fun {_ a _} _ => hf a

theorem tryCatch {recover : Error → ExceptT Error (StateM σ) α} (hx : Respects R x)
    (hRecover : ∀ e, Respects R (recover e)) : Respects R (tryCatch x recover) where
  run {s r u} h := by
    rw [ExceptT.run_tryCatch, StateT.run_bind] at h
    cases hRun : x.run.run s with
    | mk q t =>
      rw [hRun] at h
      cases q with
      | ok a =>
        cases h
        exact hx.run hRun
      | error e => exact trans_of R (hx.run hRun) ((hRecover e).run h)

theorem foldlM {step : β → α → ExceptT Error (StateM σ) β} {l : List α}
    (hStep : ∀ b, ∀ a ∈ l, Respects R (step b a)) {b : β} : Respects R (l.foldlM step b) := by
  induction l generalizing b with
  | nil => exact pure
  | cons a more ih =>
    rw [List.foldlM_cons]
    exact bind (hStep b a List.mem_cons_self) fun _ =>
      ih fun b a hMem => hStep b a (List.mem_cons_of_mem _ hMem)

theorem mapM {l : List α} (hf : ∀ a ∈ l, Respects R (f a)) : Respects R (l.mapM f) := by
  induction l with
  | nil => exact pure
  | cons a more ih =>
    rw [List.mapM_cons]
    exact bind (hf a List.mem_cons_self) fun _ =>
      bind (ih fun a hMem => hf a (List.mem_cons_of_mem _ hMem)) fun _ => pure

theorem forM {l : List α} {f : α → ExceptT Error (StateM σ) PUnit}
    (hf : ∀ a ∈ l, Respects R (f a)) : Respects R (l.forM f) := by
  induction l with
  | nil => exact pure
  | cons a more ih =>
    show Respects R (f a >>= fun _ => more.forM f)
    exact bind (hf a List.mem_cons_self) fun _ => ih fun a hMem => hf a (List.mem_cons_of_mem _ hMem)

end Respects

end Jarsmith
