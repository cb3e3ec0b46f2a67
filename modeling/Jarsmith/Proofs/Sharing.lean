import Jarsmith.Error
import Jarsmith.OrderedMap
import Mathlib.Data.List.Nodup

/-!
# Shared computations

Computations that take turns and share what they work out. A computation asks for what is known by a
key; whoever asks first starts the work for the key, and everyone who asks waits for its answer. A
session is any order of turns, with requests that come at any time and a state that others change
between the turns.

* `Process` — a computation, cut where others can have their turn.
* `Process.Lawful` — a computation performs marks of its own, each at most once, and starts
  computations of that kind.
* `Session.Runs` — the sessions, with a trace of what was started, performed and received.
* `Session.sound_of_runs` — what holds in every session: work for a key is started at most once, a
  mark is performed at most once, and all who ask for a key get the one answer of the key.
-/

namespace Jarsmith

variable {ρ σ κ μ α : Type}

-- ---------------------------------------------------------------------------
-- Computations that take turns
-- ---------------------------------------------------------------------------

/-- A computation on states, cut where others can have their turn. -/
inductive Process (σ κ μ α : Type) where
  | done (answer : Result α)
  /-- A step on the state, which may bear a mark. What comes next depends on the state before. -/
  | act (mark : Option μ) (effect : σ → σ) (next : σ → Process σ κ μ α)
  /-- A question. If it was never asked, `make` is started for it. -/
  | ask (key : κ) (make : Process σ κ μ α) (next : Result α → Process σ κ μ α)
  /-- Two questions at a time. A failure of either one is the answer to both. -/
  | both (left right : κ) (makeLeft makeRight : Process σ κ μ α)
      (next : Result (α × α) → Process σ κ μ α)

namespace Process

/-- The process asks for a key now, and would start `make` for it. -/
inductive Wants : Process σ κ μ α → κ → Process σ κ μ α → Prop
  | ask {key make next} : Wants (.ask key make next) key make
  | left {left right makeLeft makeRight next} :
      Wants (.both left right makeLeft makeRight next) left makeLeft
  | right {left right makeLeft makeRight next} :
      Wants (.both left right makeLeft makeRight next) right makeRight

/-- The process goes on with answers that are known. -/
inductive Hears (known : κ → Result α → Prop) :
    Process σ κ μ α → List (κ × Result α) → Process σ κ μ α → Prop
  | ask {key make next answer} : known key answer →
      Hears known (.ask key make next) [(key, answer)] (next answer)
  | both {left right makeLeft makeRight next a b} : known left (.ok a) → known right (.ok b) →
      Hears known (.both left right makeLeft makeRight next) [(left, .ok a), (right, .ok b)]
        (next (.ok (a, b)))
  | left {left right makeLeft makeRight next e} : known left (.error e) →
      Hears known (.both left right makeLeft makeRight next) [(left, .error e)] (next (.error e))
  | right {left right makeLeft makeRight next e} : known right (.error e) →
      Hears known (.both left right makeLeft makeRight next) [(right, .error e)] (next (.error e))

variable {owner : μ → κ} {allowed allowed' : μ → Prop} {answers : κ → Result α → Prop}
  {p p' make : Process σ κ μ α} {key : κ} {heard : List (κ × Result α)}

/-- What is heard is known. -/
theorem Hears.known (h : p.Hears answers heard p') : ∀ pair ∈ heard, answers pair.1 pair.2 := by
  cases h with
  | ask hAnswer => simpa using hAnswer
  | both hLeft hRight => simpa using ⟨hLeft, hRight⟩
  | left hAnswer => simpa using hAnswer
  | right hAnswer => simpa using hAnswer

-- ---------------------------------------------------------------------------
-- Computations that keep to what is their own
-- ---------------------------------------------------------------------------

/-- The process performs marks that it is allowed to, each at most once, and what it starts for a
key performs marks that the key owns. -/
def Lawful (owner : μ → κ) : (μ → Prop) → Process σ κ μ α → Prop
  | _, .done _ => True
  | allowed, .act none _ next => ∀ s, (next s).Lawful owner allowed
  | allowed, .act (some mark) _ next =>
    allowed mark ∧ ∀ s, (next s).Lawful owner fun m => allowed m ∧ m ≠ mark
  | allowed, .ask key make next =>
    make.Lawful owner (owner · = key) ∧ ∀ found, (next found).Lawful owner allowed
  | allowed, .both left right makeLeft makeRight next =>
    makeLeft.Lawful owner (owner · = left) ∧ makeRight.Lawful owner (owner · = right) ∧
      ∀ found, (next found).Lawful owner allowed

theorem Lawful.mono (hLawful : p.Lawful owner allowed) (h : ∀ m, allowed m → allowed' m) :
    p.Lawful owner allowed' := by
  induction p generalizing allowed allowed' with
  | done => trivial
  | act mark effect next ih =>
    cases mark with
    | none => exact fun s => ih s (hLawful s) h
    | some mark => exact ⟨h _ hLawful.1, fun s => ih s (hLawful.2 s) fun m hm => ⟨h m hm.1, hm.2⟩⟩
  | ask key make next _ ih => exact ⟨hLawful.1, fun found => ih found (hLawful.2 found) h⟩
  | both left right makeLeft makeRight next _ _ ih =>
    exact ⟨hLawful.1, hLawful.2.1, fun found => ih found (hLawful.2.2 found) h⟩

/-- The process with another wording of its failures. -/
def mapError (f : Error → Error) : Process σ κ μ α → Process σ κ μ α
  | .done answer => .done (answer.mapError f)
  | .act mark effect next => .act mark effect fun s => (next s).mapError f
  | .ask key make next => .ask key make fun found => (next found).mapError f
  | .both left right makeLeft makeRight next =>
    .both left right makeLeft makeRight fun found => (next found).mapError f

theorem Lawful.mapError {f : Error → Error} (hLawful : p.Lawful owner allowed) :
    (p.mapError f).Lawful owner allowed := by
  induction p generalizing allowed with
  | done => trivial
  | act mark effect next ih =>
    cases mark with
    | none => exact fun s => ih s (hLawful s)
    | some mark => exact ⟨hLawful.1, fun s => ih s (hLawful.2 s)⟩
  | ask key make next _ ih => exact ⟨hLawful.1, fun found => ih found (hLawful.2 found)⟩
  | both left right makeLeft makeRight next _ _ ih =>
    exact ⟨hLawful.1, hLawful.2.1, fun found => ih found (hLawful.2.2 found)⟩

/-- The process asks for nothing, and performs marks that it is allowed to, each at most once. -/
def Modest : (μ → Prop) → Process σ κ μ α → Prop
  | _, .done _ => True
  | allowed, .act none _ next => ∀ s, (next s).Modest allowed
  | allowed, .act (some mark) _ next =>
    allowed mark ∧ ∀ s, (next s).Modest fun m => allowed m ∧ m ≠ mark
  | _, .ask .. => False
  | _, .both .. => False

theorem Modest.lawful (hModest : p.Modest allowed) : p.Lawful owner allowed := by
  induction p generalizing allowed with
  | done => trivial
  | act mark effect next ih =>
    cases mark with
    | none => exact fun s => ih s (hModest s)
    | some mark => exact ⟨hModest.1, fun s => ih s (hModest.2 s)⟩
  | ask => exact hModest.elim
  | both => exact hModest.elim

/-- The process asks for no key that is being worked on already, and so do those it starts. -/
def Apart : List κ → Process σ κ μ α → Prop
  | _, .done _ => True
  | busy, .act _ _ next => ∀ s, (next s).Apart busy
  | busy, .ask key make next =>
    key ∉ busy ∧ make.Apart (key :: busy) ∧ ∀ found, (next found).Apart busy
  | busy, .both left right makeLeft makeRight next =>
    (left ∉ busy ∧ makeLeft.Apart (left :: busy)) ∧
      (right ∉ busy ∧ makeRight.Apart (right :: busy)) ∧ ∀ found, (next found).Apart busy

theorem Modest.apart {busy : List κ} (hModest : p.Modest allowed) : p.Apart busy := by
  induction p generalizing allowed with
  | done => trivial
  | act mark effect next ih =>
    cases mark with
    | none => exact fun s => ih s (hModest s)
    | some mark => exact fun s => ih s (hModest.2 s)
  | ask => exact hModest.elim
  | both => exact hModest.elim

theorem Apart.mapError {f : Error → Error} {busy : List κ} (hApart : p.Apart busy) :
    (p.mapError f).Apart busy := by
  induction p generalizing busy with
  | done => trivial
  | act mark effect next ih => exact fun s => ih s (hApart s)
  | ask key make next _ ih => exact ⟨hApart.1, hApart.2.1, fun found => ih found (hApart.2.2 found)⟩
  | both left right makeLeft makeRight next _ _ ih =>
    exact ⟨hApart.1, hApart.2.1, fun found => ih found (hApart.2.2 found)⟩

theorem Lawful.of_wants (hLawful : p.Lawful owner allowed) (h : p.Wants key make) :
    make.Lawful owner (owner · = key) := by
  cases h with
  | ask => exact hLawful.1
  | left => exact hLawful.1
  | right => exact hLawful.2.1

theorem Lawful.of_hears (hLawful : p.Lawful owner allowed) (h : p.Hears answers heard p') :
    p'.Lawful owner allowed := by
  cases h with
  | ask => exact hLawful.2 _
  | both => exact hLawful.2.2 _
  | left => exact hLawful.2.2 _
  | right => exact hLawful.2.2 _

end Process

-- ---------------------------------------------------------------------------
-- What happens in a session
-- ---------------------------------------------------------------------------

/-- What happens in a session. -/
inductive Event (κ μ α : Type) where
  | started (key : κ)
  | performed (mark : μ)
  | received (key : κ) (answer : Result α)

namespace Event

/-- The keys for which work was started, in order. -/
def startedKeys (trace : List (Event κ μ α)) : List κ :=
  trace.filterMap fun
    | started key => some key
    | _ => none

/-- The marks of the steps that were performed, in order. -/
def performedMarks (trace : List (Event κ μ α)) : List μ :=
  trace.filterMap fun
    | performed mark => some mark
    | _ => none

/-- Answers, as they are received. -/
def receivedAll (heard : List (κ × Result α)) : List (Event κ μ α) :=
  heard.map fun pair => received pair.1 pair.2

variable {trace : List (Event κ μ α)} {key : κ} {mark : μ} {heard : List (κ × Result α)}

@[simp] theorem startedKeys_started :
    startedKeys (trace ++ [started key]) = startedKeys trace ++ [key] := by
  simp [startedKeys]

@[simp] theorem startedKeys_performed :
    startedKeys (trace ++ [performed mark]) = startedKeys trace := by
  simp [startedKeys]

@[simp] theorem startedKeys_received :
    startedKeys (trace ++ receivedAll heard) = startedKeys trace := by
  simp [startedKeys, receivedAll]

@[simp] theorem performedMarks_started :
    performedMarks (trace ++ [started key]) = performedMarks trace := by
  simp [performedMarks]

@[simp] theorem performedMarks_performed :
    performedMarks (trace ++ [performed mark]) = performedMarks trace ++ [mark] := by
  simp [performedMarks]

@[simp] theorem performedMarks_received :
    performedMarks (trace ++ receivedAll heard) = performedMarks trace := by
  simp [performedMarks, receivedAll]

end Event

-- ---------------------------------------------------------------------------
-- Sessions
-- ---------------------------------------------------------------------------

/-- What is known by a key: the rest of a computation that goes on, or its answer. -/
inductive Slot (σ κ μ α : Type) where
  | working (rest : Process σ κ μ α)
  | answered (answer : Result α)

/-- What is known by which key. -/
abbrev Table (σ κ μ α : Type) := OrderedMap κ (Slot σ κ μ α)

/-- A request with the key that it asks for, and the answer that it got. -/
structure Caller (ρ κ α : Type) where
  request : ρ
  key : κ
  answer : Option (Result α)

/-- A state, what is known by which key, and the requests that have come so far. -/
structure Session (ρ σ κ μ α : Type) where
  state : σ
  table : Table σ κ μ α
  callers : List (Caller ρ κ α)

/-- What a request asks for in a state: a key and the work for it, unless it is refused. -/
abbrev Questions (ρ σ κ μ α : Type) := ρ → σ → Result (κ × Process σ κ μ α) × σ

variable [DecidableEq κ]

/-- The answer that is known by a key. -/
def Table.Answers (t : Table σ κ μ α) (key : κ) (answer : Result α) : Prop :=
  t.get? key = some (.answered answer)

/-- One turn of a process. -/
inductive Process.Turn : σ → Table σ κ μ α → Process σ κ μ α → List (Event κ μ α) → σ →
    Table σ κ μ α → Process σ κ μ α → Prop
  | act {s t mark effect next} :
      Turn s t (.act mark effect next) (mark.toList.map .performed) (effect s) t (next s)
  | start {s t p key make} : p.Wants key make → t.get? key = none →
      Turn s t p [.started key] s (t.insert key (.working make)) p
  | hear {s t p heard next} : p.Hears (Table.Answers t) heard next →
      Turn s t p (Event.receivedAll heard) s t next

namespace Session

/-- Nobody asked for anything yet. -/
def fresh (s : σ) : Session ρ σ κ μ α := ⟨s, ∅, []⟩

/-- One turn in a session. -/
inductive Step (questions : Questions ρ σ κ μ α) :
    Session ρ σ κ μ α → List (Event κ μ α) → Session ρ σ κ μ α → Prop
  /-- Somebody else changes the state. -/
  | disturb {s s' t callers} : Step questions ⟨s, t, callers⟩ [] ⟨s', t, callers⟩
  /-- A request comes and is refused. -/
  | refuse {s s' t callers request e} : questions request s = (.error e, s') →
      Step questions ⟨s, t, callers⟩ [] ⟨s', t, callers⟩
  /-- A request comes and is the first one for its key. -/
  | first {s s' t callers request key make} : questions request s = (.ok (key, make), s') →
      t.get? key = none →
      Step questions ⟨s, t, callers⟩ [.started key]
        ⟨s', t.insert key (.working make), callers ++ [⟨request, key, none⟩]⟩
  /-- A request comes for a key that was asked for before. -/
  | join {s s' t callers request key make slot} : questions request s = (.ok (key, make), s') →
      t.get? key = some slot →
      Step questions ⟨s, t, callers⟩ [] ⟨s', t, callers ++ [⟨request, key, none⟩]⟩
  /-- A request gets its answer. -/
  | reply {s t before request key after answer} : Table.Answers t key answer →
      Step questions ⟨s, t, before ++ ⟨request, key, none⟩ :: after⟩ [.received key answer]
        ⟨s, t, before ++ ⟨request, key, some answer⟩ :: after⟩
  /-- A computation that was started has its turn. -/
  | work {s s' t t' callers key p p' events} : t.get? key = some (.working p) →
      p.Turn s t events s' t' p' →
      Step questions ⟨s, t, callers⟩ events ⟨s', t'.insert key (.working p'), callers⟩
  /-- A computation that was started is done. -/
  | finish {s t callers key answer} : t.get? key = some (.working (.done answer)) →
      Step questions ⟨s, t, callers⟩ [] ⟨s, t.insert key (.answered answer), callers⟩

/-- Some turns, with what happens in them. -/
inductive Runs (questions : Questions ρ σ κ μ α) (start : Session ρ σ κ μ α) :
    List (Event κ μ α) → Session ρ σ κ μ α → Prop
  | refl : Runs questions start [] start
  | step {trace events s t} : Runs questions start trace s → Step questions s events t →
      Runs questions start (trace ++ events) t

/-- Some turns lead from one session to the other. -/
def Leads (questions : Questions ρ σ κ μ α) (s t : Session ρ σ κ μ α) : Prop :=
  ∃ trace, Runs questions s trace t

end Session

-- ---------------------------------------------------------------------------
-- What a table says about the past
-- ---------------------------------------------------------------------------

namespace Table

open Event

variable {owner : μ → κ} {trace events : List (Event κ μ α)} {t t' : Table σ κ μ α} {key : κ}
  {slot : Slot σ κ μ α} {s s' : σ} {p p' make : Process σ κ μ α} {answer : Result α}
  {heard : List (κ × Result α)}

/-- The marks that the work for a key may still perform. -/
def Open (owner : μ → κ) (trace : List (Event κ μ α)) (key : κ) (mark : μ) : Prop :=
  owner mark = key ∧ mark ∉ performedMarks trace

/-- A table that fits what has happened. -/
structure Fits (owner : μ → κ) (trace : List (Event κ μ α)) (t : Table σ κ μ α) : Prop where
  /-- Work is started at most once. -/
  started : (startedKeys trace).Nodup
  /-- What was started is known. -/
  known : ∀ key ∈ startedKeys trace, t.get? key ≠ none
  /-- A mark is performed at most once. -/
  performed : (performedMarks trace).Nodup
  /-- A mark is performed by the work for its owner. -/
  owned : ∀ mark ∈ performedMarks trace, t.get? (owner mark) ≠ none
  /-- Whoever was given an answer was given the one that is known. -/
  received : ∀ {key answer}, .received key answer ∈ trace → t.Answers key answer
  /-- Work that goes on keeps to its own marks, as far as they were not performed. -/
  working : ∀ {key p}, t.get? key = some (.working p) → p.Lawful owner (Open owner trace key)

/-- What is known stays known. -/
structure Grows (t t' : Table σ κ μ α) : Prop where
  known : ∀ {key}, t.get? key ≠ none → t'.get? key ≠ none
  answers : ∀ {key answer}, t.Answers key answer → t'.Answers key answer

theorem Answers.unique {answer' : Result α} (h : t.Answers key answer)
    (h' : t.Answers key answer') : answer = answer' :=
  Slot.answered.inj (Option.some.inj (h.symm.trans h'))

theorem Grows.refl : t.Grows t := ⟨id, id⟩

theorem Grows.trans {t'' : Table σ κ μ α} (h : t.Grows t') (h' : t'.Grows t'') : t.Grows t'' :=
  ⟨fun hKnown => h'.known (h.known hKnown), fun hAnswer => h'.answers (h.answers hAnswer)⟩

theorem grows_insert (h : ∀ answer, ¬ t.Answers key answer) : t.Grows (t.insert key slot) where
  known {other} hKnown := by
    rw [OrderedMap.get?_insert]
    split
    · exact Option.some_ne_none _
    · exact hKnown
  answers {other answer} hAnswer := by
    have hOther : key ≠ other := by
      rintro rfl
      exact h answer hAnswer
    rw [Answers, OrderedMap.get?_insert, if_neg hOther]
    exact hAnswer

theorem not_answers_of_none (h : t.get? key = none) : ∀ answer, ¬ t.Answers key answer :=
  fun _ hAnswer => nomatch h.symm.trans hAnswer

theorem not_answers_of_working (h : t.get? key = some (.working p)) :
    ∀ answer, ¬ t.Answers key answer :=
  fun _ hAnswer => nomatch h.symm.trans hAnswer

/-- What is put for a key that is not known leaves the other keys as they are. -/
theorem get?_insert_of_none {other : κ} {slot' : Slot σ κ μ α} (hNone : t.get? other = none)
    (hSome : t.get? key = some slot') : (t.insert other slot).get? key = some slot' := by
  have hDiffers : other ≠ key := by
    rintro rfl
    cases hNone.symm.trans hSome
  rw [OrderedMap.get?_insert, if_neg hDiffers, hSome]

/-- What is known stays known in a turn of work that goes on. -/
theorem grows_turn (hTurn : p.Turn s t events s' t' p')
    (hSome : t.get? key = some (.working p)) : t.Grows (t'.insert key (.working p')) := by
  cases hTurn with
  | act => exact grows_insert (not_answers_of_working hSome)
  | start _ hNone =>
    exact (grows_insert (not_answers_of_none hNone)).trans
      (grows_insert (not_answers_of_working (get?_insert_of_none hNone hSome)))
  | hear => exact grows_insert (not_answers_of_working hSome)

theorem fits_empty : Fits owner [] (∅ : Table σ κ μ α) :=
  ⟨List.nodup_nil, nofun, List.nodup_nil, nofun, nofun, nofun⟩

theorem mem_append_singleton {γ : Type} {P : γ → Prop} {l : List γ} {a : γ} (h : ∀ b ∈ l, P b)
    (ha : P a) : ∀ b ∈ l ++ [a], P b :=
  List.forall_mem_append.2 ⟨h, List.forall_mem_singleton.2 ha⟩

namespace Fits

/-- More is known, and nothing has happened. -/
theorem grow (h : Fits owner trace t) (hGrows : t.Grows t')
    (hWorking : ∀ {key p}, t'.get? key = some (.working p) →
      p.Lawful owner (Open owner trace key)) : Fits owner trace t' :=
  ⟨h.started, fun key hMem => hGrows.known (h.known key hMem), h.performed,
    fun mark hMem => hGrows.known (h.owned mark hMem), fun hMem => hGrows.answers (h.received hMem),
    hWorking⟩

/-- Work goes on, or is done. -/
theorem goOn (h : Fits owner trace t) (hWorking : t.get? key = some (.working p))
    (hSlot : ∀ {p'}, slot = .working p' → p'.Lawful owner (Open owner trace key)) :
    Fits owner trace (t.insert key slot) := by
  refine h.grow (grows_insert (not_answers_of_working hWorking)) fun {other p'} hSome => ?_
  rw [OrderedMap.get?_insert] at hSome
  split at hSome
  · rename_i hSame
    subst hSame
    exact hSlot (Option.some.inj hSome)
  · exact h.working hSome

/-- Work is started for a key that is not known. -/
theorem start (h : Fits owner trace t) (hNone : t.get? key = none)
    (hMake : make.Lawful owner (owner · = key)) :
    Fits owner (trace ++ [.started key]) (t.insert key (.working make)) := by
  have hGrows : t.Grows (t.insert key (.working make)) := grows_insert (not_answers_of_none hNone)
  have hNew : key ∉ startedKeys trace := fun hMem => h.known key hMem hNone
  refine ⟨?_, ?_, ?_, ?_, ?_, ?_⟩
  · rw [startedKeys_started, ← List.concat_eq_append]
    exact h.started.concat hNew
  · rw [startedKeys_started]
    exact mem_append_singleton (fun other hMem => hGrows.known (h.known other hMem)) (by simp)
  · rw [performedMarks_started]
    exact h.performed
  · rw [performedMarks_started]
    exact fun mark hMem => hGrows.known (h.owned mark hMem)
  · intro other answer hMem
    exact hGrows.answers (h.received (by simpa using hMem))
  · intro other p hSome
    have hOpen : Open owner (trace ++ [.started key]) other = Open owner trace other := by
      funext mark
      rw [Open, performedMarks_started, Open]
    rw [hOpen]
    rw [OrderedMap.get?_insert] at hSome
    split at hSome
    · rename_i hSame
      subst hSame
      cases hSome
      -- no mark of the key was performed, since the key was not known
      exact hMake.mono fun mark hOwner =>
        ⟨hOwner, fun hMem => h.owned mark hMem (hOwner ▸ hNone)⟩
    · exact h.working hSome

/-- Answers that are known are given. -/
theorem give (h : Fits owner trace t) (hKnown : ∀ pair ∈ heard, t.Answers pair.1 pair.2) :
    Fits owner (trace ++ receivedAll heard) t := by
  refine ⟨?_, ?_, ?_, ?_, ?_, ?_⟩
  · rw [startedKeys_received]
    exact h.started
  · rw [startedKeys_received]
    exact h.known
  · rw [performedMarks_received]
    exact h.performed
  · rw [performedMarks_received]
    exact h.owned
  · intro key answer hMem
    obtain hMem | hMem := List.mem_append.1 hMem
    · exact h.received hMem
    · obtain ⟨pair, hPair, hSame⟩ := List.mem_map.1 hMem
      cases hSame
      exact hKnown pair hPair
  · intro key p hSome
    have hOpen : Open owner (trace ++ receivedAll heard) key = Open owner trace key := by
      funext mark
      rw [Open, performedMarks_received, Open]
    rw [hOpen]
    exact h.working hSome

/-- Work performs a mark. -/
theorem perform {mark : μ} {effect : σ → σ} {next : σ → Process σ κ μ α} (h : Fits owner trace t)
    (hSome : t.get? key = some (.working (.act (some mark) effect next))) :
    Fits owner (trace ++ [.performed mark]) (t.insert key (.working (next s))) := by
  obtain ⟨⟨hOwner, hNew⟩, hNext⟩ := h.working hSome
  have hGrows : t.Grows (t.insert key (.working (next s))) :=
    grows_insert (not_answers_of_working hSome)
  refine ⟨?_, ?_, ?_, ?_, ?_, ?_⟩
  · rw [startedKeys_performed]
    exact h.started
  · rw [startedKeys_performed]
    exact fun other hMem => hGrows.known (h.known other hMem)
  · rw [performedMarks_performed, ← List.concat_eq_append]
    exact h.performed.concat hNew
  · rw [performedMarks_performed]
    exact mem_append_singleton (fun m hMem => hGrows.known (h.owned m hMem)) (by simp [hOwner])
  · intro other answer hMem
    exact hGrows.answers (h.received (by simpa using hMem))
  · intro other p hOther
    rw [OrderedMap.get?_insert] at hOther
    split at hOther
    · rename_i hSame
      subst hSame
      cases hOther
      refine (hNext s).mono fun m hm => ⟨hm.1.1, ?_⟩
      rw [performedMarks_performed]
      exact fun hMem => (List.mem_append.1 hMem).elim hm.1.2 (by simpa using hm.2)
    · rename_i hDiffers
      -- the mark is not one of the other key
      refine (h.working hOther).mono fun m hm => ⟨hm.1, ?_⟩
      rw [performedMarks_performed]
      refine fun hMem => (List.mem_append.1 hMem).elim hm.2 fun hMark => hDiffers ?_
      rw [← hOwner, ← List.mem_singleton.1 hMark, hm.1]

/-- **A turn** of work that goes on. -/
theorem turn (h : Fits owner trace t) (hSome : t.get? key = some (.working p))
    (hTurn : p.Turn s t events s' t' p') :
    Fits owner (trace ++ events) (t'.insert key (.working p')) := by
  cases hTurn with
  | @act mark effect next =>
    cases mark with
    | none =>
      rw [Option.toList_none, List.map_nil, List.append_nil]
      exact h.goOn hSome fun hSame => Slot.working.inj hSame ▸ h.working hSome s
    | some mark => exact h.perform hSome
  | start hWants hNone =>
    rename_i other make
    have hStarted := h.start hNone ((h.working hSome).of_wants hWants)
    have hSame : (t.insert other (.working make)).get? key = some (.working p) :=
      get?_insert_of_none hNone hSome
    exact hStarted.goOn hSame fun hSlot => Slot.working.inj hSlot ▸ hStarted.working hSame
  | hear hHears =>
    have hGiven := h.give hHears.known
    refine hGiven.goOn hSome fun hSlot => ?_
    exact Slot.working.inj hSlot ▸ (hGiven.working hSome).of_hears hHears

end Fits

end Table

-- ---------------------------------------------------------------------------
-- What holds in every session
-- ---------------------------------------------------------------------------

namespace Session

open Table

variable {owner : μ → κ} {questions : Questions ρ σ κ μ α} {trace events : List (Event κ μ α)}
  {s t : Session ρ σ κ μ α} {start : σ}

/-- Every request is about work that keeps to the marks of its key. -/
def Questions.Lawful (owner : μ → κ) (questions : Questions ρ σ κ μ α) : Prop :=
  ∀ {request s key make s'}, questions request s = (.ok (key, make), s') →
    make.Lawful owner (owner · = key)

/-- What is known stays known in a turn. -/
theorem Step.grows (hStep : Step questions s events t) : s.table.Grows t.table := by
  cases hStep with
  | disturb => exact .refl
  | refuse => exact .refl
  | first _ hNone => exact grows_insert (not_answers_of_none hNone)
  | join => exact .refl
  | reply => exact .refl
  | work hSome hTurn => exact grows_turn hTurn hSome
  | finish hSome => exact grows_insert (not_answers_of_working hSome)

theorem Runs.trans {trace' : List (Event κ μ α)} {u : Session ρ σ κ μ α}
    (h : Runs questions s trace t) (h' : Runs questions t trace' u) :
    Runs questions s (trace ++ trace') u := by
  induction h' with
  | refl => exact (List.append_nil trace).symm ▸ h
  | step _ hStep ih => exact List.append_assoc .. ▸ ih.step hStep

theorem Leads.refl : Leads questions s s := ⟨[], .refl⟩

theorem Leads.trans {u : Session ρ σ κ μ α} (h : Leads questions s t) (h' : Leads questions t u) :
    Leads questions s u :=
  h.elim fun _ hRuns => h'.elim fun _ hRuns' => ⟨_, hRuns.trans hRuns'⟩

theorem Leads.step {u : Session ρ σ κ μ α} (h : Leads questions s t)
    (hStep : Step questions t events u) : Leads questions s u :=
  h.elim fun _ hRuns => ⟨_, hRuns.step hStep⟩

/-- What is known stays known. -/
theorem Leads.grows (h : Leads questions s t) : s.table.Grows t.table := by
  obtain ⟨trace, hRuns⟩ := h
  induction hRuns with
  | refl => exact .refl
  | step _ hStep ih => exact ih.trans hStep.grows

/-- A session that fits what has happened. -/
structure Sound (questions : Questions ρ σ κ μ α) (owner : μ → κ) (trace : List (Event κ μ α))
    (s : Session ρ σ κ μ α) : Prop where
  fits : Fits owner trace s.table
  /-- Whoever waits asked for the key. -/
  asked : ∀ c ∈ s.callers, ∃ state make state',
    questions c.request state = (.ok (c.key, make), state')
  /-- Whoever has an answer has the one that is known by the key. -/
  callers : ∀ c ∈ s.callers, ∀ {answer}, c.answer = some answer → s.table.Answers c.key answer

theorem sound_fresh : Sound questions owner [] (fresh start) := ⟨fits_empty, nofun, nofun⟩

/-- **A turn in a session** keeps it sound. -/
theorem Sound.step (hLawful : Questions.Lawful owner questions) (h : Sound questions owner trace s)
    (hStep : Step questions s events t) : Sound questions owner (trace ++ events) t := by
  have hKept : ∀ c ∈ s.callers, ∀ {answer}, c.answer = some answer → t.table.Answers c.key answer :=
    fun c hMem _ hAnswer => hStep.grows.answers (h.callers c hMem hAnswer)
  cases hStep with
  | disturb =>
    rw [List.append_nil]
    exact ⟨h.fits, h.asked, hKept⟩
  | refuse =>
    rw [List.append_nil]
    exact ⟨h.fits, h.asked, hKept⟩
  | first hQuestion hNone =>
    exact ⟨h.fits.start hNone (hLawful hQuestion),
      mem_append_singleton h.asked ⟨_, _, _, hQuestion⟩, mem_append_singleton hKept nofun⟩
  | join hQuestion =>
    rw [List.append_nil]
    exact ⟨h.fits, mem_append_singleton h.asked ⟨_, _, _, hQuestion⟩,
      mem_append_singleton hKept nofun⟩
  | @reply _ t _ _ key _ answer hAnswer =>
    have hKnown : ∀ pair ∈ [(key, answer)], t.Answers pair.1 pair.2 :=
      List.forall_mem_singleton.2 hAnswer
    obtain ⟨hBeforeAsked, hRestAsked⟩ := List.forall_mem_append.1 h.asked
    obtain ⟨hCallerAsked, hAfterAsked⟩ := List.forall_mem_cons.1 hRestAsked
    obtain ⟨hBefore, hRest⟩ := List.forall_mem_append.1 hKept
    refine ⟨h.fits.give hKnown, List.forall_mem_append.2 ⟨hBeforeAsked,
      List.forall_mem_cons.2 ⟨hCallerAsked, hAfterAsked⟩⟩, List.forall_mem_append.2 ⟨hBefore,
        List.forall_mem_cons.2 ⟨?_, (List.forall_mem_cons.1 hRest).2⟩⟩⟩
    intro answer hSome
    cases hSome
    exact hAnswer
  | work hSome hTurn =>
    exact ⟨h.fits.turn hSome hTurn, h.asked, hKept⟩
  | finish hSome =>
    rw [List.append_nil]
    exact ⟨h.fits.goOn hSome nofun, h.asked, hKept⟩

/-- **Every session is sound.** -/
theorem sound_of_runs (hLawful : Questions.Lawful owner questions)
    (h : Runs questions (fresh start) trace s) : Sound questions owner trace s := by
  induction h with
  | refl => exact sound_fresh
  | step _ hStep ih => exact ih.step hLawful hStep

end Session

end Jarsmith
