import Jarsmith.Proofs.Pool.Edit
import Jarsmith.Proofs.Pool.Layout

/-!
# Runs of a pool

A pool under any sequence of operations, whether each of them succeeds or fails. What an operation
does to a pool is said once, by the relation `Evolves`; everything that holds after a run follows
from it.

* `Evolves` — old slots stay as they are, up to a named one, and the layout and the tables stay
  right.
* `Operation.evolves` — what one operation does, whatever its outcome.
* `internText_again`, `internClass_again`, `internNameAndType_again` — what was interned is found
  again.
* `lawful_run` — what holds after every run.
* `toBytes_crowded` — a class file whose pool has one slot too many from the start.
-/

namespace Jarsmith

open Outcome Reader

namespace Pool

variable {α β : Type} {p q r : Pool} {index : UInt16} {c : Constant}

-- ---------------------------------------------------------------------------
-- What an operation leaves behind
-- ---------------------------------------------------------------------------

/-- The pool after an edit, whatever its outcome. -/
def after (x : Edit α) (pool : Pool) : Pool := (x.run.run pool).2

theorem after_of_yields {x : Edit α} {a : α} (h : Yields x p a q) : after x p = q :=
  congrArg Prod.snd h

/-- From `p` to `q` the slots of `p` stay as they are, but for the `named` one, no more slots are
added than a pool may have, and the layout and the tables stay right. -/
structure Evolves (named : Option UInt16) (p q : Pool) : Prop where
  size_le : p.size ≤ q.size
  size_bound : q.size ≤ max maxSize p.size
  kept : ∀ {j : Nat}, j < p.size → (∀ i ∈ named, i.toNat ≠ j) → q.entries[j]? = p.entries[j]?
  sound : p.Sound → q.Sound
  laid : p.Laid → q.Laid

theorem Evolves.refl {named : Option UInt16} : Evolves named p p where
  size_le := Nat.le_refl _
  size_bound := Nat.le_max_right _ _
  kept _ _ := rfl
  sound := id
  laid := id

theorem Evolves.trans (h : Evolves none p q) (h' : Evolves none q r) : Evolves none p r where
  size_le := Nat.le_trans h.size_le h'.size_le
  size_bound := by
    have hFirst := h.size_bound
    have hSecond := h'.size_bound
    omega
  kept {j} hj hNamed := by
    rw [h'.kept (Nat.lt_of_lt_of_le hj h.size_le) hNamed, h.kept hj hNamed]
  sound hSound := h'.sound (h.sound hSound)
  laid hLaid := h'.laid (h.laid hLaid)

/-- What could be viewed can be viewed afterwards. -/
theorem Evolves.text (h : Evolves none p q) {s : String} (hText : p.text index = .ok s) :
    q.text index = .ok s := by
  obtain ⟨raw, hFind, hRaw⟩ := text_eq_ok.1 hText
  have hSame := h.kept (lt_size_of_find? hFind) nofun
  refine text_eq_ok.2 ⟨raw, ?_, hRaw⟩
  rw [find?_eq_some, hSame, ← find?_eq_some]
  exact hFind

theorem evolves_append (hRoom : p.size + c.width ≤ maxSize) (hUsable : c ≠ .unusable)
    (hFits : c.TextFits) : Evolves none p (p.append c) where
  size_le := by
    rw [size_append]
    exact Nat.le_add_right _ _
  size_bound := by
    rw [size_append]
    exact Nat.le_trans hRoom (Nat.le_max_left _ _)
  kept hj _ := entries_append_old hj
  sound hSound := by
    unfold maxSize at hRoom
    exact sound_append hSound (by omega)
  laid hLaid := laid_append hLaid hUsable hFits

theorem evolves_replaced {old : Constant} (hOld : p.find? index = some old)
    (hText : ∀ raw, old ≠ .utf8 raw) (hWidth : old.isWide = c.isWide) (hUsable : c ≠ .unusable)
    (hFits : c.TextFits) : Evolves (some index) p (p.replaced index old c) where
  size_le := Nat.le_of_eq size_replaced.symm
  size_bound := by
    rw [size_replaced]
    exact Nat.le_max_right _ _
  kept _ hNamed := entries_replaced_ne (hNamed index rfl).symm
  sound hSound := sound_replaced hSound hOld hText
  laid hLaid := laid_replaced hLaid hOld hWidth hUsable hFits

-- ---------------------------------------------------------------------------
-- Edits that only extend the pool
-- ---------------------------------------------------------------------------

/-- A pool without room stays as it is. -/
theorem after_add_full (hFull : ¬ p.size + c.width ≤ maxSize) : after (add c) p = p := by
  rw [← length_slotsOf] at hFull
  show after (if p.size + (slotsOf c).length ≤ maxSize then
    (do modify (·.append c); pure (UInt16.ofNat p.size)) else throw .poolOverflow) p = p
  rw [if_neg hFull]
  rfl

/-- Whatever its outcome, the edit changes no slot that was there. -/
def Extending (x : Edit α) : Prop := ∀ p, Evolves none p (after x p)

namespace Extending

protected theorem pure {a : α} : Extending (pure a) := fun _ => .refl

/-- A step that fails leaves behind what it did; the next step goes on from there otherwise. -/
protected theorem bind {x : Edit α} {f : α → Edit β} (hx : Extending x)
    (hf : ∀ a, Extending (f a)) : Extending (x >>= f) := by
  intro p
  have hFirst := hx p
  unfold after at hFirst ⊢
  simp only [ExceptT.run_bind, StateT.run_bind]
  generalize x.run.run p = first at hFirst ⊢
  rcases first with ⟨e | a, r⟩
  · exact hFirst
  · exact hFirst.trans (hf a r)

/-- A step that looks at the pool, before a step that extends it for every pool. -/
protected theorem looking {f : Pool → Edit β} (hf : ∀ pool, Extending (f pool)) :
    Extending (getThe Pool >>= f) := fun p => hf p p

/-- A step that asks, before a step that extends the pool for every answer. -/
protected theorem asking {x : ClassResult α} {f : α → Edit β}
    (hf : ∀ a, x = .ok a → Extending (f a)) : Extending (liftM x >>= f) := by
  intro p
  cases x with
  | ok a => exact hf a rfl p
  | error e => exact .refl

protected theorem add (hUsable : c ≠ .unusable) (hFits : c.TextFits) : Extending (add c) := by
  intro p
  by_cases hRoom : p.size + c.width ≤ maxSize
  · rw [after_of_yields (yields_add.2 ⟨hRoom, rfl, rfl⟩)]
    exact evolves_append hRoom hUsable hFits
  · rw [after_add_full hRoom]
    exact .refl

protected theorem internText {s : String} : Extending (internText s) := by
  refine .looking fun pool => ?_
  split
  · exact .pure
  · refine .asking fun length hLength => .add nofun ?_
    exact (count16_eq_ok.1 hLength).1

protected theorem internClass {s : String} : Extending (internClass s) := by
  refine .bind .internText fun name => .looking fun pool => ?_
  split
  · exact .pure
  · exact .add nofun trivial

protected theorem internNameAndType {s t : String} : Extending (internNameAndType s t) := by
  refine .bind .internText fun name => .bind .internText fun descriptor => .looking fun pool => ?_
  split
  · exact .pure
  · exact .add nofun trivial

end Extending

theorem run_reading (f : Pool → ClassResult α) : (reading f).run.run p = (f p, p) := by
  unfold reading
  simp only [ExceptT.run_bind, StateT.run_bind]
  change StateT.run (ExceptT.run _) p = _
  cases f p <;> rfl

/-- A constant that is not replaced stays, and so does everything else. -/
theorem after_replaceAt_fault {fault : ClassFault}
    (h : (replaceAt index c).run.run p = (.error fault, q)) : q = p := by
  unfold replaceAt at h
  simp only [ExceptT.run_bind, StateT.run_bind, run_reading] at h
  cases hOld : p.get index with
  | error e =>
    rw [hOld] at h
    exact (congrArg Prod.snd h).symm
  | ok old =>
    rw [hOld] at h
    change StateT.run (ExceptT.run (ite _ _ _)) p = _ at h
    generalize (_ || old.isWide != c.isWide) = refused at h
    cases refused with
    | true => exact (congrArg Prod.snd h).symm
    | false => cases h

/-- A constant is replaced by one that can be used and written, or nothing happens. -/
theorem evolves_replaceAt (hUsable : c ≠ .unusable) (hFits : c.TextFits) :
    Evolves (some index) p (after (replaceAt index c) p) := by
  rcases hOutcome : (replaceAt index c).run.run p with ⟨fault | u, q⟩
  · have hSame : after (replaceAt index c) p = q := congrArg Prod.snd hOutcome
    rw [hSame, after_replaceAt_fault hOutcome]
    exact .refl
  · obtain ⟨old, hOld, hText, hWidth, rfl⟩ := yields_replaceAt.1 hOutcome
    rw [after_of_yields hOutcome]
    exact evolves_replaced hOld hText hWidth hUsable hFits

-- ---------------------------------------------------------------------------
-- Asking again
-- ---------------------------------------------------------------------------

/-- A table learns a value that it does not know. -/
theorem insertIfNew_unknown {κ : Type} [BEq κ] [Hashable κ] [LawfulBEq κ] [LawfulHashable κ]
    {table : Std.HashMap κ UInt16} {key : κ} (hNone : table[key]? = none) :
    (table.insertIfNew key index)[key]? = some index := by
  have hUnknown : key ∉ table := fun hMem => by
    rw [Std.HashMap.mem_iff_isSome_getElem?, hNone] at hMem
    cases hMem
  rw [Std.HashMap.getElem?_insertIfNew, if_pos ⟨BEq.rfl, hUnknown⟩]

/-- A text that the pool has got stands where the pool finds it. -/
theorem utf8s_internText {s : String} (h : Yields (internText s) p index q) :
    q.utf8s[ModifiedUtf8.encode s]? = some index := by
  unfold internText at h
  extract_lets raw at h
  obtain ⟨_, _, hGet, h⟩ := yields_bind.1 h
  obtain ⟨rfl, rfl⟩ := yields_getThe.1 hGet
  split at h
  · rename_i found hFound
    obtain ⟨rfl, rfl⟩ := yields_pure.1 h
    exact hFound
  · rename_i hNone
    obtain ⟨_, _, hCount, h⟩ := yields_bind.1 h
    obtain ⟨-, rfl⟩ := yields_liftM.1 hCount
    obtain ⟨-, rfl, rfl⟩ := yields_add.1 h
    rw [(p.tables_append _).1]
    exact insertIfNew_unknown hNone

/-- A text that is known stays where it was found. -/
theorem utf8s_append {raw : Bytes} (h : p.utf8s[raw]? = some index) :
    (p.append c).utf8s[raw]? = some index := by
  rw [(p.tables_append c).1]
  cases c with
  | utf8 other =>
    have hMem : raw ∈ p.utf8s := Std.HashMap.mem_iff_isSome_getElem?.2 (by rw [h]; rfl)
    rw [learn, Std.HashMap.getElem?_insertIfNew, if_neg]
    · exact h
    · rintro ⟨hSame, hNew⟩
      rw [eq_of_beq hSame] at hNew
      exact hNew hMem
  | _ => exact h

theorem utf8s_of_internText {s : String} {raw : Bytes} {i : UInt16}
    (h : Yields (internText s) p index q) (hKnown : p.utf8s[raw]? = some i) :
    q.utf8s[raw]? = some i := by
  unfold internText at h
  extract_lets at h
  obtain ⟨_, _, hGet, h⟩ := yields_bind.1 h
  obtain ⟨rfl, rfl⟩ := yields_getThe.1 hGet
  split at h
  · obtain ⟨-, rfl⟩ := yields_pure.1 h
    exact hKnown
  · obtain ⟨_, _, hCount, h⟩ := yields_bind.1 h
    obtain ⟨-, rfl⟩ := yields_liftM.1 hCount
    obtain ⟨-, -, rfl⟩ := yields_add.1 h
    exact utf8s_append hKnown

/-- A text that was asked for stands at the index that came back, and is found there again. -/
theorem internText_again (hSound : p.Sound) {s : String} (h : Yields (internText s) p index q) :
    q.text index = .ok s ∧ Yields (internText s) q index q :=
  ⟨(internText_spec hSound h).2.2, yields_internText_found (utf8s_internText h)⟩

/-- A class that was asked for stands at the index that came back, and is found there again. -/
theorem internClass_again (hSound : p.Sound) {s : String} (h : Yields (internClass s) p index q) :
    q.className index = .ok s ∧ Yields (internClass s) q index q := by
  unfold internClass at h
  obtain ⟨name, p₁, hName, h⟩ := yields_bind.1 h
  obtain ⟨hSound₁, -, hText⟩ := internText_spec hSound hName
  have hKnown := utf8s_internText hName
  obtain ⟨_, _, hGet, h⟩ := yields_bind.1 h
  obtain ⟨rfl, rfl⟩ := yields_getThe.1 hGet
  split at h
  · rename_i found hFound
    obtain ⟨rfl, rfl⟩ := yields_pure.1 h
    exact ⟨className_eq_ok.2 ⟨name, hSound₁.classes hFound, hText⟩,
      yields_internClass_found hKnown hFound⟩
  · rename_i hNone
    obtain ⟨hRoom, rfl, rfl⟩ := yields_add.1 h
    have hEvolves : Evolves none p₁ (p₁.append (.classRef name)) :=
      evolves_append hRoom nofun trivial
    have hFound : (p₁.append (.classRef name)).classes[name]? = some (UInt16.ofNat p₁.size) := by
      rw [(p₁.tables_append _).2.1]
      exact insertIfNew_unknown hNone
    exact ⟨className_eq_ok.2 ⟨name, (hEvolves.sound hSound₁).classes hFound, hEvolves.text hText⟩,
      yields_internClass_found (utf8s_append hKnown) hFound⟩

/-- A pair that was asked for stands at the index that came back, and is found there again. -/
theorem internNameAndType_again (hSound : p.Sound) {s t : String}
    (h : Yields (internNameAndType s t) p index q) :
    q.nameAndType index = .ok (s, t) ∧ Yields (internNameAndType s t) q index q := by
  refine ⟨(internNameAndType_spec hSound h).2.2, ?_⟩
  unfold internNameAndType at h
  obtain ⟨name, p₁, hName, h⟩ := yields_bind.1 h
  obtain ⟨descriptor, p₂, hDescriptor, h⟩ := yields_bind.1 h
  have hName₂ := utf8s_of_internText hDescriptor (utf8s_internText hName)
  have hDescriptor₂ := utf8s_internText hDescriptor
  obtain ⟨_, _, hGet, h⟩ := yields_bind.1 h
  obtain ⟨rfl, rfl⟩ := yields_getThe.1 hGet
  split at h
  · rename_i found hFound
    obtain ⟨rfl, rfl⟩ := yields_pure.1 h
    exact yields_internNameAndType_found hName₂ hDescriptor₂ hFound
  · rename_i hNone
    obtain ⟨-, rfl, rfl⟩ := yields_add.1 h
    refine yields_internNameAndType_found (utf8s_append hName₂) (utf8s_append hDescriptor₂) ?_
    rw [(p₂.tables_append _).2.2]
    exact insertIfNew_unknown hNone

-- ---------------------------------------------------------------------------
-- Runs
-- ---------------------------------------------------------------------------

/-- An operation on a pool. -/
inductive Operation where
  | add (constant : Constant)
  | replaceAt (index : UInt16) (constant : Constant)
  | internText (text : String)
  | internClass (name : String)
  | internNameAndType (name descriptor : String)

namespace Operation

/-- The pool after the operation, whether it succeeded or failed. -/
def after : Operation → Pool → Pool
  | add constant, pool => Pool.after (Pool.add constant) pool
  | replaceAt index constant, pool => Pool.after (Pool.replaceAt index constant) pool
  | internText text, pool => Pool.after (Pool.internText text) pool
  | internClass name, pool => Pool.after (Pool.internClass name) pool
  | internNameAndType name descriptor, pool =>
    Pool.after (Pool.internNameAndType name descriptor) pool

/-- The constant that the operation is given, if any, can be used and written. -/
def IsAllowed : Operation → Prop
  | add constant | replaceAt _ constant => constant ≠ .unusable ∧ constant.TextFits
  | _ => True

instance : DecidablePred IsAllowed := fun o => by
  cases o <;> unfold IsAllowed <;> infer_instance

/-- The slot that the operation names. -/
def named : Operation → Option UInt16
  | replaceAt index _ => some index
  | _ => none

/-- **What one operation does**, whatever its outcome. -/
theorem evolves {o : Operation} (hAllowed : o.IsAllowed) (pool : Pool) :
    Evolves o.named pool (o.after pool) := by
  cases o with
  | add constant => exact Extending.add hAllowed.1 hAllowed.2 pool
  | replaceAt index constant => exact evolves_replaceAt hAllowed.1 hAllowed.2
  | internText text => exact Extending.internText pool
  | internClass name => exact Extending.internClass pool
  | internNameAndType name descriptor => exact Extending.internNameAndType pool

end Operation

/-- What holds of a pool at every time. -/
structure Lawful (pool : Pool) : Prop where
  sound : pool.Sound
  laid : pool.Laid
  /-- No operation changes a slot that it does not name. -/
  kept : ∀ o : Operation, o.IsAllowed → ∀ j < pool.size, (∀ i ∈ o.named, i.toNat ≠ j) →
    (o.after pool).entries[j]? = pool.entries[j]?
  text : ∀ s i q, Yields (internText s) pool i q → q.text i = .ok s ∧ Yields (internText s) q i q
  className : ∀ s i q, Yields (internClass s) pool i q →
    q.className i = .ok s ∧ Yields (internClass s) q i q
  nameAndType : ∀ s t i q, Yields (internNameAndType s t) pool i q →
    q.nameAndType i = .ok (s, t) ∧ Yields (internNameAndType s t) q i q

theorem Lawful.of_laid (hSound : p.Sound) (hLaid : p.Laid) : p.Lawful where
  sound := hSound
  laid := hLaid
  kept _ hAllowed _ hj hNamed := (Operation.evolves hAllowed p).kept hj hNamed
  text _ _ _ h := internText_again hSound h
  className _ _ _ h := internClass_again hSound h
  nameAndType _ _ _ _ h := internNameAndType_again hSound h

/-- The pool after operations one after the other, each of which may fail. -/
def run (operations : List Operation) (pool : Pool) : Pool :=
  operations.foldl (fun pool operation => operation.after pool) pool

/-- What a run keeps: soundness, layout, every slot, and the bound on the number of slots. -/
theorem run_keeps {operations : List Operation} (hAllowed : ∀ o ∈ operations, o.IsAllowed)
    (hSound : p.Sound) (hLaid : p.Laid) :
    (run operations p).Sound ∧ (run operations p).Laid ∧ p.size ≤ (run operations p).size ∧
      (run operations p).size ≤ max maxSize p.size := by
  induction operations generalizing p with
  | nil => exact ⟨hSound, hLaid, Nat.le_refl _, Nat.le_max_right _ _⟩
  | cons o more ih =>
    obtain ⟨hFirst, hMore⟩ := List.forall_mem_cons.1 hAllowed
    have hStep := Operation.evolves hFirst p
    obtain ⟨hSound', hLaid', hGrown, hBound⟩ := ih hMore (hStep.sound hSound) (hStep.laid hLaid)
    have hStepGrown := hStep.size_le
    have hStepBound := hStep.size_bound
    exact ⟨hSound', hLaid', Nat.le_trans hStepGrown hGrown, Nat.le_trans hBound (by omega)⟩

/-- Where a run starts. -/
inductive Start where
  | empty
  | classFile (bytes : Bytes) (c : ClassFile) (hParse : ClassFile.parse bytes = .ok c)

namespace Start

def pool : Start → Pool
  | empty => Pool.empty
  | classFile _ c _ => c.pool

/-- The class file announces as many slots as a pool may have, and a wide constant starts in the
last one. -/
def IsCrowded : Start → Prop
  | empty => False
  | classFile bytes c _ =>
    ClassFile.announcedSlots bytes = maxSize ∧ ¬ ClassFile.EndsInside bytes c.pool

theorem sound (start : Start) : start.pool.Sound := by
  cases start with
  | empty => exact sound_empty
  | classFile bytes c hParse => exact ClassFile.sound_decode (ClassFile.decode_of_parse hParse)

theorem laid (start : Start) : start.pool.Laid := by
  cases start with
  | empty => exact laid_empty
  | classFile bytes c hParse => exact ClassFile.laid_parse hParse

theorem size_le {start : Start} (hRoom : ¬ start.IsCrowded) : start.pool.size ≤ maxSize := by
  cases start with
  | empty => exact Nat.le_of_lt_succ (by decide)
  | classFile bytes c hParse =>
    have hLt := ClassFile.announcedSlots_lt hParse
    have hNot : ¬ (ClassFile.announcedSlots bytes = 65535 ∧ ¬ ClassFile.EndsInside bytes c.pool) :=
      hRoom
    show c.pool.size ≤ 65535
    rcases ClassFile.size_parse hParse with hSize | ⟨hSize, hCrowded⟩
    · omega
    · have hAnnounced : ClassFile.announcedSlots bytes ≠ 65535 := fun h => hNot ⟨h, hCrowded⟩
      omega

theorem size_of_isCrowded {start : Start} (hCrowded : start.IsCrowded) :
    start.pool.size = maxSize + 1 := by
  cases start with
  | empty => exact hCrowded.elim
  | classFile bytes c hParse =>
    obtain ⟨hAnnounced, hOutside⟩ := hCrowded
    rcases ClassFile.size_parse hParse with hSize | ⟨hSize, -⟩
    · -- the slot behind a wide constant in the last slot would be missing
      exfalso
      refine hOutside fun k hLast => ?_
      by_contra hWide
      rw [Bool.not_eq_false] at hWide
      have hBehind := (ClassFile.laid_parse hParse).behind hLast hWide
      have hLt : ClassFile.announcedSlots bytes - 1 + 1 < c.pool.size :=
        (Array.getElem?_eq_some_iff.1 hBehind).1
      omega
    · rw [← hAnnounced]
      exact hSize

end Start

theorem toBytes_of_overfull (hSize : maxSize < p.size) :
    p.toBytes = .error (.tooMany "constants") := by
  have hCount : count16 p.size "constants" = .error (.tooMany "constants") :=
    if_neg (Nat.not_lt.2 hSize)
  rw [toBytes, hCount]
  rfl

/-- **Every run keeps a pool lawful**, wherever it starts and whichever operations fail. The pool
never gets more slots than its number can say, so it can be written. A class file can bring one slot
too many along, the second half of a wide constant that starts in the last slot; such a pool never
gets another slot and cannot be written. -/
theorem lawful_run (start : Start) {operations : List Operation}
    (hAllowed : ∀ o ∈ operations, o.IsAllowed) :
    (run operations start.pool).Lawful ∧
      (¬ start.IsCrowded → (run operations start.pool).size ≤ maxSize ∧
        ∃ bytes, (run operations start.pool).toBytes = .ok bytes) ∧
      (start.IsCrowded → (run operations start.pool).size = maxSize + 1 ∧
        (run operations start.pool).toBytes = .error (.tooMany "constants")) := by
  obtain ⟨hSound, hLaid, hGrown, hBound⟩ := run_keeps hAllowed start.sound start.laid
  refine ⟨.of_laid hSound hLaid, fun hRoom => ?_, fun hCrowded => ?_⟩
  · have hStart := start.size_le hRoom
    have hSize : (run operations start.pool).size ≤ maxSize := by omega
    exact ⟨hSize, exists_toBytes hLaid (Nat.lt_succ_of_le hSize)⟩
  · have hStart := start.size_of_isCrowded hCrowded
    have hSize : (run operations start.pool).size = maxSize + 1 := by omega
    exact ⟨hSize, toBytes_of_overfull (by omega)⟩

/-- Operations of which three fail on the pool of `ClassFile.wideConstant`: a text is not replaced,
nor is a constant by a wider one, and nothing stands behind a wide constant. -/
def mixedOperations : List Operation :=
  [.replaceAt 2 (.string 1), .internClass "a", .replaceAt 1 (.string 1), .replaceAt 2 (.long 1),
    .replaceAt 4 (.string 1), .add (.double 7), .internNameAndType "a" "I"]

theorem lawful_run_wideConstant :
    ∃ hParse : ClassFile.parse ClassFile.wideConstantBytes = .ok ClassFile.wideConstant,
      (∀ o ∈ mixedOperations, o.IsAllowed) ∧ ¬ (Start.classFile _ _ hParse).IsCrowded ∧
        (run mixedOperations ClassFile.wideConstant.pool).Lawful ∧
        ∃ bytes, (run mixedOperations ClassFile.wideConstant.pool).toBytes = .ok bytes := by
  have hParse : ClassFile.parse ClassFile.wideConstantBytes = .ok ClassFile.wideConstant := rfl
  have hAllowed : ∀ o ∈ mixedOperations, o.IsAllowed := by decide
  have hRoom : ¬ (Start.classFile _ _ hParse).IsCrowded := fun hCrowded =>
    absurd hCrowded.1 (by decide)
  obtain ⟨hLawful, hUsual, -⟩ := lawful_run (.classFile _ _ hParse) hAllowed
  exact ⟨hParse, hAllowed, hRoom, hLawful, (hUsual hRoom).2⟩

-- ---------------------------------------------------------------------------
-- A pool with one slot too many
-- ---------------------------------------------------------------------------

/-- A text, and `n` references to the class that it names. -/
def classRefs (n : Nat) : List Constant := .utf8 [97] :: List.replicate n (.classRef 1)

/-- A class with `n` references to itself in its pool, and a long behind them. -/
def crowded (n : Nat) : ClassFile :=
  ⟨0, 52, ofConstants (classRefs n ++ [.long 7]), 0x21, 2, none, [], [], [], []⟩

/-- The class file that announces only the first of the two slots of the long. -/
def crowdedBytes (n : Nat) : Bytes :=
  ClassFile.magic ++ [0, 0, 0, 52] ++ putU16 (UInt16.ofNat (n + 3)) ++
    (classRefs n).flatMap Constant.written ++ (Constant.long 7).written ++
    [0, 0x21, 0, 2, 0, 0, 0, 0, 0, 0, 0, 0, 0, 0]

theorem fits_classRefs (n : Nat) : ∀ k ∈ classRefs n, k.Fits := by
  intro k hk
  rcases List.mem_cons.1 hk with rfl | hk
  · exact ⟨by decide, by decide⟩
  · obtain rfl := List.eq_of_mem_replicate hk
    show (1 : UInt16) ≠ 0
    decide

theorem slots_classRefs (n : Nat) : ((classRefs n).flatMap slotsOf).length = n + 1 := by
  simp [classRefs, slotsOf, Constant.isWide, List.length_flatMap]

theorem size_crowded (n : Nat) : (crowded n).pool.size = n + 4 := by
  rw [crowded, size_ofConstants, List.flatMap_append, List.length_append, slots_classRefs]
  rfl

theorem read_crowded {n : Nat} (hBound : n + 3 < 65536) (rest : Bytes) :
    read (putU16 (UInt16.ofNat (n + 3)) ++
      ((classRefs n).flatMap Constant.written ++ ((Constant.long 7).written ++ rest))) =
      some ((crowded n).pool, rest) := by
  have hCount : (UInt16.ofNat (n + 3)).toNat = n + 3 := UInt16.toNat_ofNat_of_lt' hBound
  have hLast : Constant.readMany 1 ((Constant.long 7).written ++ rest) =
      some ([.long 7], rest) := by
    rw [Constant.readMany]
    refine bind_eq_some.2 ⟨.long 7, rest, Constant.read_written trivial, ?_⟩
    exact pure_eq_some.2 ⟨rfl, rfl⟩
  have hAll := Constant.readMany_append (fits_classRefs n) hLast
  rw [slots_classRefs] at hAll
  refine bind_eq_some.2 ⟨_, _, reads_u16.eq_some.2 ⟨trivial, rfl⟩, ?_⟩
  rw [if_neg]
  · rw [hCount]
    exact map_eq_some.2 ⟨_, hAll, rfl⟩
  · intro hZero
    rw [hZero] at hCount
    cases hCount

theorem fits_crowded (n : Nat) : (crowded n).Fits := by
  have hEmpty : 0 < 65536 := by decide
  refine ⟨⟨hEmpty, ⟨hEmpty, nofun⟩, ⟨hEmpty, nofun⟩, ⟨hEmpty, nofun⟩⟩, ?_, nofun, nofun⟩
  show (2 : UInt16) ≠ 0
  decide

theorem name_crowded (n : Nat) : (crowded (n + 1)).name = .ok "a" := by
  have hEntries : (crowded (n + 1)).pool.entries.toList = .unusable :: .utf8 [97] :: .classRef 1 ::
      (List.replicate n (Constant.classRef 1) ++ [Constant.long 7]).flatMap slotsOf := by
    rw [crowded, entries_ofConstants, classRefs, List.replicate_succ]
    rfl
  have hText : (crowded (n + 1)).pool.text 1 = .ok "a" := by
    refine text_eq_ok.2 ⟨[97], find?_eq_some.2 ⟨?_, nofun⟩, by decide +kernel⟩
    rw [← Array.getElem?_toList, hEntries]
    rfl
  refine className_eq_ok.2 ⟨1, find?_eq_some.2 ⟨?_, nofun⟩, hText⟩
  rw [← Array.getElem?_toList, hEntries]
  rfl

theorem parse_crowded {n : Nat} (hBound : n + 4 < 65536) :
    ClassFile.parse (crowdedBytes (n + 1)) = .ok (crowded (n + 1)) := by
  have hFront : [0, 0, 0, 52] = putU16 0 ++ putU16 52 := by decide
  have hBehind : (crowded (n + 1)).behindPool = [0, 0x21, 0, 2, 0, 0, 0, 0, 0, 0, 0, 0, 0, 0] := by
    show putU16 0x21 ++ putU16 2 ++ putIndex? none ++ tableBytes putU16 [] ++
      tableBytes Member.written [] ++ tableBytes Member.written [] ++
      tableBytes Attribute.written [] = _
    decide
  have hDecode : ClassFile.decode (crowdedBytes (n + 1)) = .ok (crowded (n + 1)) := by
    refine ClassFile.decode_eq_ok.2 (ClassFile.read_eq_some.2
      ⟨fits_crowded _, _, ?_, read_crowded hBound _⟩)
    simp only [crowdedBytes, List.append_assoc, hFront, hBehind, List.append_nil]
    rfl
  rw [ClassFile.parse, hDecode]
  exact bind_ok_iff.2 ⟨_, rfl, bind_ok_iff.2 ⟨_, name_crowded n, rfl⟩⟩

/-- A class file that is accepted, with a pool that has more slots than their number can say and
cannot be written. -/
theorem toBytes_crowded :
    ClassFile.parse (crowdedBytes 65532) = .ok (crowded 65532) ∧
      (crowded 65532).pool.size = 65536 ∧
      (crowded 65532).pool.toBytes = .error (.tooMany "constants") := by
  have hSize : (crowded 65532).pool.size = 65536 := size_crowded 65532
  refine ⟨parse_crowded (by decide), hSize, toBytes_of_overfull ?_⟩
  rw [hSize]
  decide

end Pool

end Jarsmith
