import Jarsmith.Proofs.ClassFile.Descriptor
import Mathlib.Algebra.GroupWithZero.Nat

/-!
# The local variables of parameters

The parameters of a method stand in its first local variables, one behind another. The slots are
counted in 16 bits, while a descriptor may name more parameters than that: a layout is exact as long
as the parameters end below slot 65536, and wraps around behind it.

* `FieldType.width` — the local variables that a value takes.
* `Descriptor.LaidOut` — every parameter starts where those before it end.
* `Descriptor.layout_spec` — what the layout of a descriptor is, and when it is exact.
-/

namespace Jarsmith

open Outcome

namespace FieldType

/-- The local variables that a value takes: two if the type is written `J` or `D`, else one. -/
def width (t : FieldType) : Nat := if t.toChars = ['J'] ∨ t.toChars = ['D'] then 2 else 1

/-- The local variables that values of some types take together. -/
def totalWidth (types : List FieldType) : Nat := (types.map width).sum

theorem width_pos (t : FieldType) : 0 < t.width := by
  unfold width
  split <;> decide

theorem toNat_slots (t : FieldType) : t.slots.toNat = t.width := by
  obtain ⟨dimensions, element⟩ := t
  cases dimensions with
  | zero =>
    cases element with
    | primitive p => cases p <;> rfl
    | object name => simp [slots, width, toChars, ElementType.toChars]
  | succ n => simp [slots, width, toChars, List.replicate_succ]

theorem totalWidth_cons (t : FieldType) (more : List FieldType) :
    totalWidth (t :: more) = t.width + totalWidth more := by
  rw [totalWidth, List.map_cons, List.sum_cons, totalWidth]

theorem totalWidth_append (types more : List FieldType) :
    totalWidth (types ++ more) = totalWidth types + totalWidth more := by
  rw [totalWidth, List.map_append, List.sum_append_nat, totalWidth, totalWidth]

theorem totalWidth_replicate (n : Nat) (t : FieldType) :
    totalWidth (List.replicate n t) = n * t.width := by
  rw [totalWidth, List.map_replicate, List.sum_replicate_nat]

theorem totalWidth_take_le (types : List FieldType) (i : Nat) :
    totalWidth (types.take i) ≤ totalWidth types := by
  have hSplit := totalWidth_append (types.take i) (types.drop i)
  rw [List.take_append_drop] at hSplit
  exact hSplit ▸ Nat.le_add_right _ _

/-- The types in front of a place take less than all types up to a later place. -/
theorem totalWidth_take_lt {types : List FieldType} {i j : Nat} (hOrder : i < j)
    (hPlace : i < types.length) : totalWidth (types.take i) < totalWidth (types.take j) := by
  have hNext : types.take j = types.take i ++ types[i] :: (types.take j).drop (i + 1) := by
    have hLength : i < (types.take j).length := by
      rw [List.length_take]
      omega
    have hSplit := List.take_append_drop i (types.take j)
    rw [List.drop_eq_getElem_cons hLength, List.getElem_take, List.take_take,
      Nat.min_eq_left hOrder.le] at hSplit
    exact hSplit.symm
  have hPos := types[i].width_pos
  rw [hNext, totalWidth_append, totalWidth_cons]
  omega

theorem totalWidth_take_lt_all {types : List FieldType} {i : Nat} (hPlace : i < types.length) :
    totalWidth (types.take i) < totalWidth types := by
  have h := totalWidth_take_lt hPlace hPlace
  rwa [List.take_length] at h

end FieldType

namespace Descriptor

open FieldType

/-- Every parameter starts where those before it end, the first one in slot `first`, and `stop` is
where the last one ends. -/
structure LaidOut (first : Nat) (types : List FieldType) (slots : List UInt16) (stop : UInt16) :
    Prop where
  length : slots.length = types.length
  slot : ∀ i (h : i < slots.length), slots[i].toNat = first + totalWidth (types.take i)
  ends : stop.toNat = first + totalWidth types
  increasing : slots.Pairwise (· < ·)
  below : ∀ s ∈ slots, s < stop

/-- The slot of the first parameter. -/
def firstSlot (isStatic : Bool) : Nat := if isStatic then 0 else 1

/-- The slots are counted in 16 bits. -/
theorem place_spec (types : List FieldType) (start : UInt16) :
    (place start types).1.length = types.length ∧
      (∀ i (h : i < (place start types).1.length),
        (place start types).1[i].toNat = (start.toNat + totalWidth (types.take i)) % 65536) ∧
      (place start types).2.toNat = (start.toNat + totalWidth types) % 65536 := by
  have hSmall : ∀ s : UInt16, s.toNat = s.toNat % 65536 := fun s =>
    (Nat.mod_eq_of_lt s.toNat_lt).symm
  induction types generalizing start with
  | nil => exact ⟨rfl, nofun, hSmall start⟩
  | cons t more ih =>
    obtain ⟨hLength, hSlot, hStop⟩ := ih (start + t.slots)
    have hNext : (start + t.slots).toNat = (start.toNat + t.width) % 65536 := by
      rw [UInt16.toNat_add, t.toNat_slots]
    refine ⟨congrArg (· + 1) hLength, fun i h => ?_, ?_⟩
    · cases i with
      | zero => exact hSmall start
      | succ i =>
        have hMore : (place start (t :: more)).1[i + 1].toNat = _ :=
          hSlot i (Nat.lt_of_succ_lt_succ h)
        rw [hMore, List.take_succ_cons, totalWidth_cons]
        omega
    · have hMore : (place start (t :: more)).2.toNat = _ := hStop
      rw [hMore, totalWidth_cons]
      omega

/-- Slots that were counted in 16 bits are exact if they end below 65536. -/
theorem laidOut_of_lt {first : Nat} {types : List FieldType} {slots : List UInt16} {stop : UInt16}
    (hLength : slots.length = types.length)
    (hSlot : ∀ i (h : i < slots.length),
      slots[i].toNat = (first + totalWidth (types.take i)) % 65536)
    (hStop : stop.toNat = (first + totalWidth types) % 65536)
    (hRoom : first + totalWidth types < 65536) : LaidOut first types slots stop := by
  have hExact : ∀ i (h : i < slots.length),
      slots[i].toNat = first + totalWidth (types.take i) := fun i h => by
    have hLess := totalWidth_take_lt_all (hLength ▸ h)
    rw [hSlot i h, Nat.mod_eq_of_lt (by omega)]
  have hEnd : stop.toNat = first + totalWidth types := hStop.trans (Nat.mod_eq_of_lt hRoom)
  refine ⟨hLength, hExact, hEnd, List.pairwise_iff_getElem.2 fun i j hi hj hOrder => ?_, ?_⟩
  · rw [UInt16.lt_iff_toNat_lt, hExact i hi, hExact j hj]
    exact Nat.add_lt_add_left (totalWidth_take_lt hOrder (hLength ▸ hi)) first
  · intro s hs
    obtain ⟨i, hi, rfl⟩ := List.getElem_of_mem hs
    rw [UInt16.lt_iff_toNat_lt, hExact i hi, hEnd]
    exact Nat.add_lt_add_left (totalWidth_take_lt_all (hLength ▸ hi)) first

/-- **The layout of a descriptor.** Every descriptor of a method has one. Its slots and its end are
the sums of the widths in front, counted in 16 bits; so they are the sums themselves, in increasing
order and below the end, exactly if the parameters end below slot 65536. -/
theorem layout_spec {text : String} {t : MethodType} (hParse : MethodType.parse text = .ok t)
    (isStatic : Bool) : ∃ slots stop, layout text isStatic = .ok (slots, stop) ∧
      slots.length = t.parameters.length ∧
      (∀ i (h : i < slots.length),
        slots[i].toNat = (firstSlot isStatic + totalWidth (t.parameters.take i)) % 65536) ∧
      stop.toNat = (firstSlot isStatic + totalWidth t.parameters) % 65536 ∧
      (LaidOut (firstSlot isStatic) t.parameters slots stop ↔
        firstSlot isStatic + totalWidth t.parameters < 65536) := by
  have hStart : (if isStatic then 0 else 1 : UInt16).toNat = firstSlot isStatic := by
    cases isStatic <;> rfl
  obtain ⟨hLength, hSlot, hStop⟩ := place_spec t.parameters (if isStatic then 0 else 1)
  rw [hStart] at hSlot hStop
  refine ⟨_, _, by rw [layout, hParse]; rfl, hLength, hSlot, hStop, fun hLaid => ?_, ?_⟩
  · rw [← hLaid.ends]
    exact UInt16.toNat_lt _
  · exact laidOut_of_lt hLength hSlot hStop

/-- The descriptor of a method with 32768 parameters of two slots each and one of one slot. It fits
into a constant. -/
def crowded : MethodType :=
  ⟨List.replicate 32768 ⟨0, .primitive .long⟩ ++ [⟨0, .primitive .int⟩], ⟨0, .primitive .void⟩⟩

theorem length_crowded : (toString crowded).length = 32772 := by
  -- The number is kept as a variable, so that the list is never written out.
  have hMany : ∀ n, (MethodType.toChars ⟨List.replicate n ⟨0, .primitive .long⟩ ++
      [⟨0, .primitive .int⟩], ⟨0, .primitive .void⟩⟩).length = n + 4 := fun n => by
    have hPrimitive : ∀ p, (⟨0, .primitive p⟩ : FieldType).toChars.length = 1 := fun _ => rfl
    simp [MethodType.toChars, List.length_flatMap, hPrimitive]
  exact String.length_ofList.trans (hMany 32768)

/-- The last parameter of the crowded descriptor is placed in slot 0, where the first one is. -/
theorem layout_spec_crowded : (toString crowded).length = 32772 ∧
    MethodType.parse (toString crowded) = .ok crowded ∧
    ∃ slots stop, layout (toString crowded) true = .ok (slots, stop) ∧
      ¬ LaidOut 0 crowded.parameters slots stop ∧ slots[0]? = some 0 ∧
        slots[32768]? = some 0 ∧ stop = 1 := by
  have hParse : MethodType.parse (toString crowded) = .ok crowded := by
    refine MethodType.parse_eq_ok.2 ⟨⟨fun p hp => ?_, by decide⟩, String.toList_ofList.symm⟩
    rcases List.mem_append.1 hp with hp | hp
    · rw [List.eq_of_mem_replicate hp]
      decide
    · rw [List.mem_singleton.1 hp]
      decide
  obtain ⟨slots, stop, hLayout, hLength, hSlot, hStop, hLaid⟩ := layout_spec hParse true
  have hLongs : totalWidth (List.replicate 32768 ⟨0, .primitive .long⟩) = 65536 :=
    totalWidth_replicate _ _
  have hAll : totalWidth crowded.parameters = 65537 := by
    show totalWidth (_ ++ _) = _
    rw [totalWidth_append, hLongs]
    rfl
  have hCount : slots.length = 32769 := by
    rw [hLength, crowded, List.length_append, List.length_replicate]
    rfl
  have hTake : crowded.parameters.take 32768 = List.replicate 32768 ⟨0, .primitive .long⟩ :=
    List.take_left' List.length_replicate
  have hNot : ¬ firstSlot true + totalWidth crowded.parameters < 65536 := by
    rw [hAll]
    decide
  refine ⟨length_crowded, hParse, slots, stop, hLayout, mt hLaid.1 hNot, ?_, ?_, ?_⟩
  · rw [List.getElem?_eq_getElem (hCount ▸ by decide), Option.some.injEq, ← UInt16.toNat_inj,
      hSlot]
    rfl
  · rw [List.getElem?_eq_getElem (hCount ▸ by decide), Option.some.injEq, ← UInt16.toNat_inj,
      hSlot, hTake, hLongs]
    rfl
  · rw [← UInt16.toNat_inj, hStop, hAll]
    rfl

end Descriptor

end Jarsmith
