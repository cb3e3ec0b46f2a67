import Jarsmith.Proofs.OrderedMap
import Jarsmith.Proofs.Store.Places
import Jarsmith.Store.Staging
import Mathlib.Data.List.FinRange
import Mathlib.Data.List.Perm.Subperm

/-!
# Temporary siblings

The path at which a file is made before it is moved into place. It stands in the directory of its
target, has a name of its own, and nothing stands there yet.

* `hexNat_inj` — two numbers with the same digits are the same.
* `FileAction.names_siblingPath`, `FileAction.siblingName_inj`, `FileAction.siblingName_ne` — the
  names of siblings.
* `FileAction.temporarySibling_run` — a sibling at which nothing stands is always found.
-/

namespace Jarsmith

open Outcome

-- ---------------------------------------------------------------------------
-- Hexadecimal digits
-- ---------------------------------------------------------------------------

/-- The number that hexadecimal digits spell. -/
def numberOfDigits (digits : List Char) : Nat :=
  digits.foldl (fun n c => n * 16 + (hexValue? c).getD 0) 0

theorem hexValue?_digitChar : ∀ d < 16, hexValue? (Nat.digitChar d) = some d := by decide

theorem numberOfDigits_toDigits (n : Nat) : numberOfDigits (Nat.toDigits 16 n) = n := by
  induction n using Nat.strongRecOn with
  | ind n ih =>
    have hLow : (hexValue? (n % 16).digitChar).getD 0 = n % 16 := by
      rw [hexValue?_digitChar _ (Nat.mod_lt n (by decide))]
      rfl
    rw [Nat.toDigits_eq_if (by decide)]
    split
    · rename_i hSmall
      rw [Nat.mod_eq_of_lt hSmall] at hLow
      simp [numberOfDigits, hLow]
    · have hHigh := ih (n / 16) (by omega)
      rw [numberOfDigits] at hHigh ⊢
      rw [List.foldl_append, hHigh, List.foldl_cons, hLow, List.foldl_nil]
      omega

theorem numberOfDigits_zeros (k : Nat) (digits : List Char) :
    numberOfDigits (List.replicate k '0' ++ digits) = numberOfDigits digits := by
  induction k with
  | zero => rfl
  | succ k ih =>
    rw [← ih]
    rfl

theorem hexNat_inj {width m n : Nat} (h : hexNat width m = hexNat width n) : m = n := by
  have hDigits := congrArg (fun text => numberOfDigits text.toList) h
  simpa only [hexNat, String.toList_ofList, numberOfDigits_zeros, numberOfDigits_toDigits]
    using hDigits

theorem mem_toDigits {n : Nat} {c : Char} (h : c ∈ Nat.toDigits 16 n) :
    ∃ d < 16, c = Nat.digitChar d := by
  induction n using Nat.strongRecOn with
  | ind n ih =>
    rw [Nat.toDigits_eq_if (by decide)] at h
    split at h
    · rename_i hSmall
      exact ⟨n, hSmall, List.mem_singleton.1 h⟩
    · rcases List.mem_append.1 h with h | h
      · exact ih (n / 16) (by omega) h
      · exact ⟨n % 16, Nat.mod_lt n (by decide), List.mem_singleton.1 h⟩

/-- Only hexadecimal digits are written. -/
theorem not_mem_hexNat {c : Char} (hNone : hexValue? c = none) (width n : Nat) :
    c ∉ (hexNat width n).toList := by
  rw [hexNat, String.toList_ofList, List.mem_append, not_or]
  constructor
  · intro h
    rw [List.eq_of_mem_replicate h] at hNone
    exact absurd hNone (by decide)
  · intro h
    obtain ⟨d, hd, rfl⟩ := mem_toDigits h
    cases hNone.symm.trans (hexValue?_digitChar d hd)

namespace FileAction

variable {s t : Store} {path name staged : String} {number : Nat} {place : List String}

-- ---------------------------------------------------------------------------
-- Names of siblings
-- ---------------------------------------------------------------------------

theorem toList_siblingName : (siblingName name number).toList =
    '.' :: (name.toList ++ '.' :: ((hexNat 32 number).toList ++ ".tmp".toList)) := by
  simp [siblingName]

/-- Siblings with the same name have the same number, whatever their targets are. -/
theorem siblingName_inj {other : String} {m n : Nat}
    (h : siblingName name m = siblingName other n) : m = n := by
  have hChars := congrArg String.toList h
  rw [toList_siblingName, toList_siblingName, List.cons.injEq, ← List.cons_append,
    ← List.cons_append, ← List.append_assoc, ← List.append_assoc,
    List.append_cancel_right_eq] at hChars
  -- the number stands behind the last dot
  have hCut : ∀ (front : List Char) (k : Nat), Text.cutLast? '.' (front ++ '.' ::
      (hexNat 32 k).toList) = some (front, (hexNat 32 k).toList) := fun front k =>
    Text.cutLast?_eq_some.2 ⟨not_mem_hexNat (by decide) 32 k, rfl⟩
  have hBoth := congrArg (Text.cutLast? '.') hChars.2
  rw [hCut, hCut, Option.some.injEq, Prod.mk.injEq] at hBoth
  exact hexNat_inj (String.toList_inj.1 hBoth.2)

/-- A sibling has another name than its target. -/
theorem siblingName_ne : siblingName name number ≠ name := by
  intro h
  have hLength := congrArg (fun text => text.toList.length) h
  simp only [toList_siblingName, List.length_cons, List.length_append] at hLength
  omega

/-- The name of a sibling is longer than the names that stand for directories. -/
theorem siblingName_ne_of_length {other : String} (hShort : other.toList.length ≤ 4) :
    siblingName name number ≠ other := by
  rintro rfl
  have hEnding : ".tmp".toList.length = 4 := by decide
  simp only [toList_siblingName, List.length_cons, List.length_append] at hShort
  omega

theorem isName_siblingName (hName : '/' ∉ name.toList) : Path.IsName (siblingName name number) := by
  refine ⟨siblingName_ne_of_length (by decide), siblingName_ne_of_length (by decide), ?_⟩
  rw [toList_siblingName]
  have hDigits : '/' ∉ (hexNat 32 number).toList := not_mem_hexNat (by decide) 32 number
  simp [hName, hDigits]

/-- A file name holds no slash. -/
theorem slash_not_mem_fileName : '/' ∉ ((Path.fileName? path).getD "").toList := by
  unfold Path.fileName?
  cases hLast : (Path.names path).getLast?.filter (· != "..") with
  | none => exact List.not_mem_nil
  | some name =>
    have hMem := List.mem_of_getLast? (Option.filter_eq_some_iff.1 hLast).1
    exact (Path.isName_of_mem hMem).2.2

/-- The names of a sibling: those of its path, but for the last one. -/
theorem names_siblingPath : Path.names (siblingPath path number) = (Path.names path).dropLast ++
    [siblingName ((Path.fileName? path).getD "") number] :=
  Path.names_withFileName (isName_siblingName slash_not_mem_fileName)

/-- The path of a sibling ends in `.tmp`. -/
theorem isDirectoryPath_siblingPath : Path.isDirectoryPath (siblingPath path number) = false := by
  rw [Bool.eq_false_iff]
  intro hSlash
  obtain ⟨front, hFront⟩ := Path.exists_of_endsWith hSlash
  obtain ⟨before, hBefore⟩ := Path.exists_withFileName path
    (siblingName ((Path.fileName? path).getD "") number)
  have hTmp : (siblingPath path number).toList.getLast? = some 'p' := by
    rw [siblingPath, hBefore, siblingName, String.toList_append, String.toList_append,
      List.getLast?_append, List.getLast?_append]
    rfl
  rw [hFront, String.toList_append, List.getLast?_append] at hTmp
  have hChars : '/' = 'p' := Option.some.inj hTmp
  exact absurd hChars (by decide)

theorem exists_of_follow_siblingPath {p : List String}
    (hFollow : s.follow place (Path.names (siblingPath path number)) = .ok p) :
    ∃ directory, p = directory ++ [siblingName ((Path.fileName? path).getD "") number] := by
  rw [names_siblingPath] at hFollow
  exact Store.follow_concat (siblingName_ne_of_length (by decide)) hFollow

/-- A place that a sibling leads to and at which something stands. -/
theorem exists_of_isThere (hThere : s.isThere (siblingPath path number) = true) : ∃ directory,
    directory ++ [siblingName ((Path.fileName? path).getD "") number] ∈ s.nodes.keys := by
  unfold Store.isThere Store.at? at hThere
  split at hThere
  · rename_i p hLocate
    obtain ⟨directory, rfl⟩ := exists_of_follow_siblingPath (Store.locate_eq_ok.1 hLocate).1
    rw [Store.node?_of_ne_nil (by simp)] at hThere
    obtain ⟨node, hNode⟩ := Option.isSome_iff_exists.1 hThere
    exact ⟨directory, OrderedMap.mem_keys.2 ⟨node, hNode⟩⟩
  · cases hThere

/-- Siblings with different numbers stand at different places, and the store has fewer places than
numbers are tried. -/
theorem exists_free (s : Store) (path : String) : ∃ n ∈ (List.range (s.nodes.size + 1)).map
    (s.counter + ·), s.isThere (siblingPath path n) = false := by
  by_contra hTaken
  have hThere : ∀ n, n < s.nodes.size + 1 →
      s.isThere (siblingPath path (s.counter + n)) = true := by
    intro n hn
    by_contra hFree
    exact hTaken ⟨_, List.mem_map.2 ⟨n, List.mem_range.2 hn, rfl⟩, Bool.eq_false_iff.2 hFree⟩
  choose above hAbove using fun n hn => exists_of_isThere (hThere n hn)
  let place (n : Fin (s.nodes.size + 1)) : List String :=
    above n n.isLt ++ [siblingName ((Path.fileName? path).getD "") (s.counter + n)]
  have hInjective : Function.Injective place := by
    intro m n hSame
    have hNumber := siblingName_inj (List.append_singleton_inj.1 hSame).2
    exact Fin.ext (by omega)
  have hNodup : (List.ofFn place).Nodup := List.nodup_ofFn.2 hInjective
  have hKeys : List.ofFn place ⊆ s.nodes.keys := by
    intro p hp
    obtain ⟨n, rfl⟩ := List.mem_ofFn.1 hp
    exact hAbove n n.isLt
  have hLength := (hNodup.subperm hKeys).length_le
  rw [List.length_ofFn, OrderedMap.keys, List.length_map] at hLength
  exact absurd hLength (Nat.not_le.2 (Nat.lt_succ_self _))

/-- **A sibling at which nothing stands** is always found. The files stay as they are, and no number
is given out again. -/
theorem temporarySibling_run (s : Store) (path : String) : ∃ number, s.counter ≤ number ∧
    s.isThere (siblingPath path number) = false ∧ (temporarySibling path).run.run s =
      (.ok (siblingPath path number), { s with counter := number + 1 }) := by
  obtain ⟨n, hn, hFree⟩ := exists_free s path
  cases hFound : ((List.range (s.nodes.size + 1)).map (s.counter + ·)).find?
      fun n => !s.isThere (siblingPath path n) with
  | none =>
    rw [List.find?_eq_none] at hFound
    exact absurd (by rw [hFree]; rfl) (hFound n hn)
  | some number =>
    have hNothing := List.find?_some hFound
    rw [Bool.not_eq_true'] at hNothing
    obtain ⟨k, -, hNumber⟩ := List.mem_map.1 (List.mem_of_find?_eq_some hFound)
    refine ⟨number, by omega, hNothing, ?_⟩
    show (_, _) = _
    simp only [hFound, Option.getD_some]

end FileAction

end Jarsmith
