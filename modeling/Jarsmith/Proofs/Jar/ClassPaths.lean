import Jarsmith.Jar.Entry
import Jarsmith.Proofs.Text.Split

/-!
# The paths of classes

The path of a class is made of its name and its release, and tells both. So the classes of one
release stand at different paths if they have different names, and no class stands at the path of
an entry of another kind.

* `ArchiveEntry.kind_of_classPath` — what ends in `.class` is a class.
* `ArchiveEntry.release?_eq_some` — the ways to write the number of a release.
* `ArchiveEntry.exists_className?` — a start, a name and an ending make the path of a class.
* `ArchiveEntry.release?_pathForClass` — a class that gets another name stays in its release.
* `ArchiveEntry.pathForClass_inj` — a path is that of one name only.
* `ArchiveEntry.pathForClass_eq_name` — which classes come back to their paths.
-/

namespace Jarsmith

/-- The number of a release is written without a slash. -/
theorem slash_not_mem_toString (release : Nat) : '/' ∉ (toString release).toList := by
  intro hMem
  have hDigit := Text.isDigit_of_mem_toString hMem
  revert hDigit
  decide

namespace ArchiveEntry

variable {e e' : ArchiveEntry} {n n' start rest : String} {release : Nat}

/-- What stands in front of the names of the classes of a release. -/
def releasePath : Option Nat → String
  | some release => versionsPath ++ toString release ++ "/"
  | none => ""

theorem pathForClass_eq (e : ArchiveEntry) (n : String) :
    e.pathForClass n = releasePath e.release? ++ n ++ ".class" := by
  have hRelease : (JarEntry.ofArchive e).release = e.release? := rfl
  rw [pathForClass, JarEntry.pathForClass, hRelease]
  cases e.release? with
  | some release => simp [releasePath, toString, String.append_assoc]
  | none => simp [releasePath]

theorem pathForClass_of_release? (hRelease : e.release? = e'.release?) (n : String) :
    e.pathForClass n = e'.pathForClass n := by
  rw [pathForClass_eq, pathForClass_eq, hRelease]

/-- **A path is that of one name only.** -/
theorem pathForClass_inj (h : e.pathForClass n = e.pathForClass n') : n = n' := by
  rw [pathForClass_eq, pathForClass_eq] at h
  have hChars := congrArg String.toList h
  simp only [String.toList_append, List.append_assoc] at hChars
  exact String.toList_inj.1 (List.append_cancel_right (List.append_cancel_left hChars))

/-- An entry whose name ends in `.class` holds a class. -/
theorem kind_of_classPath (h : e.name = n ++ ".class") : e.kind = .classFile := by
  have hLast : e.name.toList.getLast? = some 's' := by
    rw [h, String.toList_append, List.getLast?_append]
    rfl
  have hDirectory : Text.endsWith e.name "/" = false := by
    rw [Bool.eq_false_iff, Ne, Text.endsWith_iff]
    rintro ⟨front, hFront⟩
    rw [← hFront, List.getLast?_append] at hLast
    exact absurd (show some '/' = some 's' from hLast) (by decide)
  have hManifest : Text.equalsIgnoringCase e.name manifestPath = false := by
    rw [Text.equalsIgnoringCase, beq_eq_false_iff_ne]
    intro hSame
    have hLower := congrArg (fun text => text.toList.getLast?) hSame
    simp only [Text.lowerLatin, String.toList_ofList, List.getLast?_map, hLast] at hLower
    exact absurd hLower (by decide)
  rw [kind, hDirectory, hManifest, h, Text.endsWith_append]
  rfl

theorem kind_pathForClass (h : e.name = e'.pathForClass n) : e.kind = .classFile :=
  kind_of_classPath (h.trans (pathForClass_eq e' n))

theorem versioned?_eq_some {path number rest : String} : versioned? path = some (number, rest) ↔
    '/' ∉ number.toList ∧ path = versionsPath ++ number ++ "/" ++ rest := by
  refine Option.bind_eq_some_iff.trans ?_
  constructor
  · rintro ⟨back, hBack, hSplit⟩
    obtain ⟨⟨front, after⟩, hCut, hEq⟩ := Option.map_eq_some_iff.1 hSplit
    obtain ⟨hSlash, hText⟩ := Text.cutFirst?_eq_some.1 hCut
    obtain ⟨rfl, rfl⟩ := Prod.mk.inj hEq
    rw [String.toList_ofList]
    refine ⟨hSlash, ?_⟩
    rw [Text.stripPrefix?_eq_some.1 hBack, ← String.toList_inj]
    simp [hText]
  · rintro ⟨hSlash, rfl⟩
    refine ⟨number ++ "/" ++ rest, ?_, Text.splitFirst?_append hSlash (by simp)⟩
    rw [String.append_assoc, String.append_assoc, String.append_assoc, Text.stripPrefix?_append]

/-- How paths of classes start that are in a release or in none. The number of a release may be
written with a sign and with zeros in front. -/
inductive IsStart : Option Nat → String → Prop where
  | outside : IsStart none ""
  | inside {release : Nat} {padding : List Char} : release < 65536 → Text.IsPadding padding →
      IsStart (some release)
        (versionsPath ++ (String.ofList padding ++ toString release) ++ "/")

theorem slash_not_mem_start {padding : List Char} (h : Text.IsPadding padding) (release : Nat) :
    '/' ∉ (String.ofList padding ++ toString release).toList := by
  have hZeros : ∀ k, '/' ∉ List.replicate k '0' := fun k hMem =>
    absurd (List.eq_of_mem_replicate hMem) (by decide)
  rw [String.toList_append, String.toList_ofList, List.mem_append, not_or]
  refine ⟨?_, slash_not_mem_toString release⟩
  cases h with
  | zeros k => exact hZeros k
  | signed k => exact List.not_mem_cons_of_ne_of_not_mem (by decide) (hZeros k)

/-- A number with its padding is read behind the path of all releases. -/
theorem versioned?_start {padding : List Char} (h : Text.IsPadding padding)
    (hName : e.name = versionsPath ++ (String.ofList padding ++ toString release) ++ "/" ++ rest) :
    versioned? e.name = some (String.ofList padding ++ toString release, rest) :=
  versioned?_eq_some.2 ⟨slash_not_mem_start h release, hName⟩

/-- **An entry is in a release** if its name starts in one of the ways to write the number. -/
theorem release?_eq_some : e.release? = some release ↔
    ∃ start rest, IsStart (some release) start ∧ e.name = start ++ rest := by
  refine Option.bind_eq_some_iff.trans ?_
  constructor
  · rintro ⟨⟨number, rest⟩, hCut, hNumber⟩
    obtain ⟨hSlash, hName⟩ := versioned?_eq_some.1 hCut
    obtain ⟨hSpelled, hSmall⟩ := Text.decimalBelow?_eq_some.1 hNumber
    obtain ⟨padding, hPadding, hText⟩ := Text.decimal?_eq_some.1 hSpelled
    obtain rfl : number = String.ofList padding ++ toString release := by
      rw [← String.toList_inj, hText, String.toList_append, String.toList_ofList]
    exact ⟨_, rest, .inside hSmall hPadding, hName⟩
  · rintro ⟨_, rest, hStart, hName⟩
    cases hStart with
    | @inside _ padding hSmall hPadding =>
      refine ⟨_, versioned?_start hPadding hName, Text.decimalBelow?_eq_some.2 ⟨?_, hSmall⟩⟩
      refine Text.decimal?_eq_some.2 ⟨padding, hPadding, ?_⟩
      rw [String.toList_append, String.toList_ofList]

/-- The class name is what stands between the start and the ending. -/
theorem className?_eq_some (hStart : IsStart e.release? start)
    (hName : e.name = start ++ n ++ ".class") : e.className? = some n := by
  have hKind : (JarEntry.ofArchive e).kind = .classFile := kind_of_classPath hName
  have hRelease : (JarEntry.ofArchive e).release = e.release? := rfl
  rw [className?, JarEntry.className?, hKind, hRelease]
  dsimp only
  cases hCase : e.release? with
  | none =>
    rw [hCase] at hStart
    cases hStart
    show Text.stripSuffix? ".class" e.name = some n
    rw [hName, String.empty_append, Text.stripSuffix?_append]
  | some release =>
    rw [hCase] at hStart
    cases hStart with
    | inside _ hPadding =>
      rw [String.append_assoc] at hName
      show Text.stripSuffix? ".class" (((versioned? e.name).map (·.2)).getD e.name) = some n
      rw [versioned?_start hPadding hName, Option.map_some, Option.getD_some,
        Text.stripSuffix?_append]

theorem exists_of_kind (hKind : e.kind = .classFile) : ∃ n, e.name = n ++ ".class" := by
  unfold kind at hKind
  split at hKind
  · cases hKind
  · split at hKind
    · cases hKind
    · split at hKind
      · rename_i hEnds
        obtain ⟨front, hFront⟩ := Text.endsWith_iff.1 hEnds
        refine ⟨String.ofList front, ?_⟩
        rw [← String.toList_inj, ← hFront, String.toList_append, String.toList_ofList (l := front)]
      · cases hKind

/-- A start in a release ends in a slash, so the ending of the name stands behind it. -/
theorem IsStart.exists_rest {path : String} (hStart : IsStart (some release) start)
    (hPath : start ++ rest = path ++ ".class") : ∃ n, rest = n ++ ".class" := by
  have hLast : start.toList.getLast? = some '/' := by
    cases hStart with
    | inside => rw [String.toList_append, List.getLast?_append]; rfl
  have hChars := congrArg String.toList hPath
  rw [String.toList_append, String.toList_append] at hChars
  obtain ⟨inner, -, hRest⟩ | ⟨inner, hInner, hEnding⟩ := List.append_eq_append_iff.1 hChars
  · refine ⟨String.ofList inner, ?_⟩
    rw [← String.toList_inj, hRest, String.toList_append, String.toList_ofList (l := inner)]
  · cases inner with
    | nil =>
      refine ⟨"", ?_⟩
      rw [← String.toList_inj, String.empty_append, hEnding, List.nil_append]
    | cons c inner =>
      -- the ending would hold the slash
      have hInnerLast : (c :: inner).getLast? = some '/' := by
        rwa [hInner, List.getLast?_append, List.getLast?_cons, Option.some_or,
          ← List.getLast?_cons] at hLast
      have hSlash : '/' ∈ ".class".toList := by
        rw [hEnding]
        exact List.mem_append_left _ (List.mem_of_getLast? hInnerLast)
      exact absurd hSlash (by decide)

/-- **The path of a class** is a start, a name, and an ending. -/
theorem exists_className? (hKind : e.kind = .classFile) : ∃ start n,
    IsStart e.release? start ∧ e.name = start ++ n ++ ".class" ∧ e.className? = some n := by
  obtain ⟨path, hPath⟩ := exists_of_kind hKind
  have hStart : ∃ start n, IsStart e.release? start ∧ e.name = start ++ n ++ ".class" := by
    cases hRelease : e.release? with
    | none => exact ⟨"", path, .outside, by rw [hPath, String.empty_append]⟩
    | some release =>
      obtain ⟨start, rest, hStart, hName⟩ := release?_eq_some.1 hRelease
      obtain ⟨n, rfl⟩ := hStart.exists_rest (hName.symm.trans hPath)
      exact ⟨start, n, hStart, by rw [hName, String.append_assoc]⟩
  obtain ⟨start, n, hStart, hName⟩ := hStart
  exact ⟨start, n, hStart, hName, className?_eq_some hStart hName⟩

/-- A release is printed in one of the ways to write its number. -/
theorem isStart_releasePath (e : ArchiveEntry) : IsStart e.release? (releasePath e.release?) := by
  cases hRelease : e.release? with
  | none => exact .outside
  | some release =>
    obtain ⟨_, _, hStart, -⟩ := release?_eq_some.1 hRelease
    cases hStart with
    | inside hSmall _ =>
      have hPrinted : String.ofList (List.replicate 0 '0') ++ toString release =
          toString release := String.empty_append
      rw [releasePath, ← hPrinted]
      exact .inside hSmall (.zeros 0)

/-- **A class comes back to its path exactly if the path starts as its release is printed.** -/
theorem pathForClass_eq_name (hName : e.name = start ++ n ++ ".class") :
    e.pathForClass n = e.name ↔ start = releasePath e.release? := by
  rw [pathForClass_eq, hName]
  constructor
  · intro h
    have hChars := congrArg String.toList h
    simp only [String.toList_append, List.append_assoc] at hChars
    exact (String.toList_inj.1 (List.append_cancel_right hChars)).symm
  · rintro rfl
    rfl

/-- **A class that gets another name stays in its release**, if it is in one. -/
theorem release?_pathForClass (hRelease : e.release? = some release)
    (hNew : e'.name = e.pathForClass n) : e'.release? = some release := by
  rw [pathForClass_eq, String.append_assoc, hRelease] at hNew
  exact release?_eq_some.2 ⟨_, _, hRelease ▸ isStart_releasePath e, hNew⟩

/-- The path of another class tells its name, if it is in the same release. -/
theorem className?_pathForClass (hRelease : e'.release? = e.release?)
    (hNew : e'.name = e.pathForClass n) : e'.className? = some n :=
  className?_eq_some (hRelease ▸ isStart_releasePath e) (hNew.trans (pathForClass_eq e n))

end ArchiveEntry

end Jarsmith
