import Jarsmith.Mappings.Format
import Jarsmith.Proofs.Mappings.Tiny
import Jarsmith.Proofs.Outcome
import Jarsmith.Proofs.Text.Utf8

/-!
# Files and their texts

A file that starts with the letters `PK` is taken for an archive before its format is asked. Any
other file is read as the text that it holds. A text may start with these letters as well: the lines
for packages in an SRG text do.

* `Content.looksPacked_ofText` — which texts are taken for archives.
* `MappingFormat.parse_error`, `MappingFormat.archivedText_error` — the faults of a text and those
  of an archive are different ones.
* `MappingFormat.read_ofText` — when a file gives what its text gives, for all formats.
-/

namespace Jarsmith

open Mappings Outcome

-- ---------------------------------------------------------------------------
-- Texts that are taken for archives
-- ---------------------------------------------------------------------------

/-- A text is taken for an archive exactly if it starts with the two letters. -/
theorem Content.looksPacked_ofText (text : String) :
    (Content.ofText text).looksPacked = Text.startsWith text "PK" := by
  rw [Bool.eq_iff_iff, Text.startsWith_iff]
  show [0x50, 0x4B].isPrefixOf (Utf8.encode text) = true ↔ ['P', 'K'] <+: text.toList
  rw [List.isPrefixOf_iff_prefix]
  constructor
  · rintro ⟨rest, hRest⟩
    -- the machine reads the two bytes as two letters
    have hScalars := Utf8.scalars_encode text
    rw [← hRest] at hScalars
    have hLetters : text.toList.map some = ['P', 'K'].map some ++ Utf8.scan none rest :=
      hScalars.symm
    obtain ⟨letters, more, hText, hSome, -⟩ := List.map_eq_append_iff.1 hLetters
    rw [List.map_inj_right fun _ _ => Option.some.inj] at hSome
    exact ⟨more, by rw [hText, hSome]⟩
  · rintro ⟨rest, hRest⟩
    exact ⟨rest.flatMap String.utf8EncodeChar, by rw [Utf8.encode, ← hRest]; rfl⟩

-- ---------------------------------------------------------------------------
-- Faults
-- ---------------------------------------------------------------------------

/-- Whether a fault says something about an archive, and not about a text. -/
def MappingFault.isOfArchive : MappingFault → Bool
  | .archiveUnsupported | .archiveWithout _ | .archiveNotText => true
  | .atLine .. | .unknownNamespace .. | .document => false

theorem Mappings.isOfArchive_of_readLines {σ : Type} {step : σ → String → Except LineFault σ}
    {s : σ} {lines : List (Nat × String)} {fault : MappingFault}
    (hRead : readLines step s lines = .error fault) : fault.isOfArchive = false := by
  obtain ⟨n, line, rfl⟩ := readLines_error hRead
  rfl

theorem TinyFile.isOfArchive_of_parse {text : String} {fault : MappingFault}
    (hParse : TinyFile.parse text = .error fault) : fault.isOfArchive = false := by
  unfold parse at hParse
  split at hParse
  · split at hParse
    · exact isOfArchive_of_readLines (map_error_iff.1 hParse)
    · split at hParse
      · exact isOfArchive_of_readLines hParse
      · cases hParse
        rfl
  · cases hParse
    rfl

theorem TinyFile.isOfArchive_of_toMappingSet {file : TinyFile} {source target : String}
    {fault : MappingFault} (hProject : file.toMappingSet source target = .error fault) :
    fault.isOfArchive = false := by
  have hIndex : ∀ {name fault}, file.indexOf name = .error fault → fault.isOfArchive = false := by
    intro name fault hIndex
    unfold indexOf at hIndex
    split at hIndex
    · cases hIndex
    · cases hIndex
      rfl
  obtain hSource | ⟨_, -, hProject⟩ := bind_error_iff.1 hProject
  · exact hIndex hSource
  · obtain hTarget | ⟨_, -, hDone⟩ := bind_error_iff.1 hProject
    · exact hIndex hTarget
    · cases hDone

namespace MappingFormat

variable {format : MappingFormat} {text : String}

/-- What is wrong with a text is never a fault of an archive. -/
theorem isOfArchive_of_parse {fault : MappingFault} (hParse : format.parse text = .error fault) :
    fault.isOfArchive = false := by
  cases format with
  | proguard => exact isOfArchive_of_readLines (map_error_iff.1 (map_error_iff.1 hParse))
  | srg => exact isOfArchive_of_readLines hParse
  | csrg => exact isOfArchive_of_readLines hParse
  | tsrg =>
    unfold parse Tsrg.parse at hParse
    dsimp only at hParse
    split at hParse <;> exact isOfArchive_of_readLines (map_error_iff.1 hParse)
  | tiny source target =>
    obtain hText | ⟨_, -, hProject⟩ := bind_error_iff.1 hParse
    · exact TinyFile.isOfArchive_of_parse hText
    · exact TinyFile.isOfArchive_of_toMappingSet hProject
  | parchment =>
    unfold parse Parchment.parse at hParse
    dsimp only at hParse
    split at hParse
    · cases hParse
    · cases hParse
      rfl

/-- What is wrong with an archive. -/
theorem archivedText_error {content : Content} {e : Error}
    (hArchive : format.archivedText content = .error e) :
    e = .archive ∨ ∃ fault, fault.isOfArchive = true ∧ e = .mappings format.name fault := by
  unfold archivedText at hArchive
  dsimp only at hArchive
  split at hArchive
  · split at hArchive
    · split at hArchive
      · split at hArchive
        · cases hArchive
        · cases hArchive
          exact .inr ⟨_, rfl, rfl⟩
      · cases hArchive
        exact .inr ⟨_, rfl, rfl⟩
    · cases hArchive
      exact .inl rfl
  · cases hArchive
    exact .inr ⟨_, rfl, rfl⟩

/-- A text does not fail as an archive fails. -/
theorem readText_ne_of_archivedText {content : Content} {e : Error}
    (hArchive : format.archivedText content = .error e) : format.readText text ≠ .error e := by
  unfold readText
  cases hParse : format.parse text with
  | ok set => exact nofun
  | error fault =>
    have hFault := isOfArchive_of_parse hParse
    intro hEq
    obtain rfl | ⟨other, hOther, rfl⟩ := archivedText_error hArchive
    · cases hEq
    · cases hEq
      rw [hFault] at hOther
      cases hOther

-- ---------------------------------------------------------------------------
-- Files that hold a text
-- ---------------------------------------------------------------------------

theorem read_of_startsWith (hStart : Text.startsWith text "PK" = true) :
    format.read (.ofText text) = (format.archivedText (.ofText text)).bind format.readText := by
  rw [read, Content.looksPacked_ofText, hStart, if_pos rfl]
  rfl

theorem read_of_not_startsWith (hStart : ¬ Text.startsWith text "PK" = true) :
    format.read (.ofText text) = format.readText text := by
  rw [read, Content.looksPacked_ofText, if_neg hStart]
  show format.readText (Utf8.lenient (Utf8.encode text)) = _
  rw [Utf8.lenient_encode]

/-- **A file that holds a text gives what the text gives**, unless the text starts with the letters
of an archive. Such a text is never read itself: a format without archives refuses it, and in the
other formats another text has to be found inside it. -/
theorem read_ofText (format : MappingFormat) (text : String) :
    (format.read (.ofText text) = format.readText text ↔
      (Text.startsWith text "PK" = true → ∃ inner, format.archivedText (.ofText text) = .ok inner ∧
        format.readText inner = format.readText text)) ∧
    (format.archiveEntry? = none → Text.startsWith text "PK" = true →
      format.read (.ofText text) = .error (.mappings format.name .archiveUnsupported)) := by
  constructor
  · by_cases hStart : Text.startsWith text "PK" = true
    · rw [read_of_startsWith hStart]
      cases hArchive : format.archivedText (.ofText text) with
      | ok inner =>
        constructor
        · exact fun hSame _ => ⟨inner, rfl, hSame⟩
        · intro hInner
          obtain ⟨_, hOk, hSame⟩ := hInner hStart
          cases hOk
          exact hSame
      | error e =>
        constructor
        · exact fun hSame => absurd hSame.symm (readText_ne_of_archivedText hArchive)
        · intro hInner
          obtain ⟨_, hOk, -⟩ := hInner hStart
          cases hOk
    · rw [read_of_not_startsWith hStart]
      exact iff_of_true rfl fun hPacked => absurd hPacked hStart
  · intro hNone hStart
    rw [read_of_startsWith hStart]
    have hArchive : format.archivedText (.ofText text) =
        .error (.mappings format.name .archiveUnsupported) := by
      rw [archivedText, hNone]
      rfl
    rw [hArchive]
    rfl

/-- The line for a package hides the text from its reader. -/
theorem read_ofText_packaged :
    let text := "PK: . net/minecraft\nCL: a net/minecraft/World\n"
    srg.read (.ofText text) = .error (.mappings "srg" .archiveUnsupported) ∧
      srg.readText text = .ok ((∅ : MappingSet).addClass "a" "net/minecraft/World") := by
  exact ⟨(read_ofText srg _).2 rfl (by decide), rfl⟩

end MappingFormat

end Jarsmith
