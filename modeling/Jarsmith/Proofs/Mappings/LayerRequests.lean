import Jarsmith.Mappings.Layers
import Jarsmith.Proofs.Outcome
import Jarsmith.Proofs.Text.Split
import Mathlib.Data.List.Forall2

/-!
# Layers as they are asked for

A layer is asked for as `format:path`, with namespaces for all tiny layers as `from:to`. Both are cut
at their first colon. A format may be spelled in any letter case, but the namespaces go to the
formats whose names start with `tiny` in small letters: to others none are given, and a tiny format
among these reads its usual ones.

* `LayerSpec.parse_request` — what is read of a layer.
* `MappingFormat.ofName_cases` — the names that formats go by, and where namespaces matter.
* `MappingLayers.namespaces_given` — the stack that is made of layers that are asked for.
-/

namespace Jarsmith

open Outcome

variable {format path source target word : String}

namespace Text

theorem mem_lowerLatin {c : Char} (hLower : c.toLower = c) {text : String} (h : c ∈ text.toList) :
    c ∈ (lowerLatin text).toList := by
  rw [lowerLatin, String.toList_ofList]
  exact List.mem_map.2 ⟨c, h, hLower⟩

theorem startsWith_lowerLatin (hWord : lowerLatin word = word) {text : String}
    (h : startsWith text word = true) : startsWith (lowerLatin text) word = true := by
  rw [startsWith_iff] at h ⊢
  rw [← hWord, lowerLatin, lowerLatin, String.toList_ofList, String.toList_ofList]
  exact h.map Char.toLower

end Text

-- ---------------------------------------------------------------------------
-- Names of formats
-- ---------------------------------------------------------------------------

namespace MappingFormat

variable {name : String} {namespaces : Option (String × String)} {f : MappingFormat}

/-- Whether a format is read with namespaces. -/
def isTiny : MappingFormat → Bool
  | tiny .. => true
  | _ => false

/-- The tiny format with the given namespaces, or the usual ones. -/
def tinyWith (namespaces : Option (String × String)) : MappingFormat :=
  tiny (namespaces.getD defaultNamespaces).1 (namespaces.getD defaultNamespaces).2

/-- **The names of formats**, in any letter case. Only the tiny formats heed the namespaces. -/
theorem ofName_cases (h : ofName name namespaces = .ok f) :
    (Text.lowerLatin name ∈ ["tiny", "tiny2"] ∧ f = tinyWith namespaces ∧
      ∀ other, ofName name other = .ok (tinyWith other)) ∨
    (Text.lowerLatin name ∈ ["proguard", "srg", "csrg", "tsrg", "tsrg2", "parchment"] ∧
      f.isTiny = false ∧ ∀ other, ofName name other = .ok f) := by
  unfold ofName at h ⊢
  dsimp only at h ⊢
  split at h <;> cases h <;> rename_i hName <;> simp [hName, isTiny, tinyWith]

/-- The name of a format stands in front of a colon. -/
theorem name_of_ofName (h : ofName name namespaces = .ok f) : name ≠ "" ∧ ':' ∉ name.toList := by
  have hWords : ∀ word ∈ ["tiny", "tiny2"] ++
      ["proguard", "srg", "csrg", "tsrg", "tsrg2", "parchment"],
      word ≠ "" ∧ ':' ∉ word.toList := by decide
  obtain ⟨hSome, hColon⟩ := hWords (Text.lowerLatin name) <|
    List.mem_append.2 ((ofName_cases h).imp And.left And.left)
  refine ⟨?_, fun hMem => hColon (Text.mem_lowerLatin (by decide) hMem)⟩
  rintro rfl
  exact hSome (by decide)

/-- No other format has a name that starts like those of the tiny ones. -/
theorem isTiny_of_startsWith (h : ofName name namespaces = .ok f)
    (hStart : Text.startsWith name "tiny" = true) : f.isTiny = true := by
  obtain ⟨-, rfl, -⟩ | ⟨hMem, -, -⟩ := ofName_cases h
  · rfl
  · have hOther : ∀ word ∈ ["proguard", "srg", "csrg", "tsrg", "tsrg2", "parchment"],
        Text.startsWith word "tiny" = false := by decide
    have hLower := Text.startsWith_lowerLatin (by decide) hStart
    exact absurd hLower (Bool.eq_false_iff.1 (hOther _ hMem))

end MappingFormat

-- ---------------------------------------------------------------------------
-- Layers
-- ---------------------------------------------------------------------------

namespace LayerSpec

/-- A layer with the given format and path. -/
def written (format path : String) : String := format ++ ":" ++ path

/-- What is read of a layer with a format and a path, if namespaces are given. -/
def given (source target format path : String) : LayerSpec :=
  ⟨(Path.stem? path).getD path, format, path,
    if Text.startsWith format "tiny" then some (source, target) else none⟩

theorem splitFirst?_colon {before after : String} (h : ':' ∉ before.toList) :
    Text.splitFirst? ':' (before ++ ":" ++ after) = some (before, after) := by
  refine Text.splitFirst?_append h ?_
  rw [String.toList_append, String.toList_append, List.append_assoc]
  rfl

/-- **A layer is cut at its first colon**, and so are the namespaces. -/
theorem parse_request (hFormat : format ≠ "") (hColon : ':' ∉ format.toList) (hPath : path ≠ "")
    (hSource : ':' ∉ source.toList) :
    parse (written format path) (some (source ++ ":" ++ target)) =
      .ok (given source target format path) := by
  have hSome : (format.isEmpty || path.isEmpty) = false := by
    simp [hFormat, hPath]
  rw [parse, written, splitFirst?_colon hColon]
  dsimp only
  rw [splitFirst?_colon hSource, hSome, if_neg Bool.false_ne_true, given]
  cases Text.startsWith format "tiny" <;> rfl

/-- A layer that was asked for with a format and a path, while namespaces are given. Its path is kept
as it is. Another format than tiny is the one that was named, and it gets no namespaces; a tiny format
has the given namespaces if its name starts in small letters, and otherwise the usual ones. -/
structure Answers (source target : String) (request : String × String) (layer : MappingLayer) :
    Prop where
  path : layer.spec.source = request.2
  name : layer.spec.format = request.1
  other_format : ∀ namespaces f, MappingFormat.ofName request.1 namespaces = .ok f →
    f.isTiny = false → layer.format = f ∧ layer.spec.namespaces = none
  tiny_format : ∀ namespaces f, MappingFormat.ofName request.1 namespaces = .ok f →
    f.isTiny = true → layer.format = if Text.startsWith request.1 "tiny" then .tiny source target
      else .tiny MappingFormat.defaultNamespaces.1 MappingFormat.defaultNamespaces.2

theorem answers_of_ofName {request : String × String} {f : MappingFormat}
    (h : MappingFormat.ofName request.1 (given source target request.1 request.2).namespaces = .ok f) :
    Answers source target request ⟨given source target request.1 request.2, f⟩ where
  path := rfl
  name := rfl
  other_format namespaces g hName hOther := by
    obtain ⟨-, rfl, -⟩ | ⟨-, -, hAll⟩ := MappingFormat.ofName_cases hName
    · cases hOther
    · refine ⟨Except.ok.inj (h.symm.trans (hAll _)), if_neg fun hStart => ?_⟩
      rw [MappingFormat.isTiny_of_startsWith hName hStart] at hOther
      cases hOther
  tiny_format namespaces g hName hTiny := by
    obtain ⟨-, -, hAll⟩ | ⟨-, hOther, -⟩ := MappingFormat.ofName_cases hName
    · obtain rfl := Except.ok.inj (h.symm.trans (hAll _))
      show MappingFormat.tinyWith (if _ then _ else _) = _
      split <;> rfl
    · rw [hTiny] at hOther
      cases hOther

end LayerSpec

namespace MappingLayers

open LayerSpec

/-- The layers that are asked for one after the other. -/
theorem exists_layers (hSource : ':' ∉ source.toList) {requests : List (String × String)}
    (hRequests : ∀ q ∈ requests, q.2 ≠ "" ∧ ∃ namespaces f,
      MappingFormat.ofName q.1 namespaces = .ok f) :
    ∃ layers : List MappingLayer,
      (requests.mapM fun q => LayerSpec.parse (written q.1 q.2) (some (source ++ ":" ++ target))) =
        .ok (layers.map (·.spec)) ∧
      (layers.map (·.spec)).mapM (fun spec => do
        pure (⟨spec, ← MappingFormat.ofName spec.format spec.namespaces⟩ : MappingLayer)) =
          .ok layers ∧
      List.Forall₂ (Answers source target) requests layers := by
  induction requests with
  | nil => exact ⟨[], rfl, rfl, .nil⟩
  | cons q more ih =>
    obtain ⟨⟨hPath, namespaces, f, hName⟩, hMore⟩ := List.forall_mem_cons.1 hRequests
    obtain ⟨layers, hSpecs, hLayers, hAnswers⟩ := ih hMore
    obtain ⟨hFormat, hColon⟩ := MappingFormat.name_of_ofName hName
    have hSpec : LayerSpec.parse (written q.1 q.2) (some (source ++ ":" ++ target)) =
      .ok (given source target q.1 q.2) := parse_request hFormat hColon hPath hSource
    -- a known name is known whatever the namespaces are
    obtain ⟨g, hGiven⟩ : ∃ g, MappingFormat.ofName q.1
        (given source target q.1 q.2).namespaces = .ok g :=
      (MappingFormat.ofName_cases hName).elim (fun h => ⟨_, h.2.2 _⟩) fun h => ⟨_, h.2.2 _⟩
    refine ⟨⟨_, g⟩ :: layers, ?_, ?_, .cons (answers_of_ofName hGiven) hAnswers⟩
    · rw [List.mapM_cons, hSpec, hSpecs]
      rfl
    · rw [List.map_cons, List.mapM_cons, hLayers]
      show (do let layer ← (do pure (⟨_, ← MappingFormat.ofName q.1 _⟩ : MappingLayer)); _) = _
      rw [hGiven]
      rfl

/-- **Layers that are asked for while namespaces are given.** Each is cut at its first colon and keeps
its path as it is. Layers with known formats make a stack, which has one layer for each of them, as
it answers the request. -/
theorem namespaces_given (hSource : ':' ∉ source.toList) :
    (∀ format path, format ≠ "" → ':' ∉ format.toList → path ≠ "" → ∃ spec,
      LayerSpec.parse (written format path) (some (source ++ ":" ++ target)) = .ok spec ∧
        spec.format = format ∧ spec.source = path) ∧
    ∀ requests : List (String × String), requests ≠ [] →
      (∀ q ∈ requests, q.2 ≠ "" ∧ ∃ namespaces f, MappingFormat.ofName q.1 namespaces = .ok f) →
      ∃ stack : MappingLayers,
        (requests.mapM (fun q => LayerSpec.parse (written q.1 q.2) (some (source ++ ":" ++ target)))
          >>= ofSpecs) = .ok stack ∧
        List.Forall₂ (Answers source target) requests stack.layers := by
  refine ⟨fun format path hFormat hColon hPath =>
    ⟨_, parse_request hFormat hColon hPath hSource, rfl, rfl⟩, fun requests hSome hRequests => ?_⟩
  obtain ⟨layers, hSpecs, hLayers, hAnswers⟩ := @exists_layers source target hSource requests hRequests
  have hStack : ofSpecs (layers.map (·.spec)) = .ok ⟨layers⟩ := by
    rw [ofSpecs, hLayers]
    cases hAnswers with
    | nil => exact absurd rfl hSome
    | cons => rfl
  refine ⟨⟨layers⟩, ?_, hAnswers⟩
  rw [hSpecs]
  exact hStack

/-- A tiny format in other letters reads its usual namespaces; the path keeps its colon. -/
theorem namespaces_given_tiny :
    ':' ∉ "a".toList ∧ ∃ stack : MappingLayers,
      ([("tiny2", "C:/x.tiny"), ("Tiny", "y"), ("SRG", "z")].mapM (fun q =>
        LayerSpec.parse (written q.1 q.2) (some ("a" ++ ":" ++ "b:c"))) >>= ofSpecs) = .ok stack ∧
      stack.layers.map (·.format) = [.tiny "a" "b:c", .tiny "official" "named", .srg] ∧
      stack.layers.map (·.spec.source) = ["C:/x.tiny", "y", "z"] := by
  have hSource : ':' ∉ "a".toList := by decide
  obtain ⟨stack, hStack, hAnswers⟩ := (@namespaces_given "a" "b:c" hSource).2
    [("tiny2", "C:/x.tiny"), ("Tiny", "y"), ("SRG", "z")] (List.cons_ne_nil _ _) (by
      refine List.forall_mem_cons.2 ⟨⟨by decide, none, _, rfl⟩, ?_⟩
      refine List.forall_mem_cons.2 ⟨⟨by decide, none, _, rfl⟩, ?_⟩
      exact List.forall_mem_singleton.2 ⟨by decide, none, _, rfl⟩)
  refine ⟨hSource, stack, hStack, ?_⟩
  obtain ⟨layers⟩ := stack
  cases hAnswers with
  | cons hFirst hMore =>
    cases hMore with
    | cons hSecond hMore =>
      cases hMore with
      | cons hThird hMore =>
        cases hMore
        simp only [List.map_cons, List.map_nil, hFirst.path, hSecond.path, hThird.path,
          hFirst.tiny_format none _ rfl rfl, hSecond.tiny_format none _ rfl rfl,
          (hThird.other_format none _ rfl rfl).1]
        decide

end MappingLayers

end Jarsmith
