import Jarsmith.Mappings.Layers
import Jarsmith.Proofs.Running
import Jarsmith.Proofs.Store.Staging
import Jarsmith.Proofs.Text.Utf8

/-!
# Digests of mapping stacks

What the digest of a stack of layers says about the stack. The digested message has a mark behind
the name and behind the format of every layer, but none behind its file, so a file runs on into the
name of the next layer. Two messages tell two stacks apart where these names are as long in both.

* `framed_inj` — what a message says about names, formats and files.
* `ResolvedLayer.run_stateMessage`, `ResolvedLayer.run_readAll` — the message and the table of a
  stack, by the files that are read.
* `ResolvedLayer.readAll_of_stateMessage` — stacks with one message have one table.
-/

namespace Jarsmith

-- ---------------------------------------------------------------------------
-- Framing
-- ---------------------------------------------------------------------------

/-- A list is cut in one way at the first `x`. -/
theorem append_cons_inj {α : Type} {x : α} {a a' b b' : List α} (ha : x ∉ a) (ha' : x ∉ a')
    (h : a ++ x :: b = a' ++ x :: b') : a = a' ∧ b = b' := by
  induction a generalizing a' with
  | nil =>
    cases a' with
    | nil => exact ⟨rfl, (List.cons.inj h).2⟩
    | cons y more => exact absurd ((List.cons.inj h).1 ▸ List.mem_cons_self) ha'
  | cons y more ih =>
    cases a' with
    | nil => exact absurd ((List.cons.inj h).1 ▸ List.mem_cons_self) ha
    | cons z more' =>
      obtain ⟨rfl, hMore⟩ := List.cons.inj h
      obtain ⟨rfl, hRest⟩ := ih (fun hMem => ha (List.mem_cons_of_mem _ hMem))
        (fun hMem => ha' (List.mem_cons_of_mem _ hMem)) hMore
      exact ⟨rfl, hRest⟩

/-- Two lists with one image, where equal images come of elements that look alike. -/
theorem map_eq_map_of_inj {α β γ : Type} {f : α → β} {g : α → γ} {l l' : List α}
    (hInj : ∀ a ∈ l, ∀ a' ∈ l', f a = f a' → g a = g a') (h : l.map f = l'.map f) :
    l.map g = l'.map g := by
  induction l generalizing l' with
  | nil => rw [List.map_eq_nil_iff.1 h.symm]
  | cons a more ih =>
    cases l' with
    | nil => cases h
    | cons a' more' =>
      obtain ⟨hHead, hTail⟩ := List.cons.inj h
      rw [List.map_cons, List.map_cons, hInj a List.mem_cons_self a' List.mem_cons_self hHead,
        ih (fun b hb b' hb' => hInj b (List.mem_cons_of_mem _ hb) b' (List.mem_cons_of_mem _ hb'))
          hTail]

/-- A name, a format and a file, in bytes. -/
structure LayerFrame where
  name : Bytes
  format : Bytes
  content : Bytes

namespace LayerFrame

/-- No part of a frame holds the mark. -/
structure Unmarked (frame : LayerFrame) : Prop where
  name : 0 ∉ frame.name
  format : 0 ∉ frame.format
  content : 0 ∉ frame.content

end LayerFrame

/-- Frames one behind the other, with marks behind the name and behind the format. -/
def framed : List LayerFrame → Bytes
  | [] => []
  | frame :: more => frame.name ++ 0 :: (frame.format ++ 0 :: (frame.content ++ framed more))

theorem framed_cons_ne_nil {frame : LayerFrame} {more : List LayerFrame} :
    framed (frame :: more) ≠ [] :=
  List.append_ne_nil_of_right_ne_nil _ (List.cons_ne_nil _ _)

/-- A file that is followed by further frames ends where the next name begins, which its length
tells. -/
theorem content_inj {content content' : Bytes} {l l' : List LayerFrame}
    (hContent : 0 ∉ content) (hContent' : 0 ∉ content') (hFree : ∀ frame ∈ l, frame.Unmarked)
    (hFree' : ∀ frame ∈ l', frame.Unmarked)
    (hLengths : l.map (·.name.length) = l'.map (·.name.length))
    (h : content ++ framed l = content' ++ framed l') :
    content = content' ∧ framed l = framed l' := by
  cases l with
  | nil =>
    obtain rfl := List.map_eq_nil_iff.1 hLengths.symm
    exact ⟨List.append_cancel_right h, rfl⟩
  | cons next rest =>
    cases l' with
    | nil => cases hLengths
    | cons next' rest' =>
      have hNext := (List.forall_mem_cons.1 hFree).1.name
      have hNext' := (List.forall_mem_cons.1 hFree').1.name
      rw [framed, framed, ← List.append_assoc, ← List.append_assoc] at h
      -- the first mark stands behind the next name
      obtain ⟨hFront, hBack⟩ := append_cons_inj
        (List.not_mem_append hContent hNext) (List.not_mem_append hContent' hNext') h
      obtain ⟨hFiles, hNames⟩ := List.append_inj' hFront (List.cons.inj hLengths).1
      exact ⟨hFiles, by rw [framed, framed, hNames, hBack]⟩

/-- **What a message says about frames.** It tells all of them, where the names behind the first one
are as long. -/
theorem framed_inj {l l' : List LayerFrame} (hFree : ∀ frame ∈ l, frame.Unmarked)
    (hFree' : ∀ frame ∈ l', frame.Unmarked)
    (hLengths : l.tail.map (·.name.length) = l'.tail.map (·.name.length))
    (h : framed l = framed l') : l = l' := by
  induction l generalizing l' with
  | nil =>
    cases l' with
    | nil => rfl
    | cons frame more => exact absurd h.symm framed_cons_ne_nil
  | cons frame more ih =>
    cases l' with
    | nil => exact absurd h framed_cons_ne_nil
    | cons frame' more' =>
      obtain ⟨hFrame, hMore⟩ := List.forall_mem_cons.1 hFree
      obtain ⟨hFrame', hMore'⟩ := List.forall_mem_cons.1 hFree'
      rw [List.tail_cons, List.tail_cons] at hLengths
      rw [framed, framed] at h
      obtain ⟨hName, hBehindName⟩ := append_cons_inj hFrame.name hFrame'.name h
      obtain ⟨hFormat, hBehindFormat⟩ := append_cons_inj hFrame.format hFrame'.format hBehindName
      obtain ⟨hContent, hRest⟩ := content_inj hFrame.content hFrame'.content hMore hMore' hLengths
        hBehindFormat
      have hTail : more.tail.map (·.name.length) = more'.tail.map (·.name.length) := by
        rw [List.map_tail, List.map_tail, hLengths]
      rw [ih hMore hMore' hTail hRest]
      cases frame
      cases frame'
      cases hName
      cases hFormat
      cases hContent
      rfl

-- ---------------------------------------------------------------------------
-- Files without marks
-- ---------------------------------------------------------------------------

/-- A file without zeros is no archive that the library wrote. -/
theorem Content.eq_raw {content : Content} (h : 0 ∉ content.bytes) :
    content = .raw content.bytes := by
  cases content with
  | raw bytes => rfl
  | archive entries =>
    have hZero : 0 ∈ little 2 0 := List.mem_cons_self
    exact absurd (List.mem_append_right _ hZero) h

namespace ResolvedLayer

open Running FileAction

/-- A layer whose name and format a message tells: neither holds the mark, and the separator of the
namespaces stands in no first namespace. -/
structure Framed (layer : ResolvedLayer) : Prop where
  name : Char.ofNat 0 ∉ layer.name.toList
  format : Char.ofNat 0 ∉ layer.formatText.toList
  source : ∀ {source target}, layer.format = .tiny source target → ':' ∉ source.toList

/-- A format is told by its text. -/
theorem format_of_formatText {layer layer' : ResolvedLayer} (hFramed : layer.Framed)
    (hFramed' : layer'.Framed) (h : layer.formatText = layer'.formatText) :
    layer.format = layer'.format := by
  have hSource := @hFramed.source
  have hSource' := @hFramed'.source
  obtain ⟨name, format, file⟩ := layer
  obtain ⟨name', format', file'⟩ := layer'
  have hText := congrArg String.toList h
  cases format <;> cases format' <;>
    simp [formatText, MappingFormat.name, String.toList_append] at hText ⊢
  obtain ⟨hFront, hBack⟩ := append_cons_inj (hSource rfl) (hSource' rfl) hText
  exact ⟨String.toList_inj.1 hFront, String.toList_inj.1 hBack⟩

-- ---------------------------------------------------------------------------
-- Messages and tables
-- ---------------------------------------------------------------------------

variable {layers layers' : List ResolvedLayer} {s t s' t' : Store} {message : Bytes}

/-- What a message holds of a layer whose file was read. -/
def frame (found : ResolvedLayer × Content) : LayerFrame :=
  ⟨Utf8.encode found.1.name, Utf8.encode found.1.formatText, found.2.bytes⟩

/-- What a table depends on. -/
def reading (found : ResolvedLayer × Content) : MappingFormat × Content := (found.1.format, found.2)

theorem Framed.unmarked {found : ResolvedLayer × Content} (hFramed : found.1.Framed)
    (hText : 0 ∉ found.2.bytes) : (frame found).Unmarked :=
  ⟨fun h => hFramed.name (Utf8.zero_mem_encode h), fun h => hFramed.format (Utf8.zero_mem_encode h),
    hText⟩

/-- A frame tells all that a table depends on. -/
theorem reading_of_frame {found found' : ResolvedLayer × Content} (hFramed : found.1.Framed)
    (hFramed' : found'.1.Framed) (hText : 0 ∉ found.2.bytes) (hText' : 0 ∉ found'.2.bytes)
    (h : frame found = frame found') : reading found = reading found' := by
  have hFormat :=
    format_of_formatText hFramed hFramed' (Utf8.encode_inj (congrArg LayerFrame.format h))
  have hContent : found.2 = found'.2 := by
    rw [Content.eq_raw hText, Content.eq_raw hText']
    exact congrArg Content.raw (congrArg LayerFrame.content h)
  exact Prod.ext hFormat hContent

/-- What the layers of a stack read in a store. -/
structure Reads (s : Store) (layers : List ResolvedLayer) (found : List (ResolvedLayer × Content)) :
    Prop where
  layers : found.map Prod.fst = layers
  contents : ∀ pair ∈ found, s.content pair.1.file = .ok pair.2

theorem flatten_stateBytes (found : List (ResolvedLayer × Content)) :
    (found.map fun pair => pair.1.stateBytes pair.2.bytes).flatten = framed (found.map frame) := by
  induction found with
  | nil => rfl
  | cons pair more ih =>
    rw [List.map_cons, List.flatten_cons, ih, List.map_cons, framed, frame, stateBytes]
    simp only [List.append_assoc, List.cons_append]

theorem run_read {path : String} {content : Content}
    (h : (FileAction.read path).run.run s = (.ok content, t)) :
    s = t ∧ s.content path = .ok content := by
  obtain ⟨hRead, hSame⟩ := run_look.1 h
  exact ⟨hSame, Outcome.mapError_ok_iff.1 hRead⟩

/-- **A message**: the frames of all layers, each with its file. -/
theorem run_stateMessage (h : (stateMessage layers).run.run s = (.ok message, t)) :
    ∃ found, Reads s layers found ∧ message = framed (found.map frame) := by
  obtain ⟨parts, u, hParts, hPure⟩ := Running.bind_ok_iff.1 h
  obtain ⟨hMessage, -⟩ := Running.pure_iff.1 hPure
  cases hMessage
  suffices hFound : ∃ found, Reads s layers found ∧
      parts = found.map fun pair => pair.1.stateBytes pair.2.bytes by
    obtain ⟨found, hReads, rfl⟩ := hFound
    exact ⟨found, hReads, flatten_stateBytes found⟩
  clear h hPure
  induction layers generalizing s u parts with
  | nil =>
    obtain ⟨hNil, -⟩ := Running.pure_iff.1 hParts
    cases hNil
    exact ⟨[], ⟨rfl, nofun⟩, rfl⟩
  | cons layer more ih =>
    rw [List.mapM_cons] at hParts
    obtain ⟨part, v, hPart, hMore⟩ := Running.bind_ok_iff.1 hParts
    obtain ⟨rest, w, hRest, hCons⟩ := Running.bind_ok_iff.1 hMore
    obtain ⟨hResult, -⟩ := Running.pure_iff.1 hCons
    cases hResult
    obtain ⟨content, x, hRead, hBytes⟩ := Running.bind_ok_iff.1 hPart
    obtain ⟨rfl, hContent⟩ := run_read hRead
    obtain ⟨hBytes, rfl⟩ := Running.pure_iff.1 hBytes
    cases hBytes
    obtain ⟨found, ⟨hLayers, hContents⟩, rfl⟩ := ih _ _ hRest
    exact ⟨(layer, content) :: found, ⟨congrArg (layer :: ·) hLayers,
      List.forall_mem_cons.2 ⟨hContent, hContents⟩⟩, rfl⟩

/-- The tables of files, merged in their order. -/
def merged (readings : List (MappingFormat × Content)) : Result MappingSet :=
  readings.foldlM (fun merged r => do pure (merged.merge (← r.1.read r.2))) ∅

/-- **A table**: what all layers read, merged. -/
theorem run_readAll {found : List (ResolvedLayer × Content)} (hReads : Reads s layers found) :
    (readAll layers).run.run s = (merged (found.map reading), s) := by
  obtain ⟨rfl, hContents⟩ := hReads
  rw [readAll, merged, List.foldlM_map, List.foldlM_map]
  refine foldlM_of_run fun start pair hMem => ?_
  have hRead : (FileAction.read pair.1.file).run.run s = (.ok pair.2, s) :=
    run_look.2 ⟨by rw [hContents pair hMem]; rfl, rfl⟩
  have hTable : pair.1.read.run.run s = (pair.1.format.read pair.2, s) :=
    (bind_of_ok hRead).2 (run_lift.2 ⟨rfl, rfl⟩)
  show _ = ((do pure (start.merge (← pair.1.format.read pair.2)) : Result MappingSet), s)
  cases hSet : pair.1.format.read pair.2 with
  | error e => exact bind_iff.2 (.inl ⟨e, hSet ▸ hTable, rfl⟩)
  | ok set => exact (bind_of_ok (hSet ▸ hTable)).2 (run_pure.2 ⟨rfl, rfl⟩)

/-- **Stacks with one message have one table**, or both have none, be it that they stand in
different stores. The names behind the first one must be as long, since a file runs on into the next
name. -/
theorem readAll_of_stateMessage (hFramed : ∀ layer ∈ layers, layer.Framed)
    (hFramed' : ∀ layer ∈ layers', layer.Framed)
    (hText : ∀ layer ∈ layers, ∀ content, s.content layer.file = .ok content → 0 ∉ content.bytes)
    (hText' : ∀ layer ∈ layers', ∀ content, s'.content layer.file = .ok content →
      0 ∉ content.bytes)
    (hLengths : layers.tail.map (fun layer => (Utf8.encode layer.name).length) =
      layers'.tail.map (fun layer => (Utf8.encode layer.name).length))
    (h : (stateMessage layers).run.run s = (.ok message, t))
    (h' : (stateMessage layers').run.run s' = (.ok message, t')) :
    ((readAll layers).run.run s).1 = ((readAll layers').run.run s').1 := by
  obtain ⟨found, hReads, hMessage⟩ := run_stateMessage h
  obtain ⟨found', hReads', hMessage'⟩ := run_stateMessage h'
  rw [run_readAll hReads, run_readAll hReads']
  obtain ⟨rfl, hContents⟩ := hReads
  obtain ⟨rfl, hContents'⟩ := hReads'
  have hFree : ∀ pair ∈ found, 0 ∉ pair.2.bytes := fun pair hMem =>
    hText pair.1 (List.mem_map_of_mem hMem) pair.2 (hContents pair hMem)
  have hFree' : ∀ pair ∈ found', 0 ∉ pair.2.bytes := fun pair hMem =>
    hText' pair.1 (List.mem_map_of_mem hMem) pair.2 (hContents' pair hMem)
  have hFrames : found.map frame = found'.map frame := by
    refine framed_inj ?_ ?_ ?_ (hMessage.symm.trans hMessage')
    · exact List.forall_mem_map.2 fun pair hMem =>
        (hFramed pair.1 (List.mem_map_of_mem hMem)).unmarked (hFree pair hMem)
    · exact List.forall_mem_map.2 fun pair hMem =>
        (hFramed' pair.1 (List.mem_map_of_mem hMem)).unmarked (hFree' pair hMem)
    · rw [← List.map_tail, ← List.map_tail, List.map_map, List.map_map] at hLengths ⊢
      exact hLengths
  have hReadings : found.map reading = found'.map reading :=
    map_eq_map_of_inj (fun pair hMem pair' hMem' hFrame =>
      reading_of_frame (hFramed pair.1 (List.mem_map_of_mem hMem))
        (hFramed' pair'.1 (List.mem_map_of_mem hMem')) (hFree pair hMem) (hFree' pair' hMem')
        hFrame)
      hFrames
  rw [hReadings]

/-- Two mapping files, each at two places. -/
def exampleStore : Store :=
  ⟨⟨[(["a"], .file (.ofText "a b")), (["c"], .file (.ofText "c d")), (["x"], .file (.ofText "a b")),
    (["y"], .file (.ofText "c d"))], by decide⟩, 0⟩

/-- The stack of two files. -/
def exampleLayers (first second : String) : List ResolvedLayer :=
  [⟨"base", .csrg, first⟩, ⟨"names", .csrg, second⟩]

/-- The message of the stack, wherever its files stand. -/
def exampleMessage : Bytes :=
  framed [⟨Utf8.encode "base", Utf8.encode "csrg", Utf8.encode "a b"⟩,
    ⟨Utf8.encode "names", Utf8.encode "csrg", Utf8.encode "c d"⟩]

theorem framed_exampleLayers {first second : String} :
    ∀ layer ∈ exampleLayers first second, layer.Framed := by
  simp only [exampleLayers, List.forall_mem_cons]
  refine ⟨⟨?_, ?_, nofun⟩, ⟨?_, ?_, nofun⟩, nofun⟩
  · show _ ∉ "base".toList
    decide
  · show _ ∉ "csrg".toList
    decide
  · show _ ∉ "names".toList
    decide
  · show _ ∉ "csrg".toList
    decide

theorem readAll_of_stateMessage_moved :
    ((readAll (exampleLayers "a" "c")).run.run exampleStore).1 =
      ((readAll (exampleLayers "x" "y")).run.run exampleStore).1 := by
  have hA : exampleStore.content "a" = .ok (.ofText "a b") := rfl
  have hC : exampleStore.content "c" = .ok (.ofText "c d") := rfl
  have hX : exampleStore.content "x" = .ok (.ofText "a b") := rfl
  have hY : exampleStore.content "y" = .ok (.ofText "c d") := rfl
  have hFirst : 0 ∉ (Content.ofText "a b").bytes := by decide
  have hSecond : 0 ∉ (Content.ofText "c d").bytes := by decide
  have hMessage : (stateMessage (exampleLayers "a" "c")).run.run exampleStore =
    (.ok exampleMessage, exampleStore) := rfl
  have hMessage' : (stateMessage (exampleLayers "x" "y")).run.run exampleStore =
    (.ok exampleMessage, exampleStore) := rfl
  refine readAll_of_stateMessage framed_exampleLayers framed_exampleLayers ?_ ?_ rfl hMessage
    hMessage'
  · simpa [exampleLayers, hA, hC] using ⟨hFirst, hSecond⟩
  · simpa [exampleLayers, hX, hY] using ⟨hFirst, hSecond⟩

end ResolvedLayer

end Jarsmith
