import Jarsmith.Proofs.Jar.Passes
import Jarsmith.Proofs.Jar.Replacing
import Jarsmith.Proofs.Resolver.Places

/-!
# Making jars

What the steps that make a jar touch, and what they leave.

* `Resolver.frame_writeMetadata`, `Resolver.frame_deleteDerived`, `Resolver.frame_makeSideJar` — the
  footprints of the steps.
* `Resolver.SideEntries` — what a side takes from its download.
-/

namespace Jarsmith

open Running Store

variable {α : Type} {touched dropped : List String → Prop} {s t u : Store}

namespace Resolver

variable {root version jar downloaded : String} {p : Platform} {side : Side}
  {bundle : Option Bundle} {env : Environment} {upToDate : Bool}

-- ---------------------------------------------------------------------------
-- Metadata
-- ---------------------------------------------------------------------------

theorem frame_writeIfNecessary {directory artifact : String} {v : VersionDescriptor}
    {dependencies : List MavenCoordinate} :
    Respects (Store.Frame (HasSuffix "-vg2.xml") fun _ => False)
      (Ivy.writeIfNecessary directory artifact v dependencies upToDate) := by
  have hWrite : Respects (Store.Frame (HasSuffix "-vg2.xml") fun _ => False)
      (FileAction.writeAtomically (Ivy.path directory v.id) fun staged =>
        FileAction.write staged (.ofText (Ivy.render artifact v dependencies))) :=
    (FileAction.frame_writeAtomically fun _ => FileAction.ChangesOnly.write).imp fun h =>
      h.mono (fun _ hp => hp ▸ hasSuffix_ivyPath) nofun
  unfold Ivy.writeIfNecessary
  refine .bind FileAction.frame_isFile fun there => ?_
  split
  · exact .pure
  · exact hWrite.bind fun _ => .pure

theorem frame_writeMetadata : Respects (Store.Frame (HasSuffix "-vg2.xml") fun _ => False)
    (writeMetadata env upToDate) := by
  unfold writeMetadata
  refine .during ?_
  split
  · exact frame_writeIfNecessary.bind fun _ => .pure
  · exact .pure

-- ---------------------------------------------------------------------------
-- Jars that are deleted
-- ---------------------------------------------------------------------------

theorem frame_discardAll {paths : List String} :
    Respects (Store.Frame (fun q => ∃ path ∈ paths, q = placeOf path)
      fun q => ∃ path ∈ paths, q = placeOf path) (FileAction.discardAll paths) := by
  refine .bind .get fun _ => .bind (.forM fun path hMem => ?_) fun _ => .pure
  exact FileAction.frame_discard.imp fun h =>
    h.mono (fun _ hp => ⟨path, hMem, hp⟩) fun _ hp => ⟨path, hMem, hp⟩

/-- What a directory of a proper store holds stands directly below it. -/
theorem placeOf_of_mem_namesIn {directory name : String} (hProper : s.IsProper)
    (hMem : name ∈ s.namesIn directory) :
    placeOf (Path.join directory name) = placeOf directory ++ [name] := by
  unfold Store.namesIn at hMem
  split at hMem
  · cases hMem
  · rename_i above hLocate
    obtain rfl := eq_placeOf hLocate
    obtain ⟨place, hKey, hName⟩ := List.mem_filterMap.1 hMem
    split at hName
    · obtain ⟨front, rfl⟩ := List.getLast?_eq_some_iff.1 hName
      obtain ⟨node, hNode⟩ := OrderedMap.mem_keys.1 hKey
      have hThere : s.node? (front ++ [name]) ≠ none := by
        rw [node?_of_ne_nil (by simp), hNode]
        nofun
      have hPlain := hProper _ hThere name (by simp)
      rw [placeOf, Path.names_join hPlain.1, List.foldl_append, List.foldl_cons, List.foldl_nil,
        next, if_neg hPlain.2]
      rfl
    · cases hName

/-- Deleting jars touches jars in the directory of a platform, but not the jar of the platform. -/
theorem frame_deleteDerived (hVersion : Path.IsPlain version) :
    Respects (Store.Frame (derivedFrom root p version) (derivedFrom root p version))
      (deleteDerived p version (artifactPath root p.id version)) where
  run {s r t} h hProper := by
    obtain ⟨directory, hParent, hPlace⟩ :=
      exists_parent_artifactPath root (isPlain_id (p := p)) hVersion
    rw [deleteDerived, hParent] at h
    have hGet : (getThe Store : FileAction Store).run.run s = (.ok s, s) := rfl
    dsimp only at h
    rw [bind_of_ok hGet] at h
    -- every path at which a jar is deleted leads to a derived jar
    have hDerived : ∀ path ∈ ((s.namesIn directory).filter fun name =>
        Path.extension? name == some "jar" &&
          Path.fileName? (artifactPath root p.id version) != some name).map (Path.join directory),
        derivedFrom root p version (placeOf path) := by
      intro path hMem
      obtain ⟨name, hName, rfl⟩ := List.mem_map.1 hMem
      obtain ⟨hIn, hJar⟩ := List.mem_filter.1 hName
      rw [fileName?_artifactPath isPlain_id hVersion] at hJar
      simp only [Bool.and_eq_true, beq_iff_eq, bne_iff_ne, ne_eq, Option.some.injEq] at hJar
      refine ⟨name, ?_, hJar.1, fun hSame => hJar.2 hSame.symm⟩
      rw [placeOf_of_mem_namesIn hProper hIn, hPlace, List.append_assoc]
      rfl
    have hDiscard := frame_discardAll.imp fun {s t} h => Store.Frame.mono h
      (fun _ ⟨path, hMem, hp⟩ => hp ▸ hDerived path hMem)
      fun _ ⟨path, hMem, hp⟩ => hp ▸ hDerived path hMem
    refine (hDiscard.bind fun stuck => ?_).run h hProper
    split
    · exact .throw
    · exact .pure

-- ---------------------------------------------------------------------------
-- Jars of one side
-- ---------------------------------------------------------------------------

theorem frame_extractJar {output : String} :
    Respects (Store.Frame (· = placeOf output) (· = placeOf output))
      (side.extractJar downloaded output bundle) := by
  have hWrite : ∀ content, Respects (Store.Frame (· = placeOf output) (· = placeOf output))
      (FileAction.write output content) := fun content =>
    FileAction.frame_write.imp fun h => h.mono (fun _ => id) nofun
  have hServer : ∀ found : Bundle, Respects (Store.Frame (· = placeOf output) (· = placeOf output))
      (found.extractServer downloaded output) := by
    intro found
    refine FileAction.frame_entries.bind fun entries => ?_
    split
    · exact hWrite _
    · exact .throw
  have hCopy : Respects (Store.Frame (· = placeOf output) (· = placeOf output))
      (FileAction.copy downloaded output) :=
    FileAction.frame_look.bind fun _ => hWrite _
  have hBehind : ∀ (there : Bool) {x : FileAction Unit},
      Respects (Store.Frame (· = placeOf output) (· = placeOf output)) x →
      Respects (Store.Frame (· = placeOf output) (· = placeOf output))
        (if there then FileAction.change output (·.remove output) >>= fun _ => x else x) := by
    intro there x hRest
    cases there with
    | false => exact hRest
    | true => exact (FileAction.frame_change fun h => frame_remove h).bind fun _ => hRest
  unfold Side.extractJar
  refine .bind .get fun s => ?_
  obtain _ | _ := side
  · exact hBehind _ hCopy
  · cases bundle with
    | none => exact hBehind _ hCopy
    | some found => exact hBehind _ (hServer found)

theorem frame_transform {source target : String} {stages : List Transformer} :
    Respects (Store.Frame (· = placeOf target) fun _ => False)
      (Jar.transform source target stages) :=
  FileAction.frame_writeAtomically fun _ => FileAction.ChangesOnly.entries.bind fun _ =>
    FileAction.ChangesOnly.write.bind fun _ => Jar.changesOnly_writeSteps.bind fun _ =>
      FileAction.ChangesOnly.pure

theorem frame_merge {client server target : String} :
    Respects (Store.Frame (· = placeOf target) fun _ => False) (Jar.merge client server target) :=
  FileAction.frame_entries.bind fun _ => FileAction.frame_entries.bind fun _ =>
    FileAction.frame_writeAtomically fun _ => FileAction.ChangesOnly.write.bind fun _ =>
      Jar.changesOnly_writeSteps.bind fun _ => Jar.changesOnly_writeSteps.bind fun _ =>
        FileAction.ChangesOnly.pure

/-- What a side takes out of its download before the stages. -/
def extracted? (side : Side) (bundle : Option Bundle) (download : Content) : Option Content :=
  match side, bundle with
  | .server, some bundle =>
    (download.entries?.bind fun entries => Bundle.data? entries bundle.server.path).map .raw
  | _, _ => some download

theorem content_of_extractJar {output : String} {download : Content} (hProper : s.IsProper)
    (hDownload : s.content downloaded = .ok download) (hApart : placeOf downloaded ≠ placeOf output)
    (h : (side.extractJar downloaded output bundle).run.run s = (.ok (), u)) :
    ∃ content, extracted? side bundle download = some content ∧ u.content output = .ok content := by
  have hExtract : ∀ {s}, s.content downloaded = .ok download →
      (match side, bundle with
        | .server, some bundle => bundle.extractServer downloaded output
        | _, _ => FileAction.copy downloaded output : FileAction Unit).run.run s = (.ok (), u) →
      ∃ content, extracted? side bundle download = some content ∧
        u.content output = .ok content := by
    intro s hDownload h
    unfold extracted?
    split at h
    · rename_i bundle
      obtain ⟨entries, _, hRead, h⟩ := bind_ok_iff.1 h
      obtain ⟨rfl, hEntries⟩ := FileAction.run_entries hRead
      have hEntries := hEntries _ rfl
      rw [Store.entriesAt?, hDownload] at hEntries
      split at h
      · rename_i data hData
        exact ⟨.raw data, by simp [hEntries, hData], Jar.run_write h⟩
      · cases (throw_iff.1 h).1
    · rename_i hNo
      obtain ⟨content, _, hLook, h⟩ := bind_ok_iff.1 h
      obtain ⟨hContent, rfl⟩ := FileAction.run_look.1 hLook
      obtain rfl := Except.ok.inj (hDownload.symm.trans (Outcome.mapError_ok_iff.1 hContent))
      exact ⟨download, rfl, Jar.run_write h⟩
  have hGet : (getThe Store : FileAction Store).run.run s = (.ok s, s) := rfl
  unfold Side.extractJar at h
  rw [bind_of_ok hGet] at h
  cases hThere : s.isThere output with
  | false =>
    rw [hThere] at h
    exact hExtract hDownload h
  | true =>
    rw [hThere] at h
    obtain ⟨_, t, hClear, h⟩ := bind_ok_iff.1 h
    have hFrame := (FileAction.frame_change fun h => frame_remove h).run hClear hProper
    exact hExtract (content_of_same hFrame.directories (hFrame.elsewhere _ hApart) hDownload) h

/-- How the jar of a side is made: what it takes out of the download is put at a sibling, from which
the jar is made, and which is discarded. -/
theorem run_makeSideJar {r : Result Unit}
    (h : (makeSideJar side downloaded jar bundle).run.run s = (r, u)) :
    (∃ e, .error e = r ∧ Store.Frame (HasSuffix ".tmp") (HasSuffix ".tmp") s u) ∨
      ∃ number s₀ s₁ made s₂, Store.Frame (fun _ => False) (fun _ => False) s s₀ ∧
        (side.extractJar downloaded (FileAction.siblingPath jar number) bundle).run.run s₀ =
          (.ok (), s₁) ∧
        (Jar.transform (FileAction.siblingPath jar number) jar (sideStages side bundle)).run.run s₁ =
          (made, s₂) ∧
        FileAction.discarded (FileAction.siblingPath jar number) s₂ = u ∧
          (made.map fun _ => ()) = r := by
  obtain ⟨e, hParents, hr⟩ | ⟨_, t, hParents, h⟩ := bind_iff.1 h
  · exact .inl ⟨e, hr, FileAction.frame_makeParents.run hParents⟩
  obtain ⟨number, -, -, hSibling⟩ := FileAction.temporarySibling_run t jar
  rw [bind_of_ok hSibling] at h
  have hStart : Store.Frame (fun _ => False) (fun _ => False) s { t with counter := number + 1 } :=
    trans_of (Store.Frame _ _) (FileAction.frame_makeParents.run hParents) frame_counter
  obtain ⟨e, hExtract, hr⟩ | ⟨_, s₁, hExtract, h⟩ := bind_iff.1 h
  · refine .inl ⟨e, hr, trans_of (Store.Frame _ _) (hStart.mono nofun nofun)
      ((frame_extractJar.run hExtract).mono ?_ ?_)⟩
    · exact fun _ hp => hp ▸ hasSuffix_siblingPath
    · exact fun _ hp => hp ▸ hasSuffix_siblingPath
  obtain ⟨_, hFail, -⟩ | ⟨made, s₂, hTransform, h⟩ := bind_iff.1 h
  · obtain ⟨_, -, hOk⟩ := observing_iff.1 hFail
    cases hOk
  obtain ⟨_, hTransform, hMade⟩ := observing_iff.1 hTransform
  cases hMade
  rw [bind_of_ok FileAction.run_discard] at h
  refine .inr ⟨number, _, s₁, made, s₂, hStart, hExtract, hTransform, ?_⟩
  obtain ⟨e, hLift, hr⟩ | ⟨n, _, hLift, h⟩ := bind_iff.1 h
  · obtain ⟨rfl, hu⟩ := liftExcept_iff.1 hLift
    exact ⟨hu, hr⟩
  · obtain ⟨rfl, rfl⟩ := liftExcept_iff.1 hLift
    obtain ⟨hr, hu⟩ := pure_iff.1 h
    exact ⟨hu, hr⟩

/-- Making the jar of a side touches the jar and temporary files, and drops only temporary ones. -/
theorem frame_makeSideJar :
    Respects (Store.Frame (fun q => q = placeOf jar ∨ HasSuffix ".tmp" q) (HasSuffix ".tmp"))
      (makeSideJar side downloaded jar bundle) where
  run {s r u} h := by
    obtain ⟨_, -, hFrame⟩ | ⟨number, s₀, s₁, made, s₂, hStart, hExtract, hTransform, rfl, -⟩ :=
      run_makeSideJar h
    · exact hFrame.mono (fun _ => .inr) fun _ => id
    · refine trans_of (Store.Frame _ _) (hStart.mono nofun nofun) (trans_of (Store.Frame _ _)
        ((frame_extractJar.run hExtract).mono ?_ ?_) (trans_of (Store.Frame _ _)
          ((frame_transform.run hTransform).mono (fun _ => .inl) nofun)
          (FileAction.frame_discarded.mono ?_ ?_)))
      · exact fun _ hp => .inr (hp ▸ hasSuffix_siblingPath)
      · exact fun _ hp => hp ▸ hasSuffix_siblingPath
      · exact fun _ hp => .inr (hp ▸ hasSuffix_siblingPath)
      · exact fun _ hp => hp ▸ hasSuffix_siblingPath

/-- A jar of a side that cannot be made stays as it was. -/
theorem fileAt?_of_makeSideJar {e : Error} (hProper : s.IsProper)
    (hJar : ¬ HasSuffix ".tmp" (placeOf jar))
    (h : (makeSideJar side downloaded jar bundle).run.run s = (.error e, u)) :
    u.fileAt? (placeOf jar) = s.fileAt? (placeOf jar) := by
  obtain ⟨_, -, hFrame⟩ | ⟨number, s₀, s₁, made, s₂, hStart, hExtract, hTransform, rfl, hMade⟩ :=
    run_makeSideJar h
  · exact (hFrame hProper).elsewhere _ hJar
  · have hSibling : ¬ placeOf jar = placeOf (FileAction.siblingPath jar number) := fun hSame =>
      hJar (hSame ▸ hasSuffix_siblingPath)
    have hStart := hStart hProper
    have hExtract := frame_extractJar.run hExtract hStart.proper
    have hProper₂ := (frame_transform.run hTransform hExtract.proper).proper
    cases made with
    | ok n => cases hMade
    | error e =>
      have hSame := (Jar.allOrNothing_transform.whole System.whole_calm hTransform) (placeOf jar)
      rw [(FileAction.frame_discarded hProper₂).elsewhere _ hSibling, hSame,
        hExtract.elsewhere _ hSibling, hStart.elsewhere _ id]

/-- The entries of the jar of a side whose download holds `download`: they are taken out, filtered,
and stripped of signatures. -/
def madeEntries (side : Side) (bundle : Option Bundle) (download : Content) :
    Option (List ArchiveEntry) := do
  let content ← extracted? side bundle download
  let entries ← content.entries?
  (Jar.transformEntries "" (sideStages side bundle) entries).toOption

/-- The name of a jar shows in errors only. -/
theorem toOption_transformEntries {path path' : String} {stages : List Transformer}
    {entries out : List ArchiveEntry} (h : Jar.transformEntries path stages entries = .ok out) :
    (Jar.transformEntries path' stages entries).toOption = some out := by
  rw [Jar.transformEntries_eq_ok.2 (Jar.transformEntries_eq_ok.1 h)]
  rfl

/-- A transformed jar holds what the stages make of the entries of the source. -/
theorem content_of_transform {source target : String} {stages : List Transformer} {n : Nat}
    {content : Content} (hProper : s.IsProper) (hSource : s.content source = .ok content)
    (h : (Jar.transform source target stages).run.run s = (.ok n, u)) :
    ∃ entries written, content.entries? = some entries ∧
      Jar.transformEntries source stages entries = .ok written ∧
        u.content target = .ok (System.calm.archive written) := by
  obtain ⟨place, written, ⟨start, number, hPrepared, entries, hEntries, hWritten, -⟩, hLocate, hNode,
    -⟩ := Jar.allOrNothing_transform.succeeded h
  have hStart : Within (fun _ => False) (fun _ => False) s start := hPrepared.frame hProper
  rw [Store.entriesAt?, content_of_same hStart.directories (hStart.elsewhere _ id) hSource]
    at hEntries
  exact ⟨entries, written, hEntries, hWritten, content_eq_ok.2 ⟨place, hLocate, hNode⟩⟩

/-- What the jar of a side holds behind a run that succeeds. -/
theorem content_of_makeSideJar {download : Content} (hProper : s.IsProper)
    (hDownload : s.content downloaded = .ok download)
    (hApart : ¬ HasSuffix ".tmp" (placeOf downloaded)) (hJar : ¬ HasSuffix ".tmp" (placeOf jar))
    (h : (makeSideJar side downloaded jar bundle).run.run s = (.ok (), u)) :
    ∃ entries, madeEntries side bundle download = some entries ∧
      u.content jar = .ok (System.calm.archive entries) := by
  obtain ⟨_, hError, -⟩ | ⟨number, s₀, s₁, made, s₂, hStart, hExtract, hTransform, rfl, hMade⟩ :=
    run_makeSideJar h
  · cases hError
  have hSibling : ∀ {path}, ¬ HasSuffix ".tmp" (placeOf path) →
      placeOf path ≠ placeOf (FileAction.siblingPath jar number) := fun hNot hSame =>
    hNot (hSame ▸ hasSuffix_siblingPath)
  have hStart := hStart hProper
  have hDownload₀ := content_of_same hStart.directories (hStart.elsewhere _ id) hDownload
  obtain ⟨content, hTaken, hContent⟩ :=
    content_of_extractJar hStart.proper hDownload₀ (hSibling hApart) hExtract
  have hProper₁ := (frame_extractJar.run hExtract hStart.proper).proper
  have hProper₂ := (frame_transform.run hTransform hProper₁).proper
  cases made with
  | error e => cases hMade
  | ok n =>
    obtain ⟨entries, written, hEntries, hWritten, hFile⟩ :=
      content_of_transform hProper₁ hContent hTransform
    have hDiscard : Within (· = placeOf (FileAction.siblingPath jar number)) _ s₂ _ :=
      FileAction.frame_discarded hProper₂
    refine ⟨written, ?_, content_of_same hDiscard.directories
      (hDiscard.elsewhere _ (hSibling hJar)) hFile⟩
    simp only [madeEntries, hTaken, Option.bind_eq_bind, Option.bind_some, hEntries]
    exact toOption_transformEntries hWritten

end Resolver

end Jarsmith
