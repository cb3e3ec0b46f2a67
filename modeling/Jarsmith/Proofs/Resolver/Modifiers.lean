import Jarsmith.Modifier.Basic
import Jarsmith.Proofs.Downloader
import Jarsmith.Proofs.Resolver.Places

/-!
# Modifiers that keep to their own

What a modifier may do to the files while it is named and prepared, and how artifacts are named after
modifiers.

* `Modifier.Considerate` — a modifier that only looks, apart from tables that it downloads. All
  modifiers of the project are.
* `Modifier.id_of_decorate` — a decorated name tells the platform; `Modifier.decorate_ne_id` — it is
  not the name of one.
* `Modifier.Orderly` — modifiers whose artifacts cannot be taken for anything else.
-/

namespace Jarsmith

open Running Store Resolver

variable {s s' t t' : Store} {touched dropped : List String → Prop}

namespace Jar

theorem frame_hierarchy {jar : String} :
    Respects (Store.Frame touched dropped) (Jar.hierarchy jar) :=
  FileAction.frame_entries.bind fun _ => FileAction.frame_lift

end Jar

namespace ResolvedLayer

theorem frame_readAll {layers : List ResolvedLayer} :
    Respects (Store.Frame touched dropped) (readAll layers) :=
  .foldlM fun _ _ _ => .bind (FileAction.frame_read.bind fun _ => FileAction.frame_lift) fun _ => .pure

end ResolvedLayer

namespace AccessWidener

variable {files : List String} {expected : Option String}

theorem frame_filesDigest : Respects (Store.Frame touched dropped) (filesDigest files expected) :=
  .bind (.mapM fun _ _ => FileAction.frame_read.bind fun _ => .pure) fun _ => .pure

theorem frame_readFiles : Respects (Store.Frame touched dropped) (readFiles files expected) :=
  .foldlM fun w _ _ => FileAction.frame_readText.bind fun text => by
    split
    · exact .pure
    · exact .throw

end AccessWidener

namespace Modifier

variable {m : Modifier} {modifiers modifiers' : List Modifier} {d : Downloader} {p p' : Platform}
  {artifact : String}

-- ---------------------------------------------------------------------------
-- What modifiers touch
-- ---------------------------------------------------------------------------

/-- A modifier that only looks at files, apart from tables of names that it downloads. -/
structure Considerate (m : Modifier) : Prop where
  stateKey : Respects (Store.Frame (fun _ => False) fun _ => False) m.stateKey
  transformers : ∀ {d : Downloader}, d.Careful → ∀ env,
    Respects (World.Frame (HasSuffix "-mappings.txt") (HasSuffix "-mappings.txt"))
      (m.transformers d env)

theorem frame_remapping {set : MappingSet} {jar : String} :
    Respects (Store.Frame touched dropped) (remapping set jar) :=
  Jar.frame_hierarchy.bind fun _ => .pure

theorem frame_officialNames (hCareful : d.Careful) {v : VersionDescriptor} {side : Side} :
    Respects (World.Frame (HasSuffix "-mappings.txt") (HasSuffix "-mappings.txt"))
      (officialNames d v side) := by
  unfold officialNames
  dsimp only
  split
  · refine .bind ((hCareful.frame_fetchValid _ _ _ _).imp fun h => h.mono ?_ ?_) fun found => ?_
    · exact fun _ hp => hp ▸ hasSuffix_officialPath
    · exact fun _ hp => hp ▸ hasSuffix_officialPath
    · cases found with
      | notFound => exact .throw
      | found path upToDate =>
        exact .bind (FileAction.frame_readText.files) fun _ => .lift
  · exact .throw

theorem considerate_official : official.Considerate where
  stateKey := .pure
  transformers hCareful _ :=
    .bind (.foldlM fun _ _ _ => (frame_officialNames hCareful).bind fun _ => .pure) fun _ =>
      frame_remapping.files

theorem considerate_ofLayers {layers : List ResolvedLayer} {stateKey : String} :
    (ofLayers layers stateKey).Considerate where
  stateKey := .pure
  transformers _ _ := .bind ResolvedLayer.frame_readAll.files fun _ => frame_remapping.files

theorem considerate_widening {files : List String} {expected : Option String} :
    (widening files expected).Considerate where
  stateKey := AccessWidener.frame_filesDigest
  transformers _ _ := .bind AccessWidener.frame_readFiles.files fun _ => .pure

theorem Considerate.pinned (h : m.Considerate) {pinned : Modifier}
    (hRun : m.pinned.run.run s = (.ok pinned, t)) : pinned.Considerate := by
  obtain ⟨key, _, -, hRun⟩ := bind_ok_iff.1 hRun
  cases key with
  | ok key =>
    obtain ⟨hPinned, -⟩ := pure_iff.1 hRun
    cases hPinned
    exact ⟨.pure, h.transformers⟩
  | error e =>
    obtain ⟨hPinned, -⟩ := pure_iff.1 hRun
    cases hPinned
    exact h

theorem frame_decorate (h : ∀ m ∈ modifiers, m.Considerate) {base : String} :
    Respects (Store.Frame (fun _ => False) fun _ => False) (decorate base modifiers) :=
  .bind (.mapM fun m hMem => (h m hMem).stateKey.bind fun _ => .pure) fun _ => .pure

-- ---------------------------------------------------------------------------
-- Names after modifiers
-- ---------------------------------------------------------------------------

/-- A decorated name is the name of the platform with a mark and more behind it. -/
theorem exists_of_decorate (hSome : modifiers ≠ [])
    (h : (decorate p.id modifiers).run.run s = (.ok artifact, t)) :
    ∃ rest, artifact = p.id ++ "_" ++ rest := by
  cases modifiers with
  | nil => exact absurd rfl hSome
  | cons m more =>
    obtain ⟨tags, _, hTags, h⟩ := bind_ok_iff.1 h
    obtain ⟨hArtifact, rfl⟩ := pure_iff.1 h
    cases hArtifact
    rw [List.mapM_cons] at hTags
    obtain ⟨first, _, hFirst, hTags⟩ := bind_ok_iff.1 hTags
    obtain ⟨rest, _, -, hTags⟩ := bind_ok_iff.1 hTags
    obtain ⟨hJoined, rfl⟩ := pure_iff.1 hTags
    cases hJoined
    obtain ⟨key, _, -, hFirst⟩ := bind_ok_iff.1 hFirst
    obtain ⟨hTag, rfl⟩ := pure_iff.1 hFirst
    cases hTag
    exact ⟨m.key ++ "-" ++ key ++ String.join rest, by simp [tag, String.append_assoc]⟩

/-- A decorated name tells the platform. -/
theorem id_of_decorate (hSome : modifiers ≠ []) (hSome' : modifiers' ≠ [])
    (h : (decorate p.id modifiers).run.run s = (.ok artifact, t))
    (h' : (decorate p'.id modifiers').run.run s' = (.ok artifact, t')) : p = p' := by
  obtain ⟨rest, rfl⟩ := exists_of_decorate hSome h
  obtain ⟨rest', hSame⟩ := exists_of_decorate hSome' h'
  have hFirst := congrArg (fun text => text.toList.head?) hSame
  cases p <;> cases p' <;> first | rfl | simp [Platform.id] at hFirst

/-- A decorated name is not the name of a platform. -/
theorem decorate_ne_id (hSome : modifiers ≠ [])
    (h : (decorate p.id modifiers).run.run s = (.ok artifact, t)) : artifact ≠ p'.id := by
  obtain ⟨rest, rfl⟩ := exists_of_decorate hSome h
  intro hSame
  have hMark : '_' ∈ (p.id ++ "_" ++ rest).toList := by simp
  rw [hSame] at hMark
  cases p' <;> exact absurd hMark (by decide)

/-- Modifiers that only look, and that name the artifact of a platform by a single name, which is not
that of a download. -/
structure Orderly (p : Platform) (modifiers : List Modifier) : Prop where
  considerate : ∀ m ∈ modifiers, m.Considerate
  plain : ∀ {s artifact t}, (decorate p.id modifiers).run.run s = (.ok artifact, t) →
    Path.IsPlain artifact
  apart : ∀ {s artifact t}, (decorate p.id modifiers).run.run s = (.ok artifact, t) →
    ∀ p', artifact ≠ downloadArtifact p'

theorem orderly_nil : Orderly p [] := by
  have hName : ∀ {s artifact t}, (decorate p.id []).run.run s = (.ok artifact, t) →
      artifact = p.id := by
    intro s artifact t h
    obtain ⟨tags, _, hTags, h⟩ := bind_ok_iff.1 h
    obtain ⟨hNil, rfl⟩ := pure_iff.1 hTags
    cases hNil
    obtain ⟨hArtifact, -⟩ := pure_iff.1 h
    cases hArtifact
    exact String.append_empty
  exact ⟨nofun, fun h => hName h ▸ isPlain_id, fun h _ => hName h ▸ downloadArtifact_ne_id.symm⟩

end Modifier

end Jarsmith
