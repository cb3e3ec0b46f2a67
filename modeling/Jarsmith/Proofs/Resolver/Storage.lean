import Jarsmith.Proofs.Resolver.Modifiers

/-!
# Where configurations are stored

The name of an artifact tells the platform and what the modifiers added, although the same characters
separate the parts of the name, the name and the version, and the names of downloads.

* `Modifier.marks` — the keys and the digests that modifiers add.
* `Modifier.decorated_inj` — a decorated name tells its base and its marks.
* `Modifier.names_artifactPath_decorate` — different configurations are stored at different paths,
  and none at the path of a download.
* `Modifier.orderly_of_marked` — the modifiers of the project are orderly.
-/

namespace Jarsmith

open Running Resolver

-- ---------------------------------------------------------------------------
-- Hexadecimal digits
-- ---------------------------------------------------------------------------

/-- Texts of hexadecimal digits. -/
def IsHex (text : String) : Prop := ∀ c ∈ text.toList, (hexValue? c).isSome = true

theorem IsHex.not_mem {text : String} {c : Char} (h : IsHex text) (hNone : hexValue? c = none) :
    c ∉ text.toList := by
  intro hMem
  rw [IsHex] at h
  simpa [hNone] using h c hMem

theorem isHex_toHex (bytes : Bytes) : IsHex (toHex bytes) := by
  have hDigit : ∀ n < 16, (hexValue? (hexDigit n)).isSome = true := by decide
  intro c hMem
  rw [toHex, String.toList_ofList] at hMem
  obtain ⟨b, -, hByte⟩ := List.mem_flatMap.1 hMem
  have hLow := b.toNat_lt
  obtain rfl | hByte := List.mem_cons.1 hByte
  · exact hDigit _ (by omega)
  · obtain rfl := List.mem_singleton.1 hByte
    exact hDigit _ (by omega)

namespace Modifier

variable {p p' q : Platform} {base base' version version' root : String}
  {modifiers modifiers' : List Modifier} {marked marked' : List (String × String)}
  {artifact artifact' : String} {s s' t t' : Store}

-- ---------------------------------------------------------------------------
-- Marks
-- ---------------------------------------------------------------------------

/-- The keys of the modifiers of the project. -/
def keys : List String := ["map", "cm", "aw"]

/-- The keys and the digests of modifiers, in their order. -/
def marks (modifiers : List Modifier) : FileAction (List (String × String)) :=
  modifiers.mapM fun m => do pure (m.key, ← m.stateKey)

/-- The name of an artifact with marks behind it. -/
def decorated (base : String) (marked : List (String × String)) : String :=
  base ++ String.join (marked.map fun mark => tag mark.1 mark.2)

/-- A known key with hexadecimal digits. -/
structure IsMark (mark : String × String) : Prop where
  key : mark.1 ∈ keys
  digest : IsHex mark.2

/-- A modifier with a known key, and with hexadecimal digits whenever it has a digest. -/
structure Marked (m : Modifier) : Prop where
  key : m.key ∈ keys
  stateKey : ∀ {s digest t}, m.stateKey.run.run s = (.ok digest, t) → IsHex digest

theorem run_marks_cons {m : Modifier} :
    (marks (m :: modifiers)).run.run s = (.ok marked, t) ↔
      ∃ digest u more, m.stateKey.run.run s = (.ok digest, u) ∧
        (marks modifiers).run.run u = (.ok more, t) ∧ marked = (m.key, digest) :: more := by
  rw [marks, List.mapM_cons]
  constructor
  · intro h
    obtain ⟨mark, v, hFirst, h⟩ := bind_ok_iff.1 h
    obtain ⟨digest, u, hDigest, hMark⟩ := bind_ok_iff.1 hFirst
    obtain ⟨hMark, rfl⟩ := pure_iff.1 hMark
    cases hMark
    obtain ⟨more, _, hMore, h⟩ := bind_ok_iff.1 h
    obtain ⟨hAll, rfl⟩ := pure_iff.1 h
    cases hAll
    exact ⟨digest, u, more, hDigest, hMore, rfl⟩
  · rintro ⟨digest, u, more, hDigest, hMore, rfl⟩
    exact bind_ok_iff.2 ⟨_, u, bind_ok_iff.2 ⟨digest, u, hDigest, rfl⟩,
      bind_ok_iff.2 ⟨more, t, hMore, rfl⟩⟩

/-- What modifiers add to a name is their marks, one behind the other. -/
theorem run_tags {tags : List String}
    (h : (modifiers.mapM fun m => do pure (tag m.key (← m.stateKey)) :
      FileAction (List String)).run.run s = (.ok tags, t)) :
    ∃ marked, (marks modifiers).run.run s = (.ok marked, t) ∧
      tags = marked.map fun mark => tag mark.1 mark.2 := by
  induction modifiers generalizing s tags with
  | nil =>
    obtain ⟨hTags, rfl⟩ := pure_iff.1 h
    cases hTags
    exact ⟨[], rfl, rfl⟩
  | cons m more ih =>
    rw [List.mapM_cons] at h
    obtain ⟨first, v, hFirst, h⟩ := bind_ok_iff.1 h
    obtain ⟨digest, u, hDigest, hFirst⟩ := bind_ok_iff.1 hFirst
    obtain ⟨hTag, rfl⟩ := pure_iff.1 hFirst
    cases hTag
    obtain ⟨rest, _, hRest, h⟩ := bind_ok_iff.1 h
    obtain ⟨hAll, rfl⟩ := pure_iff.1 h
    cases hAll
    obtain ⟨marked, hMarked, rfl⟩ := ih hRest
    exact ⟨(m.key, digest) :: marked,
      run_marks_cons.2 ⟨digest, _, marked, hDigest, hMarked, rfl⟩, rfl⟩

/-- The decorated name is the name with the marks of the modifiers. -/
theorem run_decorate (h : (decorate base modifiers).run.run s = (.ok artifact, t)) :
    ∃ marked, (marks modifiers).run.run s = (.ok marked, t) ∧ artifact = decorated base marked := by
  obtain ⟨tags, t, hTags, h⟩ := bind_ok_iff.1 h
  obtain ⟨hArtifact, rfl⟩ := pure_iff.1 h
  cases hArtifact
  obtain ⟨marked, hMarked, rfl⟩ := run_tags hTags
  exact ⟨marked, hMarked, rfl⟩

theorem isMark_of_marks (hModifiers : ∀ m ∈ modifiers, m.Marked)
    (h : (marks modifiers).run.run s = (.ok marked, t)) : ∀ mark ∈ marked, IsMark mark := by
  induction modifiers generalizing s marked with
  | nil =>
    obtain ⟨hNil, -⟩ := pure_iff.1 h
    cases hNil
    exact nofun
  | cons m more ih =>
    obtain ⟨hModifier, hMore⟩ := List.forall_mem_cons.1 hModifiers
    obtain ⟨digest, u, rest, hDigest, hRest, rfl⟩ := run_marks_cons.1 h
    exact List.forall_mem_cons.2 ⟨⟨hModifier.key, hModifier.stateKey hDigest⟩, ih hMore hRest⟩

-- ---------------------------------------------------------------------------
-- Reading names back
-- ---------------------------------------------------------------------------

/-- The characters that a mark adds behind its separator. -/
def word (mark : String × String) : List Char := mark.1.toList ++ '-' :: mark.2.toList

theorem not_mem_of_mem_keys {key : String} (h : key ∈ keys) :
    '_' ∉ key.toList ∧ '-' ∉ key.toList ∧ '/' ∉ key.toList := by
  simp only [keys, List.mem_cons, List.not_mem_nil, or_false] at h
  obtain rfl | rfl | rfl := h <;> decide

theorem IsMark.not_mem_word {mark : String × String} (h : IsMark mark) :
    '_' ∉ word mark ∧ '/' ∉ word mark := by
  obtain ⟨hSeparator, -, hSlash⟩ := not_mem_of_mem_keys h.key
  have hSeparator' : '_' ∉ mark.2.toList := h.digest.not_mem (by decide)
  have hSlash' : '/' ∉ mark.2.toList := h.digest.not_mem (by decide)
  constructor <;> simp [word, *]

theorem toList_decorated :
    (decorated base marked).toList = base.toList ++ marked.flatMap fun mark => '_' :: word mark := by
  rw [decorated, String.toList_append]
  congr 1
  induction marked with
  | nil => rfl
  | cons mark more ih =>
    rw [List.map_cons, String.join_cons, String.toList_append, ih, List.flatMap_cons]
    simp [tag, word]

/-- The pieces of a decorated name are the base and the words of the marks. -/
theorem pieces_decorated (hBase : '_' ∉ base.toList) (hMarks : ∀ mark ∈ marked, IsMark mark) :
    Text.pieces '_' (decorated base marked).toList = base.toList :: marked.map word := by
  rw [toList_decorated]
  generalize base.toList = front at hBase
  induction marked generalizing front with
  | nil => simpa using Text.pieces_of_not_mem hBase
  | cons mark more ih =>
    obtain ⟨hMark, hMore⟩ := List.forall_mem_cons.1 hMarks
    rw [List.flatMap_cons, List.cons_append, Text.pieces_append_cons hBase,
      ih hMore _ hMark.not_mem_word.1, List.map_cons]

/-- A word tells its key and its digest. -/
theorem cutFirst?_word {mark : String × String} (h : IsMark mark) :
    Text.cutFirst? '-' (word mark) = some (mark.1.toList, mark.2.toList) :=
  Text.cutFirst?_eq_some.2 ⟨(not_mem_of_mem_keys h.key).2.1, rfl⟩

/-- **A decorated name tells its base and its marks**, however many there are. -/
theorem decorated_inj (hBase : '_' ∉ base.toList) (hBase' : '_' ∉ base'.toList)
    (hMarks : ∀ mark ∈ marked, IsMark mark) (hMarks' : ∀ mark ∈ marked', IsMark mark)
    (h : decorated base marked = decorated base' marked') : base = base' ∧ marked = marked' := by
  have hPieces := congrArg (fun name => Text.pieces '_' name.toList) h
  simp only [pieces_decorated hBase hMarks, pieces_decorated hBase' hMarks', List.cons.injEq]
    at hPieces
  obtain ⟨hFront, hWords⟩ := hPieces
  -- the parts of a mark are cut out of its word
  let parts : String × String → Option (List Char × List Char) :=
    fun mark => some (mark.1.toList, mark.2.toList)
  have hParts : ∀ {l : List (String × String)}, (∀ mark ∈ l, IsMark mark) →
      (l.map word).map (Text.cutFirst? '-') = l.map parts := by
    intro l hMarks
    rw [List.map_map]
    exact List.map_congr_left fun mark hMem => cutFirst?_word (hMarks mark hMem)
  have hInjective : Function.Injective parts := by
    intro mark mark' hSame
    simpa [parts, Prod.ext_iff, String.toList_inj] using hSame
  refine ⟨String.toList_inj.1 hFront, List.map_injective_iff.2 hInjective ?_⟩
  rw [← hParts hMarks, ← hParts hMarks', hWords]

-- ---------------------------------------------------------------------------
-- Names of downloads
-- ---------------------------------------------------------------------------

theorem not_mem_id : '_' ∉ p.id.toList := by
  cases p <;> decide

theorem length_id : p.id.toList.length = 6 := by
  cases p <;> rfl

/-- The names of downloads have a mark behind their first six characters that no modifier adds. -/
theorem decorated_ne_download {front suffix : String} {rest : List Char}
    (hFront : front.toList.length = 6) (hSuffix : suffix.toList = '_' :: 'm' :: '-' :: rest)
    (hMarks : ∀ mark ∈ marked, IsMark mark) : decorated p.id marked ≠ front ++ suffix := by
  intro hSame
  have hChars : p.id.toList ++ marked.flatMap (fun mark => '_' :: word mark) =
      front.toList ++ '_' :: 'm' :: '-' :: rest := by
    rw [← toList_decorated, hSame, String.toList_append, hSuffix]
  obtain ⟨-, hBehind⟩ := List.append_inj hChars (length_id.trans hFront.symm)
  cases marked with
  | nil => cases hBehind
  | cons mark more =>
    have hKey := (hMarks mark List.mem_cons_self).key
    simp only [keys, List.mem_cons, List.not_mem_nil, or_false] at hKey
    rw [List.flatMap_cons, List.cons_append, List.cons.injEq, word] at hBehind
    obtain hKey | hKey | hKey := hKey <;> rw [hKey] at hBehind <;> simp at hBehind

theorem isPlain_decorated (hMarks : ∀ mark ∈ marked, IsMark mark) :
    Path.IsPlain (decorated p.id marked) := by
  have hLong : 6 ≤ (decorated p.id marked).toList.length := by
    rw [toList_decorated, List.length_append, length_id]
    omega
  have hNe : ∀ short : String, short.toList.length < 6 → decorated p.id marked ≠ short := by
    rintro _ hShort rfl
    omega
  have hSlash : '/' ∉ (decorated p.id marked).toList := by
    rw [toList_decorated, List.mem_append, List.mem_flatMap, not_or]
    refine ⟨isPlain_id.1.2.2, ?_⟩
    rintro ⟨mark, hMem, hWord⟩
    exact (List.mem_cons.1 hWord).elim (by decide) (hMarks mark hMem).not_mem_word.2
  exact ⟨⟨hNe "" (by decide), hNe "." (by decide), hSlash⟩, hNe ".." (by decide)⟩

-- ---------------------------------------------------------------------------
-- The modifiers of the project
-- ---------------------------------------------------------------------------

theorem marked_official : official.Marked where
  key := by decide
  stateKey h := by
    obtain ⟨hDigest, -⟩ := pure_iff.1 h
    cases hDigest
    exact nofun

theorem marked_ofLayers {layers : List ResolvedLayer} {stateKey : String} (hKey : IsHex stateKey) :
    (ofLayers layers stateKey).Marked where
  key := by simp [ofLayers, keys]
  stateKey h := by
    obtain ⟨hDigest, -⟩ := pure_iff.1 h
    cases hDigest
    exact hKey

/-- A stack whose files are found has its digest. -/
theorem marked_layered {specs : List LayerSpec} {m : Modifier}
    (h : (layered specs).run.run s = (.ok m, t)) : m.Marked := by
  obtain ⟨_, _, -, h⟩ := bind_ok_iff.1 h
  obtain ⟨_, _, -, h⟩ := bind_ok_iff.1 h
  obtain ⟨key, _, hKey, h⟩ := bind_ok_iff.1 h
  obtain ⟨hModifier, -⟩ := pure_iff.1 h
  cases hModifier
  obtain ⟨_, _, -, hKey⟩ := bind_ok_iff.1 hKey
  obtain ⟨hDigest, -⟩ := pure_iff.1 hKey
  cases hDigest
  exact marked_ofLayers (isHex_toHex _)

theorem marked_widening {files : List String} {expected : Option String} :
    (widening files expected).Marked where
  key := by simp [widening, keys]
  stateKey h := by
    obtain ⟨_, _, -, h⟩ := bind_ok_iff.1 h
    obtain ⟨hDigest, -⟩ := pure_iff.1 h
    cases hDigest
    exact isHex_toHex _

/-- Modifiers that only look, and that have marks of the project, name an artifact that cannot be
taken for anything else. -/
theorem orderly_of_marked (hConsiderate : ∀ m ∈ modifiers, m.Considerate)
    (hMarked : ∀ m ∈ modifiers, m.Marked) : Orderly p modifiers where
  considerate := hConsiderate
  plain h := by
    obtain ⟨marked, hRun, rfl⟩ := run_decorate h
    exact isPlain_decorated (isMark_of_marks hMarked hRun)
  apart h q := by
    obtain ⟨marked, hRun, rfl⟩ := run_decorate h
    exact decorated_ne_download length_id rfl (isMark_of_marks hMarked hRun)

-- ---------------------------------------------------------------------------
-- Paths
-- ---------------------------------------------------------------------------

theorem names_artifactPath_of_isName (hArtifact : Path.IsName artifact)
    (hVersion : '/' ∉ version.toList) :
    Path.names (artifactPath root artifact version) = Path.names root ++
      (["libraries", "net", "minecraft", artifact] ++ Path.names version ++
        [jarName artifact version]) := by
  have hFile : Path.names (MavenCoordinate.fileNameOf artifact version none "jar") =
      [jarName artifact version] := Path.names_of_isName (isPlain_jarName hArtifact.2.2 hVersion).1
  rw [artifactPath, Path.names_join_of_relative isAbsolute_gamePath,
    names_gamePath_of_isName hArtifact, hFile]

/-- The path of a jar tells the artifact and the version. -/
theorem names_artifactPath_inj (hArtifact : Path.IsName artifact) (hArtifact' : Path.IsName artifact')
    (hVersion : '/' ∉ version.toList) (hVersion' : '/' ∉ version'.toList)
    (h : Path.names (artifactPath root artifact version) =
      Path.names (artifactPath root artifact' version')) :
    artifact = artifact' ∧ version = version' := by
  rw [names_artifactPath_of_isName hArtifact hVersion,
    names_artifactPath_of_isName hArtifact' hVersion'] at h
  obtain ⟨hFront, hFile⟩ := List.append_singleton_inj.1 (List.append_cancel_left h)
  simp only [List.cons_append, List.nil_append, List.cons.injEq, true_and] at hFront
  obtain ⟨rfl, -⟩ := hFront
  refine ⟨rfl, String.toList_inj.1 ?_⟩
  have hChars := congrArg String.toList hFile
  simpa [jarName_eq, String.toList_append] using hChars

/-- A file of one artifact is at another path than the jar of another artifact, whatever its version
is called. -/
theorem names_artifactPath_ne {classifier : Option String} {extension : String}
    (hArtifact : Path.IsName artifact) (hArtifact' : Path.IsName artifact')
    (hVersion : '/' ∉ version.toList) (hNe : artifact ≠ artifact') :
    Path.names (artifactPath root artifact version) ≠
      Path.names (Path.join root (MavenCoordinate.gamePath artifact' version' classifier
        extension)) := by
  rw [names_artifactPath_of_isName hArtifact hVersion,
    Path.names_join_of_relative isAbsolute_gamePath, names_gamePath_of_isName hArtifact']
  intro h
  have hNames := List.append_cancel_left h
  simp only [List.cons_append, List.nil_append, List.cons.injEq, true_and] at hNames
  exact hNe hNames.1

/-- **Different configurations are stored at different paths.** A path below a root, as it is taken
apart into names, tells the platform, the version and the keys and digests of the modifiers in their
order. It is never the path of a download or of a table of published names. -/
theorem names_artifactPath_decorate (hVersion : '/' ∉ version.toList)
    (hVersion' : '/' ∉ version'.toList) (hMarked : ∀ m ∈ modifiers, m.Marked)
    (hMarked' : ∀ m ∈ modifiers', m.Marked)
    (h : (decorate p.id modifiers).run.run s = (.ok artifact, t))
    (h' : (decorate p'.id modifiers').run.run s' = (.ok artifact', t')) :
    (Path.names (artifactPath root artifact version) =
        Path.names (artifactPath root artifact' version') →
      p = p' ∧ version = version' ∧ ∃ marked, (marks modifiers).run.run s = (.ok marked, t) ∧
        (marks modifiers').run.run s' = (.ok marked, t')) ∧
    (∀ q other, Path.names (artifactPath root artifact version) ≠
      Path.names (Path.join root (downloadPath q other))) ∧
    ∀ side other, Path.names (artifactPath root artifact version) ≠
      Path.names (Path.join root (officialPath side other)) := by
  obtain ⟨marked, hRun, rfl⟩ := run_decorate h
  obtain ⟨marked', hRun', rfl⟩ := run_decorate h'
  have hMarks := isMark_of_marks hMarked hRun
  have hMarks' := isMark_of_marks hMarked' hRun'
  have hArtifact : Path.IsName (decorated p.id marked) := (isPlain_decorated hMarks).1
  refine ⟨fun hSame => ?_, fun q other => ?_, fun side other => ?_⟩
  · obtain ⟨hName, rfl⟩ := names_artifactPath_inj hArtifact (isPlain_decorated hMarks').1 hVersion
      hVersion' hSame
    obtain ⟨hId, rfl⟩ := decorated_inj not_mem_id not_mem_id hMarks hMarks' hName
    exact ⟨id_inj.1 hId, rfl, marked, hRun, hRun'⟩
  · exact names_artifactPath_ne hArtifact isPlain_downloadArtifact.1 hVersion
      (decorated_ne_download length_id rfl hMarks)
  · have hSide : Path.IsName (side.id ++ "_m-obf") := by
      cases side <;> exact ⟨by decide, by decide, by decide⟩
    exact names_artifactPath_ne hArtifact hSide hVersion
      (decorated_ne_download (by cases side <;> rfl) rfl hMarks)

/-- The jar of the client with the published names and those of a stack. -/
theorem names_artifactPath_decorate_client :
    (Path.names (artifactPath "cache" "client_map-_cm-0a1b" "1.20") =
        Path.names (artifactPath "cache" "client_map-_cm-0a1b" "1.20") →
      Platform.client = .client ∧ "1.20" = "1.20" ∧ ∃ marked,
        (marks [official, ofLayers [] "0a1b"]).run.run .empty = (.ok marked, .empty) ∧
        (marks [official, ofLayers [] "0a1b"]).run.run .empty = (.ok marked, .empty)) ∧
    (∀ q other, Path.names (artifactPath "cache" "client_map-_cm-0a1b" "1.20") ≠
      Path.names (Path.join "cache" (downloadPath q other))) ∧
    ∀ side other, Path.names (artifactPath "cache" "client_map-_cm-0a1b" "1.20") ≠
      Path.names (Path.join "cache" (officialPath side other)) := by
  have hMarked : ∀ m ∈ [official, ofLayers [] "0a1b"], m.Marked :=
    List.forall_mem_cons.2 ⟨marked_official,
      List.forall_mem_singleton.2 (marked_ofLayers fun _ h => by revert h; decide +revert)⟩
  exact names_artifactPath_decorate (by decide) (by decide) hMarked hMarked rfl rfl

end Modifier

end Jarsmith
