import Jarsmith.Modifier.Basic
import Jarsmith.Proofs.Store.Footprint
import Jarsmith.Resolver.Provide

/-!
# Places of the files of a resolver

Where jars, module descriptors, documents and tables stand, as names below a root, and why no two of
them meet: jars of different artifacts or versions have different names, and other files end in other
ways.

* `jarPlace` — the place of the jar of an artifact; `jarPlace_inj` tells jars apart.
* `HasSuffix` — places by how their last names end; `HasSuffix.not_hasSuffix` tells kinds apart.
* `derivedFrom` — the places at which jars are deleted when the jar of a platform changes;
  `not_derivedFrom_jarPlace` says that no jar of an artifact is among them.
-/

namespace Jarsmith

open Outcome

-- ---------------------------------------------------------------------------
-- Names behind names
-- ---------------------------------------------------------------------------

namespace Path

/-- The ending of a path is the ending of its last name. -/
theorem exists_names_append {suffix : String} (front : String) (hSlash : '/' ∉ suffix.toList)
    (hLong : 2 < suffix.toList.length) :
    ∃ before stem, names (front ++ suffix) = before ++ [stem ++ suffix] := by
  obtain ⟨before, last, -, hAll⟩ :=
    Text.pieces_append_of_not_mem front.toList hSlash
  have hName : ∀ short : String, short.toList.length ≤ 1 → String.ofList last ++ suffix ≠ short := by
    rintro _ hShort rfl
    rw [String.toList_append, List.length_append] at hShort
    omega
  refine ⟨(before.map String.ofList).filter fun name => name != "" && name != ".",
    String.ofList last, ?_⟩
  have hLast : String.ofList (last ++ suffix.toList) = String.ofList last ++ suffix := by
    rw [String.ofList_append, String.ofList_toList]
  rw [names, Text.split, String.toList_append, hAll, List.map_append, List.filter_append,
    List.map_singleton, hLast]
  simp [hName "" (by decide), hName "." (by decide)]

/-- The names of a relative path behind a directory. -/
theorem names_join_of_relative {directory path : String} (hRelative : isAbsolute path = false) :
    names (join directory path) = names directory ++ names path := by
  rw [join, hRelative, Bool.false_or]
  split
  · rename_i hEmpty
    rw [String.isEmpty_iff.1 hEmpty, names_empty, List.nil_append]
  · split
    · rename_i hSlash
      obtain ⟨front, rfl⟩ := exists_of_endsWith hSlash
      have hFront : names (front ++ "/") = names front := by
        have hSlash := names_slash front ""
        rwa [String.append_empty, names_empty, List.append_nil] at hSlash
      rw [names_slash, hFront]
    · rw [names_slash]

/-- The names of the directory of a path. -/
theorem names_parent {path directory : String} (h : parent? path = some directory) :
    names directory = (names path).dropLast := by
  have hFront : names ("/".intercalate (names path).dropLast) = (names path).dropLast :=
    names_intercalate fun name hMem => isName_of_mem ((List.dropLast_sublist _).mem hMem)
  unfold parent? at h
  dsimp only at h
  split at h
  · cases h
  · cases h
    split
    · rw [names_absolute, hFront]
    · rw [String.empty_append, hFront]

/-- A path that starts with another character than a slash is relative. -/
theorem isAbsolute_append {c : Char} {word rest : String} (hHead : word.toList.head? = some c)
    (hSlash : c ≠ '/') : isAbsolute (word ++ rest) = false := by
  rw [isAbsolute, Bool.eq_false_iff]
  intro hStarts
  obtain ⟨tail, hTail⟩ := Text.startsWith_iff.1 hStarts
  have hChars := congrArg List.head? hTail
  rw [String.toList_append, List.head?_append, List.head?_append, hHead] at hChars
  exact hSlash (Option.some.inj hChars).symm

end Path

namespace Store

/-- Names that lead downwards lead there. -/
theorem foldl_next {names p : List String} (hNames : ∀ name ∈ names, name ≠ "..") :
    names.foldl next p = p ++ names := by
  induction names generalizing p with
  | nil => exact (List.append_nil p).symm
  | cons name more ih =>
    obtain ⟨hName, hMore⟩ := List.forall_mem_cons.1 hNames
    rw [List.foldl_cons, ih hMore, next, if_neg hName, List.append_assoc, List.singleton_append]

theorem placeOf_join {root path : String} (hRelative : Path.isAbsolute path = false)
    (hNames : ∀ name ∈ Path.names path, name ≠ "..") :
    placeOf (Path.join root path) = placeOf root ++ Path.names path := by
  rw [placeOf, Path.names_join_of_relative hRelative, List.foldl_append, foldl_next hNames]
  rfl

/-- Places whose last names end in some way. -/
def HasSuffix (suffix : String) (p : List String) : Prop :=
  ∃ directory stem, p = directory ++ [stem ++ suffix]

theorem hasSuffix_placeOf {suffix : String} (front : String) (hSlash : '/' ∉ suffix.toList)
    (hLong : 2 < suffix.toList.length) : HasSuffix suffix (placeOf (front ++ suffix)) := by
  obtain ⟨before, stem, hNames⟩ := Path.exists_names_append front hSlash hLong
  have hName : stem ++ suffix ≠ ".." := by
    intro hSame
    have hLength := congrArg (fun text => text.toList.length) hSame
    simp only [String.toList_append, List.length_append] at hLength
    have hDots : "..".toList.length = 2 := by decide
    omega
  refine ⟨before.foldl next [], stem, ?_⟩
  rw [placeOf, hNames, List.foldl_append, List.foldl_cons, List.foldl_nil, next, if_neg hName]

/-- What ends in one way does not end in another way. -/
theorem HasSuffix.not_hasSuffix {suffix other : String} {c d : Char} {p : List String}
    (h : HasSuffix suffix p) (hEnd : suffix.toList.getLast? = some c)
    (hOther : other.toList.getLast? = some d) (hNe : c ≠ d) : ¬ HasSuffix other p := by
  rintro ⟨directory', stem', hp'⟩
  obtain ⟨directory, stem, rfl⟩ := h
  have hLast := congrArg (fun text => text.toList.getLast?) (List.append_singleton_inj.1 hp').2
  simp only [String.toList_append, List.getLast?_append, hEnd, hOther] at hLast
  exact hNe (Option.some.inj hLast)

end Store

namespace Resolver

open Store

variable {root root' artifact artifact' version version' : String} {p p' : Platform}
  {q : List String}

-- ---------------------------------------------------------------------------
-- Jars
-- ---------------------------------------------------------------------------

/-- The name of the jar of an artifact. -/
def jarName (artifact version : String) : String :=
  MavenCoordinate.fileNameOf artifact version none "jar"

/-- The place of the jar of an artifact below a root. -/
def jarPlace (root artifact version : String) : List String :=
  placeOf root ++ ["libraries", "net", "minecraft", artifact, version, jarName artifact version]

theorem jarName_eq : jarName artifact version = artifact ++ "-" ++ version ++ ".jar" := by
  simp [jarName, MavenCoordinate.fileNameOf, String.append_assoc]

theorem isPlain_append {front suffix : String} (hFront : '/' ∉ front.toList)
    (hSuffix : '/' ∉ suffix.toList) (hLong : 2 < suffix.toList.length) :
    Path.IsPlain (front ++ suffix) := by
  have hNe : ∀ short : String, short.toList.length ≤ 2 → front ++ suffix ≠ short := by
    rintro _ hShort rfl
    rw [String.toList_append, List.length_append] at hShort
    omega
  refine ⟨⟨hNe "" (by decide), hNe "." (by decide), ?_⟩, hNe ".." (by decide)⟩
  rw [String.toList_append, List.mem_append]
  exact not_or.2 ⟨hFront, hSuffix⟩

theorem isPlain_jarName (hArtifact : '/' ∉ artifact.toList) (hVersion : '/' ∉ version.toList) :
    Path.IsPlain (jarName artifact version) := by
  rw [jarName_eq]
  refine isPlain_append ?_ (by decide) (by decide)
  simp [hArtifact, hVersion]

/-- The names of a path in a cache, whatever the name of the version looks like. -/
theorem names_gamePath_of_isName {classifier : Option String} {extension : String}
    (hArtifact : Path.IsName artifact) :
    Path.names (MavenCoordinate.gamePath artifact version classifier extension) =
      ["libraries", "net", "minecraft", artifact] ++ Path.names version ++
        Path.names (MavenCoordinate.fileNameOf artifact version classifier extension) := by
  have hFront : Path.names ("libraries/" ++ Text.replace '.' '/' MavenCoordinate.gameGroup) =
      ["libraries", "net", "minecraft"] := by decide +kernel
  rw [MavenCoordinate.gamePath, Path.names_slash, Path.names_slash, Path.names_slash, hFront,
    Path.names_of_isName hArtifact]
  rfl

theorem names_gamePath (hArtifact : Path.IsPlain artifact) (hVersion : Path.IsPlain version) :
    Path.names (MavenCoordinate.gamePath artifact version none "jar") =
      ["libraries", "net", "minecraft", artifact, version, jarName artifact version] := by
  have hName := isPlain_jarName hArtifact.1.2.2 hVersion.1.2.2
  rw [names_gamePath_of_isName hArtifact.1, Path.names_of_isName hVersion.1]
  show _ ++ Path.names (jarName artifact version) = _
  rw [Path.names_of_isName hName.1]
  rfl

theorem isAbsolute_gamePath {classifier : Option String} {extension : String} :
    Path.isAbsolute (MavenCoordinate.gamePath artifact version classifier extension) = false := by
  rw [MavenCoordinate.gamePath]
  simp only [String.append_assoc]
  exact Path.isAbsolute_append (c := 'l') rfl (by decide)

theorem placeOf_artifactPath (hArtifact : Path.IsPlain artifact) (hVersion : Path.IsPlain version) :
    placeOf (artifactPath root artifact version) = jarPlace root artifact version := by
  have hNames := names_gamePath hArtifact hVersion
  have hName := isPlain_jarName hArtifact.1.2.2 hVersion.1.2.2
  rw [artifactPath, placeOf_join isAbsolute_gamePath, hNames]
  · rfl
  · rw [hNames]
    simp [hArtifact.2, hVersion.2, hName.2]

theorem names_artifactPath (hArtifact : Path.IsPlain artifact) (hVersion : Path.IsPlain version) :
    Path.names (artifactPath root artifact version) = Path.names root ++
      ["libraries", "net", "minecraft", artifact, version, jarName artifact version] := by
  rw [artifactPath, Path.names_join_of_relative isAbsolute_gamePath,
    names_gamePath hArtifact hVersion]

/-- The directory of a jar. -/
theorem exists_parent_artifactPath (root : String) (hArtifact : Path.IsPlain artifact)
    (hVersion : Path.IsPlain version) :
    ∃ directory, Path.parent? (artifactPath root artifact version) = some directory ∧
      placeOf directory =
        placeOf root ++ ["libraries", "net", "minecraft", artifact, version] := by
  have hNames : Path.names (artifactPath root artifact version) = _ :=
    names_artifactPath hArtifact hVersion
  cases hParent : Path.parent? (artifactPath root artifact version) with
  | none =>
    unfold Path.parent? at hParent
    dsimp only at hParent
    rw [hNames] at hParent
    simp at hParent
  | some directory =>
    refine ⟨directory, rfl, ?_⟩
    have hDirectory : Path.names directory =
        Path.names root ++ ["libraries", "net", "minecraft", artifact, version] := by
      rw [Path.names_parent hParent, hNames, List.dropLast_append_of_ne_nil (by simp)]
      rfl
    rw [placeOf, hDirectory, List.foldl_append, foldl_next]
    · rfl
    · simp [hArtifact.2, hVersion.2]

theorem fileName?_artifactPath (hArtifact : Path.IsPlain artifact)
    (hVersion : Path.IsPlain version) :
    Path.fileName? (artifactPath root artifact version) = some (jarName artifact version) := by
  have hName := isPlain_jarName hArtifact.1.2.2 hVersion.1.2.2
  rw [Path.fileName?, names_artifactPath hArtifact hVersion]
  simp [hName.2]

/-- Jars of different artifacts or versions have different places, whatever their roots are. -/
theorem jarPlace_inj (h : jarPlace root artifact version = jarPlace root' artifact' version') :
    placeOf root = placeOf root' ∧ artifact = artifact' ∧ version = version' := by
  obtain ⟨hRoot, hNames⟩ := List.append_inj' h rfl
  simp only [List.cons.injEq, and_true, true_and] at hNames
  exact ⟨hRoot, hNames.1, hNames.2.1⟩

theorem hasSuffix_jarPlace : HasSuffix ".jar" (jarPlace root artifact version) :=
  ⟨placeOf root ++ ["libraries", "net", "minecraft", artifact, version],
    artifact ++ "-" ++ version, by rw [jarPlace, jarName_eq, List.append_assoc]; rfl⟩

/-- The artifact of the download of a platform. -/
def downloadArtifact (p : Platform) : String := p.id ++ "_m-obf_b-bundled"

/-- The place of the download of a platform. -/
def downloadPlace (root : String) (p : Platform) (version : String) : List String :=
  jarPlace root (downloadArtifact p) version

theorem isPlain_id : Path.IsPlain p.id := by
  cases p <;> exact ⟨⟨by decide, by decide, by decide⟩, by decide⟩

theorem isPlain_downloadArtifact : Path.IsPlain (downloadArtifact p) := by
  cases p <;> exact ⟨⟨by decide, by decide, by decide⟩, by decide⟩

theorem placeOf_downloadPath (hVersion : Path.IsPlain version) :
    placeOf (Path.join root (downloadPath p version)) = downloadPlace root p version :=
  placeOf_artifactPath isPlain_downloadArtifact hVersion

theorem id_inj : p.id = p'.id ↔ p = p' := by
  cases p <;> cases p' <;> decide

theorem downloadArtifact_inj : downloadArtifact p = downloadArtifact p' ↔ p = p' := by
  cases p <;> cases p' <;> decide

theorem downloadArtifact_ne_id : downloadArtifact p ≠ p'.id := by
  cases p <;> cases p' <;> decide

-- ---------------------------------------------------------------------------
-- Jars that are deleted
-- ---------------------------------------------------------------------------

/-- The places of the jars beside the jar of a platform, at which jars are deleted when it
changes. -/
def derivedFrom (root : String) (p : Platform) (version : String) (q : List String) : Prop :=
  ∃ name, q = placeOf root ++ ["libraries", "net", "minecraft", p.id, version, name] ∧
    Path.extension? name = some "jar" ∧ name ≠ jarName p.id version

/-- **No jar of an artifact is deleted** when the jar of a platform changes: the jar of another
artifact or version stands in another directory. -/
theorem not_derivedFrom_jarPlace :
    ¬ derivedFrom root p version (jarPlace root' artifact' version') := by
  rintro ⟨name, hPlace, -, hName⟩
  obtain ⟨-, hNames⟩ := List.append_inj' hPlace rfl
  simp only [List.cons.injEq, and_true, true_and] at hNames
  obtain ⟨rfl, rfl, rfl⟩ := hNames
  exact hName rfl

theorem exists_of_extension? {name extension : String}
    (h : Path.extension? name = some extension) : ∃ stem, name = stem ++ ("." ++ extension) := by
  unfold Path.extension? at h
  split at h
  · cases h
  · cases h
  · rename_i stem found _ hSplit
    cases h
    obtain ⟨⟨before, after⟩, hCut, hParts⟩ := Option.map_eq_some_iff.1 hSplit
    obtain ⟨-, hText⟩ := Text.cutLast?_eq_some.1 hCut
    cases hParts
    refine ⟨String.ofList before, String.toList_inj.1 ?_⟩
    simp [hText]

theorem hasSuffix_of_derivedFrom (h : derivedFrom root p version q) : HasSuffix ".jar" q := by
  obtain ⟨name, rfl, hExtension, -⟩ := h
  obtain ⟨stem, rfl⟩ := exists_of_extension? hExtension
  exact ⟨placeOf root ++ ["libraries", "net", "minecraft", p.id, version], stem, by simp⟩

-- ---------------------------------------------------------------------------
-- Other files
-- ---------------------------------------------------------------------------

/-- The place of the manifest. -/
def manifestPlace (root : String) : List String := placeOf root ++ ["version_manifest_v2.json"]

/-- The place of the descriptor of a version. -/
def descriptorPlace (root version : String) : List String :=
  placeOf root ++ ["versions", version, version ++ ".json"]

theorem placeOf_manifestPath :
    placeOf (Path.join root VersionRepository.manifestPath) = manifestPlace root := by
  have hNames : Path.names VersionRepository.manifestPath = ["version_manifest_v2.json"] := by
    decide +kernel
  rw [placeOf_join (by decide +kernel) (by rw [hNames]; decide), hNames]
  rfl

theorem placeOf_descriptorPath (hVersion : Path.IsPlain version) :
    placeOf (Path.join root (VersionRepository.descriptorPath version)) =
      descriptorPlace root version := by
  have hPath : VersionRepository.descriptorPath version =
      "versions" ++ "/" ++ version ++ "/" ++ (version ++ ".json") := by
    have hFront : "versions" ++ "/" = "versions/" := by decide +kernel
    rw [hFront, ← String.append_assoc]
    rfl
  have hName : Path.IsPlain (version ++ ".json") :=
    isPlain_append hVersion.1.2.2 (by decide) (by decide)
  have hNames : Path.names (VersionRepository.descriptorPath version) =
      ["versions", version, version ++ ".json"] := by
    rw [hPath, Path.names_slash, Path.names_slash, Path.names_of_isName hVersion.1,
      Path.names_of_isName hName.1, Path.names_of_isName ⟨by decide, by decide, by decide⟩]
    rfl
  rw [placeOf_join, hNames]
  · rfl
  · rw [hPath]
    simp only [String.append_assoc]
    exact Path.isAbsolute_append (c := 'v') rfl (by decide)
  · rw [hNames]
    simp [hVersion.2, hName.2]

theorem hasSuffix_manifestPlace : HasSuffix ".json" (manifestPlace root) :=
  ⟨placeOf root, "version_manifest_v2", rfl⟩

theorem hasSuffix_descriptorPlace : HasSuffix ".json" (descriptorPlace root version) :=
  ⟨placeOf root ++ ["versions", version], version, by simp [descriptorPlace]⟩

theorem descriptorPlace_inj :
    descriptorPlace root version = descriptorPlace root version' ↔ version = version' := by
  refine ⟨fun h => ?_, fun h => h ▸ rfl⟩
  have hNames := List.append_cancel_left h
  simp only [List.cons.injEq, true_and] at hNames
  exact hNames.1

theorem manifestPlace_ne_descriptorPlace : manifestPlace root ≠ descriptorPlace root version := by
  intro h
  have hLength := congrArg List.length (List.append_cancel_left h)
  exact absurd hLength (by simp)

/-- A path behind a directory ends as the path does. -/
theorem hasSuffix_join {directory path suffix : String} (hSlash : '/' ∉ suffix.toList)
    (hLong : 2 < suffix.toList.length) (hPath : ∃ front, path = front ++ suffix) :
    HasSuffix suffix (placeOf (Path.join directory path)) := by
  obtain ⟨front, rfl⟩ := hPath
  obtain ⟨before, hJoin⟩ := Path.exists_join directory (front ++ suffix)
  rw [hJoin, ← String.append_assoc]
  exact hasSuffix_placeOf _ hSlash hLong

/-- Module descriptors, wherever the name of their version leads. -/
theorem hasSuffix_ivyPath {directory : String} :
    HasSuffix "-vg2.xml" (placeOf (Ivy.path directory version)) := by
  have hSuffix : "-vg2.xml" = "-vg" ++ (toString Ivy.layoutVersion ++ ".xml") := by decide +kernel
  refine hasSuffix_join (by decide) (by decide) ⟨"ivy-" ++ version, ?_⟩
  rw [hSuffix, ← String.append_assoc, ← String.append_assoc]
  rfl

/-- Tables of published names, wherever the name of their version leads. -/
theorem hasSuffix_officialPath {side : Side} : HasSuffix "-mappings.txt"
    (placeOf (Path.join root (Modifier.officialPath side version))) := by
  refine hasSuffix_join (by decide) (by decide) ⟨"libraries/" ++ Text.replace '.' '/'
    MavenCoordinate.gameGroup ++ "/" ++ (side.id ++ "_m-obf") ++ "/" ++ version ++ "/" ++
      (side.id ++ "_m-obf") ++ "-" ++ version, ?_⟩
  simp [Modifier.officialPath, MavenCoordinate.gamePath, MavenCoordinate.fileNameOf,
    String.append_assoc]

theorem hasSuffix_siblingPath {path : String} {number : Nat} :
    HasSuffix ".tmp" (placeOf (FileAction.siblingPath path number)) := by
  refine ⟨((Path.names path).dropLast).foldl next [], "." ++ (Path.fileName? path).getD "" ++ "." ++
    hexNat 32 number, ?_⟩
  rw [placeOf, FileAction.names_siblingPath, List.foldl_append, List.foldl_cons, List.foldl_nil,
    next, if_neg (FileAction.siblingName_ne_of_length (by decide))]
  rfl

end Resolver

end Jarsmith
