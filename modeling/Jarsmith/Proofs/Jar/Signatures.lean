import Jarsmith.Jar.Transformer
import Jarsmith.Proofs.Jar.ReadManifest

/-!
# Jars without signatures

The digests of a signed jar stand in the sections of its manifest, its signatures in files beside
the manifest. Both go, and nothing else does.

* `JarManifest.Stripped` — what a manifest without some attributes of its entries keeps.
* `JarManifest.stripped_parse` — it is still so when the manifest is written and read again.
* `Transformer.isSignatureFile_iff` — which paths are those of signatures.
* `Transformer.apply_stripSignatures_spec` — the stage on any entry, and on what it left.
-/

namespace Jarsmith

namespace JarManifest

variable {m n : JarManifest} {p : String → Bool} {name : String}
  {attributes : OrderedMap String String}

theorem hasSectionAttribute_eq_false : m.hasSectionAttribute p = false ↔
    ∀ name attributes, m.sections.get? name = some attributes →
      ∀ key ∈ attributes.keys, p key = false := by
  simp only [hasSectionAttribute, List.any_eq_false, Bool.not_eq_true]
  constructor
  · intro h name attributes hGet
    exact h attributes (List.mem_map_of_mem (OrderedMap.get?_eq_some.1 hGet))
  · intro h attributes hMem
    obtain ⟨s, hs, rfl⟩ := List.mem_map.1 hMem
    exact h s.1 s.2 (OrderedMap.get?_eq_some.2 hs)

/-- `n` is what is left of `m` without the attributes of entries that satisfy `p`. A section goes if
it lost an attribute and has no other one. -/
structure Stripped (p : String → Bool) (m n : JarManifest) : Prop where
  main : n.main = m.main
  names : n.sections.keys.Sublist m.sections.keys
  sections : ∀ name attributes, n.sections.get? name = some attributes ↔
    ∃ old, m.sections.get? name = some old ∧
      attributes.entries = old.entries.filter (fun a => !p a.1) ∧
      (old.keys.any p = true → attributes.entries ≠ [])

/-- No attribute of an entry that satisfies `p` is left. -/
theorem Stripped.hasSectionAttribute (h : Stripped p m n) : n.hasSectionAttribute p = false := by
  refine hasSectionAttribute_eq_false.2 fun name attributes hGet key hKey => ?_
  obtain ⟨old, -, hEntries, -⟩ := (h.sections name attributes).1 hGet
  obtain ⟨a, ha, rfl⟩ := List.mem_map.1 hKey
  rw [hEntries, List.mem_filter, Bool.not_eq_true'] at ha
  exact ha.2

theorem stripped_stripSections (p : String → Bool) (m : JarManifest) :
    Stripped p m (m.stripSections p) where
  main := rfl
  names := by
    refine (List.filter_sublist.map Prod.fst).trans ?_
    exact (OrderedMap.keys_mapValues (m := m.sections)).symm ▸ List.Sublist.refl _
  sections name attributes := by
    rw [stripSections, OrderedMap.get?_filter, OrderedMap.get?_mapValues, Option.map_eq_some_iff]
    constructor
    · rintro ⟨⟨old, hOld, rfl⟩, hKept⟩
      refine ⟨old, hOld, rfl, fun hLost hEmpty => ?_⟩
      simp only [hOld, hLost, OrderedMap.isEmpty, hEmpty] at hKept
      exact absurd hKept (by decide)
    · rintro ⟨old, hOld, hEntries, hKept⟩
      refine ⟨⟨old, hOld, OrderedMap.ext hEntries.symm⟩, ?_⟩
      simp only [hOld]
      rw [Bool.not_eq_true', Bool.and_eq_false_iff, OrderedMap.isEmpty,
        List.isEmpty_eq_false_iff, ← Bool.not_eq_true]
      exact not_or_of_imp hKept

theorem Legible.stripSections {spaced : Nat} (h : Legible spaced m) (p : String → Bool) :
    Legible spaced (m.stripSections p) := by
  have hStripped := stripped_stripSections p m
  refine ⟨h.main, h.starts, fun name hMem => h.names name (hStripped.names.subset hMem), ?_⟩
  rintro ⟨name, attributes⟩ hMem a ha
  obtain ⟨old, hOld, hEntries, -⟩ :=
    (hStripped.sections name attributes).1 (OrderedMap.get?_eq_some.2 hMem)
  exact h.of_get? hOld a (List.mem_of_mem_filter (hEntries ▸ ha))

/-- A manifest that gets a version gets it with or without what is stripped. -/
theorem Stripped.versioned (h : Stripped p m n) : Stripped p m.versioned n.versioned where
  main := by
    unfold JarManifest.versioned mainAttribute?
    rw [h.main]
    split
    · exact h.main
    · rfl
  names := by
    rw [sections_versioned, sections_versioned]
    exact h.names
  sections := by
    rw [sections_versioned, sections_versioned]
    exact h.sections

/-- **What is read of a stripped manifest** is the manifest as it was, stripped, with a version. -/
theorem stripped_parse (h : Legible 0 m) (p : String → Bool) :
    Stripped p m.versioned (parse (m.stripSections p).toBytes) := by
  rw [parse_toBytes_versioned (h.stripSections p)]
  exact (stripped_stripSections p m).versioned

end JarManifest

namespace Transformer

open JarManifest

variable {e e' : JarEntry} {path : String}

/-- A file of a signature stands in `META-INF` itself. -/
def IsSignaturePath (path : String) : Prop :=
  ∃ file, path = "META-INF/" ++ file ∧ '/' ∉ file.toList ∧
    ("SIG-".toList <+: file.toList ∨
      ∃ ending ∈ [".SF", ".RSA", ".DSA", ".EC"], ending.toList <:+ (Text.upperLatin file).toList)

theorem isSignatureFile_iff : isSignatureFile path = true ↔ IsSignaturePath path := by
  have hFile : ∀ file : String, (!Text.hasChar file '/' && (Text.startsWith file "SIG-" ||
      [".SF", ".RSA", ".DSA", ".EC"].any fun ending =>
        Text.endsWith (Text.upperLatin file) ending)) = true ↔
      '/' ∉ file.toList ∧ ("SIG-".toList <+: file.toList ∨
        ∃ ending ∈ [".SF", ".RSA", ".DSA", ".EC"],
          ending.toList <:+ (Text.upperLatin file).toList) := by
    intro file
    rw [Bool.and_eq_true, Bool.or_eq_true, Text.startsWith_iff, List.any_eq_true, Text.hasChar,
      Bool.not_eq_true', List.contains_eq_mem, decide_eq_false_iff_not]
    simp only [Text.endsWith_iff]
  rw [isSignatureFile, IsSignaturePath]
  cases hStrip : Text.stripPrefix? "META-INF/" path with
  | none =>
    refine iff_of_false nofun ?_
    rintro ⟨file, rfl, -⟩
    rw [Text.stripPrefix?_append] at hStrip
    cases hStrip
  | some file =>
    obtain rfl := Text.stripPrefix?_eq_some.1 hStrip
    refine (hFile file).trans ⟨fun h => ⟨file, rfl, h⟩, ?_⟩
    rintro ⟨other, hSame, h⟩
    obtain rfl : file = other := by
      have hStrip : Text.stripPrefix? "META-INF/" ("META-INF/" ++ other) = some other :=
        Text.stripPrefix?_append
      rw [← hSame, Text.stripPrefix?_append] at hStrip
      exact Option.some.inj hStrip
    exact h

theorem stripSignature_manifest (hKind : e.kind = .manifest) :
    stripSignature e = some (if (parse e.data).hasSectionAttribute isDigestKey then
      e.withData ((parse e.data).stripSections isDigestKey).toBytes else e) := by
  rw [stripSignature, hKind]
  dsimp only
  split <;> rfl

/-- The stage leaves an entry alone that is no manifest with digests and no file of a signature. -/
theorem stripSignature_of_not (hManifest : e.kind = .manifest →
      (parse e.data).hasSectionAttribute isDigestKey = false)
    (hFile : ¬ (e.kind = .resource ∧ IsSignaturePath e.name)) : stripSignature e = some e := by
  cases hKind : e.kind with
  | manifest =>
    rw [stripSignature_manifest hKind, hManifest hKind, if_neg Bool.false_ne_true]
  | resource =>
    have hOther : ¬ isSignatureFile e.name = true := fun h =>
      hFile ⟨hKind, isSignatureFile_iff.1 h⟩
    rw [stripSignature, hKind]
    exact if_neg hOther
  | classFile | directory => rw [stripSignature, hKind]

/-- **Signatures are stripped.** Only the files of signatures go. A manifest that holds digests
loses them, and the sections that have nothing else; it keeps the rest and gets a version if it has
none. Any other entry stays as it is, and the stage leaves alone what it left. -/
theorem apply_stripSignatures_spec (e : JarEntry)
    (hStart : e.kind = .manifest → (Utf8.lenient e.data).toList.head? ≠ some ' ') :
    ∃ out, stripSignatures.apply e = .ok out ∧
      (out = none ↔ e.kind = .resource ∧ IsSignaturePath e.name) ∧
      ∀ e', out = some e' →
        e' = e.withData e'.data ∧
        ((e.kind = .manifest → (parse e.data).hasSectionAttribute isDigestKey = false) → e' = e) ∧
        (e.kind = .manifest → (parse e.data).hasSectionAttribute isDigestKey = true →
          Stripped isDigestKey (parse e.data).versioned (parse e'.data)) ∧
        (e.kind = .manifest → ∀ name attributes,
          (parse e'.data).sections.get? name = some attributes →
            ∀ key ∈ attributes.keys, isDigestKey key = false) ∧
        stripSignatures.apply e' = .ok (some e') := by
  refine ⟨stripSignature e, rfl, ?_⟩
  by_cases hFile : e.kind = .resource ∧ IsSignaturePath e.name
  · -- a file of a signature
    have hGone : stripSignature e = none := by
      rw [stripSignature, hFile.1]
      exact if_pos (isSignatureFile_iff.2 hFile.2)
    rw [hGone]
    exact ⟨iff_of_true rfl hFile, nofun⟩
  by_cases hDigests : e.kind = .manifest ∧ (parse e.data).hasSectionAttribute isDigestKey = true
  · -- a manifest with digests
    obtain ⟨hKind, hSome⟩ := hDigests
    have hLeft : stripSignature e =
        some (e.withData ((parse e.data).stripSections isDigestKey).toBytes) := by
      rw [stripSignature_manifest hKind, if_pos hSome]
    have hStripped := stripped_parse (legible_parse_of_start (hStart hKind)) isDigestKey
    have hNone := hStripped.hasSectionAttribute
    rw [hLeft]
    -- which bytes are written does not matter any more
    generalize ((parse e.data).stripSections isDigestKey).toBytes = data at hStripped hNone ⊢
    refine ⟨iff_of_false nofun hFile, ?_⟩
    rintro e' h
    obtain rfl := Option.some.inj h
    refine ⟨rfl, fun hOther => ?_, fun _ _ => hStripped, fun _ =>
      hasSectionAttribute_eq_false.1 hNone, congrArg Except.ok ?_⟩
    · rw [hOther hKind] at hSome
      cases hSome
    · refine stripSignature_of_not (fun _ => hNone) fun h => ?_
      have hResource : e.kind = .resource := h.1
      rw [hKind] at hResource
      cases hResource
  · -- any other entry
    have hNone : e.kind = .manifest → (parse e.data).hasSectionAttribute isDigestKey = false :=
      fun hKind => Bool.eq_false_iff.2 fun hSome => hDigests ⟨hKind, hSome⟩
    have hSame := stripSignature_of_not hNone hFile
    rw [hSame]
    refine ⟨iff_of_false nofun hFile, ?_⟩
    rintro e' h
    obtain rfl := Option.some.inj h
    exact ⟨rfl, fun _ => rfl, fun hKind hSome => absurd ⟨hKind, hSome⟩ hDigests,
      fun hKind => hasSectionAttribute_eq_false.1 (hNone hKind), congrArg Except.ok hSame⟩

/-- A manifest without a version. One entry has a digest and another attribute, one only a digest,
and one nothing. -/
def signedManifest : JarEntry :=
  .ofArchive ⟨"META-INF/MANIFEST.MF", none, Utf8.encode
    "\n\nName: a\nA-Digest: x\nB: y\n\nName: b\na-digest: x\n\nName: c\n"⟩

theorem apply_stripSignatures_signed :
    (Utf8.lenient signedManifest.data).toList.head? ≠ some ' ' ∧
      ∃ e', stripSignatures.apply signedManifest = .ok (some e') ∧
        e'.data = Utf8.encode
          "Manifest-Version: 1.0\r\n\r\nName: a\r\nB: y\r\n\r\nName: c\r\n\r\n" ∧
        Stripped isDigestKey (parse signedManifest.data).versioned (parse e'.data) ∧
        stripSignatures.apply e' = .ok (some e') := by
  have hStart : (Utf8.lenient signedManifest.data).toList.head? ≠ some ' ' := by decide +kernel
  have hKind : signedManifest.kind = .manifest := by decide +kernel
  have hDigests : (parse signedManifest.data).hasSectionAttribute isDigestKey = true := by
    decide +kernel
  refine ⟨hStart, ?_⟩
  obtain ⟨out, hOut, hGone, hLeft⟩ := apply_stripSignatures_spec signedManifest fun _ => hStart
  cases out with
  | none =>
    have hResource := (hGone.1 rfl).1
    rw [hKind] at hResource
    cases hResource
  | some e' =>
    obtain ⟨-, -, hStripped, -, hAgain⟩ := hLeft e' rfl
    refine ⟨e', hOut, ?_, hStripped hKind hDigests, hAgain⟩
    have hData : (stripSignature signedManifest).map (·.data) = some (Utf8.encode
        "Manifest-Version: 1.0\r\n\r\nName: a\r\nB: y\r\n\r\nName: c\r\n\r\n") := by
      decide +kernel
    rw [show stripSignature signedManifest = some e' from Except.ok.inj hOut] at hData
    exact Option.some.inj hData

end Transformer

end Jarsmith
