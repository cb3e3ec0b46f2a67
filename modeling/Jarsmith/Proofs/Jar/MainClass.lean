import Jarsmith.Jar.Transformer
import Jarsmith.Proofs.Jar.ReadManifest

/-!
# The main class of a manifest

The main class of a manifest is found whatever the letter case of its key, but it is written under
the key `Main-Class`. Under any other key the old name stays in front of the new one.

* `JarManifest.mainRow?_setMainAttribute` — which attribute is found behind a write.
* `Transformer.apply_remap_manifest` — the renaming stage on any manifest.
-/

namespace Jarsmith

/-- What a search for keys finds behind a write to a key that it looks for. -/
theorem OrderedMap.find?_write {κ α : Type} [DecidableEq κ] {q : κ → Bool} {k : κ} {a : α}
    {l : List (κ × α)} {e : κ × α} (hKey : q k = true)
    (hFirst : l.find? (fun e => q e.1) = some e) :
    (write k a l).find? (fun e => q e.1) = some (if e.1 = k then (k, a) else e) := by
  induction l with
  | nil => cases hFirst
  | cons d rest ih =>
    rw [List.find?_cons] at hFirst
    rw [write]
    split at hFirst
    · rename_i hFound
      obtain rfl := Option.some.inj hFirst
      split
      · exact List.find?_cons_of_pos hKey
      · exact List.find?_cons_of_pos hFound
    · rename_i hNot
      have hOther : d.1 ≠ k := fun h => by
        rw [h, hKey] at hNot
        cases hNot
      rw [if_neg hOther, List.find?_cons_of_neg (by rw [hNot]; exact Bool.false_ne_true)]
      exact ih hFirst

namespace JarManifest

variable {m : JarManifest} {name key value main : String}

/-- The first main attribute of a name, whatever its letter case. -/
def mainRow? (m : JarManifest) (name : String) : Option (String × String) :=
  m.main.entries.find? fun a => Text.equalsIgnoringCase a.1 name

theorem mainAttribute?_eq : m.mainAttribute? name = (m.mainRow? name).map (·.2) := rfl

/-- Which attribute is found behind a write. -/
theorem mainRow?_setMainAttribute (hFirst : m.mainRow? name = some (key, main)) :
    (m.setMainAttribute name value).mainRow? name =
      some (if key = name then (name, value) else (key, main)) :=
  OrderedMap.find?_write (q := fun key => Text.equalsIgnoringCase key name)
    (beq_self_eq_true _) hFirst

theorem sections_setMainAttribute : (m.setMainAttribute name value).sections = m.sections := rfl

/-- The new value is found if it was written over the old one. -/
theorem mainAttribute?_setMainAttribute (hFirst : m.mainRow? name = some (key, main))
    (value : String) : (m.setMainAttribute name value).mainAttribute? name = some value ↔
      key = name ∨ main = value := by
  rw [mainAttribute?_eq, mainRow?_setMainAttribute hFirst, Option.map_some, Option.some.injEq]
  split
  · rename_i hKey
    exact iff_of_true rfl (.inl hKey)
  · rename_i hKey
    exact (or_iff_right hKey).symm

/-- A write keeps an attribute of another name. -/
theorem isSome_mainAttribute?_setMainAttribute {other : String}
    (h : (m.mainAttribute? other).isSome = true) :
    ((m.setMainAttribute name value).mainAttribute? other).isSome = true := by
  rw [Option.isSome_iff_ne_none, Ne, mainAttribute?_eq_none] at h ⊢
  exact fun hNone => h fun key hMem => hNone key (OrderedMap.mem_keys_insert.2 (.inr hMem))

/-- A manifest that was read and has a version keeps a value that is written to a main attribute, if
the value is one line. -/
theorem parse_toBytes_setMainAttribute (h : Legible 1 m) (hName : IsLegible (name, value))
    (hStart : name.toList.head? ≠ some ' ')
    (hVersion : (m.mainAttribute? "Manifest-Version").isSome = true) :
    parse (m.setMainAttribute name value).toBytes = m.setMainAttribute name value :=
  parse_toBytes_of_legible (h.insert_main hName fun hSpace => absurd hSpace hStart)
    (isSome_mainAttribute?_setMainAttribute hVersion)

end JarManifest

namespace Transformer

open JarManifest

variable {r : Remapper} {e e' : JarEntry}

/-- No character but a slash becomes another one in a class name that is written with dots. -/
theorem not_mem_dotted {c : Char} {name : String} (hDot : c ≠ '.') (hName : c ∉ name.toList) :
    c ∉ (Text.replace '/' '.' name).toList := by
  rw [Text.replace, String.toList_ofList, Text.swap, List.mem_map]
  rintro ⟨d, hd, hSame⟩
  split at hSame
  · exact hDot hSame.symm
  · exact hName (hSame ▸ hd)

theorem remapManifest_of_none
    (hNone : ∀ main, (parse e.data).mainAttribute? "Main-Class" = some main →
      r.class? (Text.replace '.' '/' main) = none) : remapManifest r e = e := by
  have hBind : (((parse e.data).mainAttribute? "Main-Class").bind fun main =>
      r.class? (Text.replace '.' '/' main)) = none :=
    Option.bind_eq_none_iff.2 hNone
  rw [remapManifest, hBind]

theorem remapManifest_of_class? {key main x : String}
    (hFirst : (parse e.data).mainRow? "Main-Class" = some (key, main))
    (hNew : r.class? (Text.replace '.' '/' main) = some x) :
    remapManifest r e = e.withData
      ((parse e.data).setMainAttribute "Main-Class" (Text.replace '/' '.' x)).toBytes := by
  rw [remapManifest, mainAttribute?_eq, hFirst, Option.map_some, Option.bind_some, hNew]

/-- **The main class of a manifest is renamed.** A manifest without a main class, and one whose main
class keeps its name, is left as it is. In any other manifest with a version, the new name is the
value of the main attribute `Main-Class`, and nothing else changes. A search that ignores the letter
case finds it exactly if the old name was found under `Main-Class` in these letters, or is the new
one. -/
theorem apply_remap_manifest (r : Remapper) (e : JarEntry) (hKind : e.kind = .manifest) :
    ∃ e', (remap r).apply e = .ok (some e') ∧
      ((∀ main, (parse e.data).mainAttribute? "Main-Class" = some main →
        r.class? (Text.replace '.' '/' main) = none) → e' = e) ∧
      ∀ key main x, (parse e.data).mainRow? "Main-Class" = some (key, main) →
        r.class? (Text.replace '.' '/' main) = some x → '\n' ∉ x.toList →
        ((parse e.data).mainAttribute? "Manifest-Version").isSome = true →
          e' = e.withData e'.data ∧
          (parse e'.data).sections = (parse e.data).sections ∧
          (parse e'.data).main.keys = ((parse e.data).main.insert "Main-Class" x).keys ∧
          (∀ other, other ≠ "Main-Class" →
            (parse e'.data).main.get? other = (parse e.data).main.get? other) ∧
          (parse e'.data).main.get? "Main-Class" = some (Text.replace '/' '.' x) ∧
          ((parse e'.data).mainAttribute? "Main-Class" = some (Text.replace '/' '.' x) ↔
            key = "Main-Class" ∨ main = Text.replace '/' '.' x) := by
  refine ⟨remapManifest r e, ?_, remapManifest_of_none, ?_⟩
  · rw [apply, hKind]
  intro key main x hFirst hNew hLine hVersion
  have hName : IsLegible ("Main-Class", Text.replace '/' '.' x) :=
    ⟨(by decide : ':' ∉ "Main-Class".toList), (by decide : '\n' ∉ "Main-Class".toList),
      not_mem_dotted (by decide) hLine⟩
  have hParse := parse_toBytes_setMainAttribute (legible_parse e.data) hName (by decide) hVersion
  rw [remapManifest_of_class? hFirst hNew]
  have hFound := mainAttribute?_setMainAttribute hFirst (Text.replace '/' '.' x)
  generalize ((parse e.data).setMainAttribute "Main-Class" (Text.replace '/' '.' x)).toBytes = data
    at hParse ⊢
  have hData : (e.withData data).data = data := rfl
  rw [hData, hParse]
  refine ⟨rfl, sections_setMainAttribute, ?_, fun other hOther => ?_, ?_, hFound⟩
  · rw [setMainAttribute, OrderedMap.keys_insert, OrderedMap.keys_insert]
  · rw [setMainAttribute, OrderedMap.get?_insert, if_neg hOther.symm]
  · rw [setMainAttribute, OrderedMap.get?_insert, if_pos rfl]

/-- A manifest with a main class under a key. -/
def startedBy (key : String) : JarEntry :=
  .ofArchive ⟨"META-INF/MANIFEST.MF", none,
    Utf8.encode ("Manifest-Version: 1.0\n" ++ key ++ ": a.B\n")⟩

/-- Moves one class. -/
def movingMain : Remapper :=
  ⟨fun name => if name = "a/B" then some "x/C" else none, fun _ _ => none, fun _ _ => none,
    fun _ _ => none, fun _ _ _ => none⟩

/-- The main class follows if its key is `Main-Class`; under `main-class` the old name is found. -/
theorem mainAttribute?_startedBy :
    (startedBy "Main-Class").kind = .manifest ∧ (startedBy "main-class").kind = .manifest ∧
      (∃ e', (remap movingMain).apply (startedBy "Main-Class") = .ok (some e') ∧
        (parse e'.data).mainAttribute? "Main-Class" = some "x.C") ∧
      ∃ e', (remap movingMain).apply (startedBy "main-class") = .ok (some e') ∧
        (parse e'.data).main.get? "Main-Class" = some "x.C" ∧
        (parse e'.data).mainAttribute? "Main-Class" ≠ some "x.C" := by
  have hKind : (startedBy "Main-Class").kind = .manifest := by decide +kernel
  have hSmall : (startedBy "main-class").kind = .manifest := by decide +kernel
  have hNew : movingMain.class? (Text.replace '.' '/' "a.B") = some "x/C" := by decide +kernel
  have hDots : Text.replace '/' '.' "x/C" = "x.C" := by decide +kernel
  refine ⟨hKind, hSmall, ?_, ?_⟩
  · obtain ⟨e', hApply, -, hRenamed⟩ := apply_remap_manifest movingMain _ hKind
    obtain ⟨-, -, -, -, -, hFound⟩ := hRenamed "Main-Class" "a.B" "x/C" (by decide +kernel) hNew
      (by decide) (by decide +kernel)
    rw [hDots] at hFound
    exact ⟨e', hApply, hFound.2 (.inl rfl)⟩
  · obtain ⟨e', hApply, -, hRenamed⟩ := apply_remap_manifest movingMain _ hSmall
    obtain ⟨-, -, -, -, hGet, hFound⟩ := hRenamed "main-class" "a.B" "x/C" (by decide +kernel)
      hNew (by decide) (by decide +kernel)
    rw [hDots] at hGet hFound
    exact ⟨e', hApply, hGet, fun h => (hFound.1 h).elim (by decide) (by decide)⟩

end Transformer

end Jarsmith
