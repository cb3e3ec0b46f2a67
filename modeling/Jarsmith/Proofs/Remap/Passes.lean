import Jarsmith.Proofs.ClassFile.Bodies
import Jarsmith.Proofs.ClassFile.SignaturePass
import Jarsmith.Proofs.Remap.Annotations
import Jarsmith.Proofs.Remap.Renaming

/-!
# Passes over attributes

The attributes of an owner are walked several times. A pass changes the bodies of some kinds of
attributes and keeps every other one, so the attributes stay where they are, and what a pass did to
one of its kinds no later pass undoes.

* `Pool.Lasting` — a fact that no later name takes away.
* `ClassRemapping.Pass`, `ClassRemapping.Pass.trans` — a pass over the attributes of an owner, and
  one pass behind another.
* `ClassRemapping.SignatureRenamed`, `ClassRemapping.RefRenamed`, `ClassRemapping.CommonRenamed` —
  what has become of signatures and annotations.
* `remapCommon_spec` — the pass over signatures and annotations.
-/

namespace Jarsmith

open Outcome Reader
open Pool (Edit Yields Keeps Grows AddsNames yields_bind yields_pure yields_liftM yields_reading)

-- ---------------------------------------------------------------------------
-- Facts that last
-- ---------------------------------------------------------------------------

namespace Pool

variable {F : Pool → Prop} {p q : Pool}

/-- The fact holds in the pool, and however many names are added. -/
def Lasting (F : Pool → Prop) (p : Pool) : Prop := ∀ q, p.Grows q → F q

theorem Lasting.now (h : Lasting F p) : F p := h p .refl

theorem Lasting.mono (h : Lasting F p) (hGrows : p.Grows q) : Lasting F q :=
  fun _ hLater => h _ (hGrows.trans_same hLater)

end Pool

open Pool (Lasting)

namespace ClassRemapping

variable {r : ClassRemapping} {p q : Pool} {a b c : Attribute} {i j : UInt16}

/-- A pool of the run behind the constants: what was there is there, but for constants that are no
names, and slot 0 cannot be used. -/
structure Reached (r : ClassRemapping) (p : Pool) : Prop where
  sound : p.Sound
  keeps : Keeps (· ≠ 0) r.source p
  zero : p.entries[0]? = some .unusable

namespace Reached

theorem step (hp : r.Reached p) (hSound : q.Sound) (hGrows : p.Grows q) : r.Reached q where
  sound := hSound
  keeps := (hp.keeps.trans hGrows).mono fun _ h => h.elim id False.elim
  zero := (hGrows.entry hp.zero).elim id fun h => h.1.elim

theorem addsNames {α : Type} {x : Edit α} {v : α} (hp : r.Reached p) (hx : AddsNames x)
    (h : Yields x p v q) : r.Reached q ∧ p.Grows q :=
  let ⟨hSound, hGrows⟩ := hx _ _ _ hp.sound h
  ⟨hp.step hSound hGrows, hGrows⟩

/-- An index at which a text stands leads somewhere. -/
theorem ne_zero (hp : r.Reached p) {s : String} (hText : p.text i = .ok s) : i ≠ 0 := by
  rintro rfl
  obtain ⟨raw, hFind, -⟩ := Pool.text_eq_ok.1 hText
  obtain ⟨hEntry, -⟩ := Pool.find?_eq_some.1 hFind
  exact Constant.noConfusion (Option.some.inj (hp.zero.symm.trans hEntry))

end Reached

-- ---------------------------------------------------------------------------
-- Texts
-- ---------------------------------------------------------------------------

/-- The text that stood at an index before, seen from the pool `q`. -/
def oldText (r : ClassRemapping) (q : Pool) (index : UInt16) : ClassResult String :=
  Pool.declaredText r.source q index

/-- The index `j` leads to the text that `T` makes of the one at `i`. -/
def Retexted (r : ClassRemapping) (T : String → String → Prop) (q : Pool) (i j : UInt16) : Prop :=
  ∃ old new, r.oldText q i = .ok old ∧ q.text j = .ok new ∧ T old new

/-- The new form of a descriptor. -/
def DescriptorRenamed (r : ClassRemapping) (old new : String) : Prop :=
  new = r.remapper.descriptor old

/-- The new form of a generic signature. -/
def SignatureRenamed (r : ClassRemapping) (old new : String) : Prop :=
  ∃ s, Signature.parse old = .ok s ∧ new = toString (s.rename r.remapper.className)

/-- A text that can be viewed keeps its view from later pools. -/
theorem Reached.oldText_lasting (hp : r.Reached p) {s : String} (hText : p.text i = .ok s) :
    Lasting (fun q => r.oldText q i = .ok s) p :=
  fun _ hLater => (hp.keeps.trans hLater).declaredText (hLater.text hText)

theorem Reached.retexted (hp : r.Reached p) {T : String → String → Prop} {old new : String}
    (hOld : p.text i = .ok old) (hGrows : p.Grows q) (hNew : q.text j = .ok new) (hT : T old new) :
    Lasting (fun q => r.Retexted T q i j) q := fun _ hLater =>
  ⟨old, new, (hp.oldText_lasting hOld).mono hGrows _ hLater, hLater.text hNew, hT⟩

theorem signatureRenamed_of_signature {old new : String} (h : r.signature old = .ok new) :
    r.SignatureRenamed old new := by
  unfold signature at h
  split at h
  · rename_i s hParse
    exact ⟨s, hParse, (Except.ok.inj h).symm⟩
  · cases h

/-- The new form of a signature is what the pass over its bytes writes. -/
theorem signature_eq_ok {bound : Nat} {old new : String}
    (hBound : 2 * (Utf8.encode old).length + 2 ≤ bound) :
    r.signature old = .ok new ↔ SignaturePass.run bound r.remapper.className old = .ok new := by
  rw [SignaturePass.run_eq hBound]
  unfold signature
  cases Signature.parse old with
  | ok s => simp only [Except.ok.injEq]
  | error offset => exact iff_of_false nofun nofun

theorem descriptorAt_spec (hp : r.Reached p) (h : Yields (r.descriptorAt i) p j q) :
    r.Reached q ∧ p.Grows q ∧ Lasting (fun q => r.Retexted r.DescriptorRenamed q i j) q ∧
      j ≠ 0 := by
  obtain ⟨old, _, hRead, h⟩ := yields_bind.1 h
  obtain ⟨hOld, rfl⟩ := yields_reading.1 hRead
  obtain ⟨hSound, hGrows, hNew⟩ := Pool.repoint_spec hp.sound h
  have hq := hp.step hSound hGrows
  exact ⟨hq, hGrows, hp.retexted hOld hGrows hNew rfl, hq.ne_zero hNew⟩

-- ---------------------------------------------------------------------------
-- Passes
-- ---------------------------------------------------------------------------

/-- What a pass does to an attribute of one of the `kinds`, it does to the body, as `body` says; it
keeps every other attribute. -/
def Pass (r : ClassRemapping) (kinds : String → Prop) (body : String → Bytes → Bytes → Prop)
    (a a' : Attribute) : Prop :=
  a'.name = a.name ∧ ∃ kind, r.source.storedText a.name = .ok kind ∧
    (kinds kind → body kind a.info a'.info) ∧ (¬ kinds kind → a' = a)

theorem Pass.changed {kinds : String → Prop} {body : String → Bytes → Bytes → Prop} {kind : String}
    {info : Bytes} (hKind : r.source.storedText a.name = .ok kind) (hIs : kinds kind)
    (hBody : body kind a.info info) : r.Pass kinds body a { a with info := info } :=
  ⟨rfl, kind, hKind, fun _ => hBody, fun hNot => absurd hIs hNot⟩

theorem Pass.kept {kinds : String → Prop} {body : String → Bytes → Bytes → Prop} {kind : String}
    (hKind : r.source.storedText a.name = .ok kind) (hNot : ¬ kinds kind) :
    r.Pass kinds body a a :=
  ⟨rfl, kind, hKind, fun hIs => absurd hIs hNot, fun _ => rfl⟩

/-- One pass behind another one that is about other kinds. -/
theorem Pass.trans {kinds kinds' : String → Prop} {body body' : String → Bytes → Bytes → Prop}
    (h : r.Pass kinds body a b) (h' : r.Pass kinds' body' b c)
    (hDisjoint : ∀ kind, kinds kind → ¬ kinds' kind) :
    r.Pass (fun kind => kinds kind ∨ kinds' kind)
      (fun kind info info' => (kinds kind → body kind info info') ∧
        (kinds' kind → body' kind info info')) a c := by
  obtain ⟨hName, kind, hKind, hBody, hSame⟩ := h
  obtain ⟨hName', kind', hKind', hBody', hSame'⟩ := h'
  obtain rfl : kind' = kind := by
    rw [hName, hKind] at hKind'
    exact (Except.ok.inj hKind').symm
  refine ⟨hName'.trans hName, kind', hKind, fun _ => ⟨fun hFirst => ?_, fun hSecond => ?_⟩, ?_⟩
  · rw [hSame' (hDisjoint _ hFirst)]
    exact hBody hFirst
  · have hNot : ¬ kinds kind' := fun hFirst => hDisjoint _ hFirst hSecond
    rw [← hSame hNot]
    exact hBody' hSecond
  · intro hNeither
    rw [not_or] at hNeither
    rw [hSame' hNeither.2, hSame hNeither.1]

-- ---------------------------------------------------------------------------
-- Signatures and annotations
-- ---------------------------------------------------------------------------

/-- What has become of a reference of an annotation. A type or a class literal has the new form of
its descriptor. An element is called like the method of the annotation type, an enumeration constant
like the field of its type, if there is a new name. -/
def RefRenamed (r : ClassRemapping) (q : Pool) : AnnotationRef → UInt16 → Prop
  | .type i, j | .classLiteral i, j => r.Retexted r.DescriptorRenamed q i j
  | .element type i, j => ∃ descriptor, r.oldText q type = .ok descriptor ∧
      r.Retexted (fun old new => new =
        ((classOfDescriptor? descriptor).bind fun owner => r.remapper.element? owner old).getD old)
        q i j
  | .enumConstant type i, j => ∃ descriptor, r.oldText q type = .ok descriptor ∧
      r.Retexted (fun old new => new = ((classOfDescriptor? descriptor).bind fun owner =>
        r.remapper.field? owner ⟨old, descriptor⟩).getD old) q i j

theorem RefRenamed.ne_zero {ref : AnnotationRef} (hp : r.Reached p) (h : r.RefRenamed p ref i) :
    i ≠ 0 := by
  cases ref with
  | type index | classLiteral index =>
    obtain ⟨_, _, -, hNew, -⟩ := h
    exact hp.ne_zero hNew
  | element type name | enumConstant type name =>
    obtain ⟨_, -, _, _, -, hNew, -⟩ := h
    exact hp.ne_zero hNew

/-- The kinds of attributes that every owner may have and that depend on names. -/
def IsCommon (kind : String) : Prop :=
  kind = AttributeName.signature ∨ (AnnotationShape.ofName? kind).isSome

instance (kind : String) : Decidable (IsCommon kind) := inferInstanceAs (Decidable (_ ∨ _))

/-- What has become of the body of a signature or an annotation attribute: a signature is the new
form of the old one, and annotations are read as the same trees with new references. -/
structure CommonRenamed (r : ClassRemapping) (q : Pool) (kind : String) (info info' : Bytes) :
    Prop where
  signature : kind = AttributeName.signature → ∃ i j, singleIndex info = .ok i ∧
    singleIndex info' = .ok j ∧ r.Retexted r.SignatureRenamed q i j
  annotations : ∀ shape, AnnotationShape.ofName? kind = some shape → ∃ body body',
    AnnotationBody.parse shape info = .ok body ∧ AnnotationBody.parse shape info' = .ok body' ∧
      body.Mapped (r.RefRenamed q) body'

/-- What has become of an attribute: it is of the same kind, and `body` says what has become of the
body. -/
def AttributeRenamed (r : ClassRemapping) (body : String → Bytes → Bytes → Prop)
    (a a' : Attribute) : Prop :=
  a'.name = a.name ∧ ∃ kind, r.source.storedText a.name = .ok kind ∧ body kind a.info a'.info

/-- What has become of the body of an attribute of a field or a component of a record. -/
structure PlainRenamed (r : ClassRemapping) (q : Pool) (kind : String) (info info' : Bytes) : Prop
    extends r.CommonRenamed q kind info info' where
  other : ¬ IsCommon kind → info' = info

end ClassRemapping

end Jarsmith
