import Jarsmith.Proofs.Jar.Staged

/-!
# Fixed classes that are read again

The fixes of a class change bodies of attributes and intern texts. So the tables of a fixed class
fit if they can be written, and what is read of its written form is the fixed class.

* `SameLabels` — a member that differs from another one in the bodies of its attributes only.
* `ClassFile.methods_of_fixLocalNames` — what the fix of local variables makes of the methods.
* `ClassFile.parse_of_labels` — a class with other bodies of attributes is read again.
* `Transformer.parse_of_fixNames` — a class behind both fixes is written and read again.
-/

namespace Jarsmith

open Outcome
open Pool (Yields Interned yields_bind yields_pure yields_liftM)

/-- The attributes have the names of others, one by one. -/
abbrev SameAttributeNames : List Attribute → List Attribute → Prop :=
  List.Forall₂ fun a a' => a'.name = a.name

/-- A member with the name and the descriptor of another one, and with attributes of the same
names. -/
structure SameLabels (m m' : Member) : Prop where
  name : m'.name = m.name
  descriptor : m'.descriptor = m.descriptor
  attributes : SameAttributeNames m.attributes m'.attributes

theorem SameAttributeNames.setBody {l l' : List Attribute} (h : SameAttributeNames l l')
    (place : Nat) (info : Bytes) : SameAttributeNames l (setBody l' place info) := by
  induction h generalizing place with
  | nil => simp [Jarsmith.setBody]
  | cons hFirst hMore ih =>
    cases place with
    | zero => exact .cons hFirst hMore
    | succ place => exact .cons hFirst (ih place)

theorem SameLabels.refl (m : Member) : SameLabels m m where
  name := rfl
  descriptor := rfl
  attributes := List.forall₂_same.2 fun _ _ => rfl

/-- Members with the labels of members that fit do, if they can be written. -/
theorem fits_of_sameLabels {list list' : List Member} (h : List.Forall₂ SameLabels list list')
    (hFits : ∀ m ∈ list, m.Fits) (hWrite : ∀ m ∈ list', Attribute.CanWrite m.attributes) :
    ∀ m ∈ list', m.Fits :=
  forall_of_forall₂ hFits hWrite h fun _ _ hFits hWrite h =>
    { name := h.name ▸ hFits.name
      descriptor := h.descriptor ▸ hFits.descriptor
      attributes := ClassRemapping.allFit_of_names h.attributes hFits.attributes hWrite }

-- ---------------------------------------------------------------------------
-- One method
-- ---------------------------------------------------------------------------

namespace LocalNames

variable {m m' : Member} {p q : Pool}

theorem sameLabels_of_replace {tables : NameTables} {rows : List LocalVariable}
    {renamed : Renamed} {parameters : Option (List MethodParameter)}
    (h : tables.replace m rows renamed parameters = .ok m') : SameLabels m m' := by
  have hRefl := (SameLabels.refl m).attributes
  simp only [NameTables.replace] at h
  split at h
  · simp only [bind_ok_iff, pure_ok_iff] at h
    obtain ⟨_, -, _, -, _, rfl, h⟩ := h
    split at h
    · simp only [bind_ok_iff, pure_ok_iff] at h
      obtain ⟨_, -, _, rfl, rfl⟩ := h
      exact ⟨rfl, rfl, (hRefl.setBody _ _).setBody _ _⟩
    · simp only [bind_ok_iff, pure_ok_iff] at h
      obtain ⟨_, rfl, rfl⟩ := h
      exact ⟨rfl, rfl, hRefl.setBody _ _⟩
  · simp only [bind_ok_iff, pure_ok_iff] at h
    obtain ⟨_, rfl, h⟩ := h
    split at h
    · simp only [bind_ok_iff, pure_ok_iff] at h
      obtain ⟨_, -, _, rfl, rfl⟩ := h
      exact ⟨rfl, rfl, hRefl.setBody _ _⟩
    · simp only [bind_ok_iff, pure_ok_iff] at h
      obtain ⟨_, rfl, rfl⟩ := h
      exact ⟨rfl, rfl, hRefl⟩

theorem sameLabels_of_fixMethod {pool : Pool} (h : Yields (fixMethod pool m) p (some m') q) :
    SameLabels m m' := by
  obtain ⟨_, _, -, -, hFix⟩ := yields_fixMethod.1 h
  obtain ⟨_, _, _, _, _, _, _, _, _, _, -, -, -, -, -, ⟨-, -, hNone⟩ | ⟨-, _, hReplace, hSome⟩⟩ :=
    yields_fix.1 hFix
  · cases hNone
  · obtain rfl := Option.some.inj hSome
    exact sameLabels_of_replace hReplace

/-- The methods behind the fix, of which some were replaced. -/
theorem forall₂_zipWith_getD {R : Member → Member → Prop} {methods : List Member}
    {fixed : List (Option Member)} (h : List.Forall₂ (fun m o => R m (o.getD m)) methods fixed) :
    List.Forall₂ R methods (List.zipWith Option.getD fixed methods) := by
  induction h with
  | nil => exact .nil
  | @cons m o _ _ hFirst _ ih => exact .cons (R := R) hFirst ih

end LocalNames

-- ---------------------------------------------------------------------------
-- Classes
-- ---------------------------------------------------------------------------

namespace ClassFile

variable {c d : ClassFile} {p q : Pool} {bytes written : Bytes}

/-- The fix of local variables keeps the labels of the methods, and everything else. -/
theorem methods_of_fixLocalNames (hSound : p.Sound) (h : Yields c.fixLocalNames p (some d) q) :
    ∃ methods, d = { c with methods := methods } ∧ List.Forall₂ SameLabels c.methods methods := by
  obtain ⟨fixed, hMethods, hSome⟩ := yields_fixLocalNames.1 h
  split at hSome
  · cases hSome
  obtain rfl := Option.some.inj hSome
  refine ⟨_, rfl, LocalNames.forall₂_zipWith_getD ?_⟩
  obtain ⟨-, -, hFixed⟩ := Pool.forall₂_of_mapM_same (I := Pool.Sound) (P := fun _ => True)
    (R := fun _ m (o : Option Member) => SameLabels m (o.getD m)) (fun _ _ _ _ _ h => h)
    (fun m p o q hSound _ hRun => by
      obtain ⟨hSound', hGrows⟩ :=
        (LocalNames.interns_fixMethod c.pool m).addsNames _ _ _ hSound hRun
      refine ⟨hSound', hGrows, ?_⟩
      cases o with
      | none => exact .refl m
      | some m' => exact LocalNames.sameLabels_of_fixMethod hRun)
    (fun _ _ => trivial) hSound hMethods
  exact hFixed

/-- A class that differs from one that was read by its pool, its methods and its attributes fits if
it can be written. -/
theorem fits_of_labels {list : List Attribute} {methods : List Member}
    (hParse : parse bytes = .ok c) (hNames : ∀ a ∈ list, a.name ≠ 0)
    (hMethods : List.Forall₂ SameLabels c.methods methods)
    (hWritten : ({ c with pool := q, attributes := list, methods := methods } : ClassFile).toBytes =
      .ok written) :
    ({ c with pool := q, attributes := list, methods := methods } : ClassFile).Fits := by
  have hFits := fits_parse hParse
  obtain ⟨-, hAttributes⟩ := canWrite_of_toBytes hWritten
  simp only [toBytes, bind_ok_iff] at hWritten
  obtain ⟨_, -, _, -, _, -, _, hMethodBytes, -⟩ := hWritten
  obtain ⟨hCount, hWrite⟩ := Member.canWrite_of_listToBytes hMethodBytes
  exact ⟨⟨hFits.interfaces, hFits.fields,
    ⟨hCount, fits_of_sameLabels hMethods hFits.methods.2 hWrite⟩, hAttributes.1,
    fun a ha => ⟨hNames a ha, hAttributes.2 a ha⟩⟩, hFits.thisClass, hFits.superClass,
    hFits.interfaceIndices⟩

/-- Such a class is read again as it was written. -/
theorem parse_of_labels {list : List Attribute} {methods : List Member} {n : String}
    (hParse : parse bytes = .ok c) (hNames : ∀ a ∈ list, a.name ≠ 0)
    (hMethods : List.Forall₂ SameLabels c.methods methods) (hIntact : q.Intact)
    (hName : ({ c with pool := q, attributes := list, methods := methods } : ClassFile).name =
      .ok n)
    (hWritten : ({ c with pool := q, attributes := list, methods := methods } : ClassFile).toBytes =
      .ok written) :
    parse written = .ok { c with pool := q, attributes := list, methods := methods } := by
  have hFits := fits_of_labels hParse hNames hMethods hWritten
  have hSize := (canWrite_of_toBytes hWritten).1
  obtain ⟨written', hWritten', hRead⟩ := hFits.exists_toBytes hIntact.readable hSize hName
  obtain rfl := Except.ok.inj (hWritten.symm.trans hWritten')
  exact hRead

end ClassFile

namespace Transformer

open ClassFile

variable {c o : ClassFile} {bytes written : Bytes}

/-- Both fixes change the pool, the attributes and the bodies of methods. -/
theorem labels_of_fixNames (hParse : parse bytes = .ok c)
    (hFix : c.fix (fixNames c) = .ok (some o)) : ∃ list methods q,
      o = { c with pool := q, attributes := list, methods := methods } ∧
      (∀ a ∈ list, a.name ≠ 0) ∧ List.Forall₂ SameLabels c.methods methods ∧ q.Intact := by
  obtain ⟨first, p, second, q, hFirst, hSecond, hEq⟩ := fixNames_eq_ok.1 hFix
  obtain ⟨list, hSource, hNames, hIntact⟩ : ∃ list, first.getD c = { c with attributes := list } ∧
      (∀ a ∈ list, a.name ≠ 0) ∧ p.Intact := by
    obtain ⟨rfl, rfl⟩ | ⟨list, _, rfl, hNames, hIntact, -⟩ := fixSourceFile_spec hParse hFirst
    · exact ⟨c.attributes, rfl, fun a ha => ((fits_parse hParse).attributes.2 a ha).name,
        intact_parse hParse⟩
    · exact ⟨list, rfl, hNames, hIntact⟩
  have hLast : q.Intact := hIntact.interned (interns_fixLocalNames _ _ _ _ hSecond)
  rw [hSource] at hSecond
  cases second with
  | some d =>
    obtain ⟨methods, rfl, hMethods⟩ := methods_of_fixLocalNames hIntact.sound hSecond
    obtain rfl := Option.some.inj hEq
    exact ⟨list, methods, q, rfl, hNames, hMethods, hLast⟩
  | none =>
    cases first with
    | none => cases hEq
    | some d =>
      obtain rfl : d = { c with attributes := list } := hSource
      obtain rfl := Option.some.inj hEq
      exact ⟨list, c.methods, q, rfl, hNames, List.forall₂_same.2 fun m _ => .refl m, hLast⟩

/-- **A class behind both fixes is written and read again.** -/
theorem parse_of_fixNames (hParse : parse bytes = .ok c) (hFix : c.fix (fixNames c) = .ok (some o))
    (hWritten : o.toBytes = .ok written) : parse written = .ok o := by
  obtain ⟨-, n, hName⟩ := parse_eq_ok.1 hParse
  have hName' := name_of_fixNames (e := .ofArchive ⟨"", none, bytes⟩) hParse hName hFix
  obtain ⟨list, methods, q, rfl, hNames, hMethods, hIntact⟩ := labels_of_fixNames hParse hFix
  exact parse_of_labels hParse hNames hMethods hIntact hName' hWritten

end Transformer

end Jarsmith
