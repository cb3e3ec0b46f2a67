import Jarsmith.Mappings.Format
import Jarsmith.Proofs.Mappings.Srg
import Jarsmith.Proofs.Mappings.Tiny

/-!
# The line formats agree

Six readers for six ways to write a table line by line. On a table that all of them can write, they
give the table back, those without descriptors of fields up to these descriptors.

* `MappingSet.Tabular.lineFormats_agree` — what the readers give.
-/

namespace Jarsmith.MappingSet.Tabular

open Mappings

variable {m : MappingSet} {a b : String}

theorem hasTargets (hTable : m.Tabular) {e : String × ClassMapping}
    (hClass : e ∈ m.classes.entries) : TinyFile.HasTargets e.2 where
  named := (hTable.rows _ (mem_rows_ofClass hClass)).1.2.1
  fields _ hField :=
    ⟨(hTable.rows _ (mem_rows_field hClass hField)).2.1.2.1.1,
      hTable.described _ (mem_rows_field hClass hField)⟩
  methods _ hMethod := (hTable.rows _ (mem_rows_method hClass hMethod)).2.1.2.1.1

/-- A file whose rows are those of the table is projected onto the table. -/
theorem parse_tiny (hTable : m.Tabular) (hOther : a ≠ b) {text : String}
    (hText : TinyFile.parse text = .ok (m.rows.foldl TinyFile.addRow ⟨[a, b], ∅⟩)) :
    (MappingFormat.tiny a b).parse text = .ok m := by
  rw [TinyFile.foldl_addRow] at hText
  have hFile : (MappingFormat.tiny a b).parse text = (TinyFile.ofTable a b m).toMappingSet a b := by
    rw [MappingFormat.parse, hText]
    rfl
  rw [hFile]
  exact TinyFile.toMappingSet_ofTable hOther (fun _ hClass => hTable.hasTargets hClass)
    hTable.namesOnly

/-- **The line formats agree** on what they can all express. SRG without descriptors, CSRG and TSRG
without a header give the table without the descriptors of its fields; SRG with descriptors, TSRG
with a header, and both versions of tiny give the table. -/
theorem lineFormats_agree (hTable : m.Tabular) (ha : IsColumn a) (hb : IsColumn b)
    (hOther : a ≠ b) :
    (Srg.parse (Srg.render m (m.rows.map Row.loosely)) = .ok m.loosely ∧
      Csrg.parse (Csrg.render m.rows) = .ok m.loosely ∧
      Tsrg.parse (Tsrg.render m.rows) = .ok m.loosely) ∧
    Srg.parse (Srg.render m m.rows) = .ok m ∧
    Tsrg.parse (Tsrg.renderTitled a b m.rows) = .ok m ∧
    (MappingFormat.tiny a b).parse (TinyFile.renderV1 a b m.rows) = .ok m ∧
    (MappingFormat.tiny a b).parse (TinyFile.renderV2 a b m.rows) = .ok m := by
  have hFull := foldl_rows hTable.namesOnly
  have hLoose := foldl_rows_loosely hTable.namesOnly
  have hLooseRows : ∀ r ∈ m.rows.map Row.loosely, r.IsTabular :=
    List.forall_mem_map.2 fun r hr => (hTable.rows r hr).loosely
  refine ⟨⟨?_, ?_, ?_⟩, ?_, ?_, ?_, ?_⟩
  · rw [Srg.parse_render hTable hLooseRows, hLoose]
  · rw [Csrg.parse_render hTable.rows, hLoose]
  · rw [Tsrg.parse_render hTable.rows m.nested_rows, hLoose]
  · rw [Srg.parse_render hTable hTable.rows, hFull]
  · rw [Tsrg.parse_renderTitled ha hb hTable.rows m.nested_rows, hFull]
  · exact hTable.parse_tiny hOther
      (TinyFile.parse_renderV1 ha hb hTable.rows hTable.described m.nested_rows)
  · exact hTable.parse_tiny hOther
      (TinyFile.parse_renderV2 ha hb hTable.rows hTable.described m.nested_rows)

/-- Two classes, one of them within the other one, and two fields of one name. -/
def nestedClasses : MappingSet :=
  ((((((∅ : MappingSet).addClass "a" "net/World").addClass "a$b" "net/World$Chunk").addField
    "a" "c" (some "La$b;") "chunk").addField "a" "c" (some "I") "count").addMethod
    "a" "<init>" "(La;[I)V" "<init>").addMethod "a$b" "d" "()La$c;" "spawn"

theorem lineFormats_agree_nestedClasses :
    nestedClasses.Tabular ∧ IsColumn "official" ∧ IsColumn "named" ∧
    (Srg.parse (Srg.render nestedClasses (nestedClasses.rows.map Row.loosely)) =
        .ok nestedClasses.loosely ∧
      Csrg.parse (Csrg.render nestedClasses.rows) = .ok nestedClasses.loosely ∧
      Tsrg.parse (Tsrg.render nestedClasses.rows) = .ok nestedClasses.loosely) ∧
    Srg.parse (Srg.render nestedClasses nestedClasses.rows) = .ok nestedClasses ∧
    Tsrg.parse (Tsrg.renderTitled "official" "named" nestedClasses.rows) = .ok nestedClasses ∧
    (MappingFormat.tiny "official" "named").parse
      (TinyFile.renderV1 "official" "named" nestedClasses.rows) = .ok nestedClasses ∧
    (MappingFormat.tiny "official" "named").parse
      (TinyFile.renderV2 "official" "named" nestedClasses.rows) = .ok nestedClasses := by
  have hTable : nestedClasses.Tabular := by decide +kernel
  have ha : IsColumn "official" := by decide
  have hb : IsColumn "named" := by decide
  exact ⟨hTable, ha, hb, lineFormats_agree hTable ha hb (by decide)⟩

end Jarsmith.MappingSet.Tabular
