import Spreadsheet.Proofs.Engine.Rejection
import Spreadsheet.Proofs.Engine.Settled
import Spreadsheet.Proofs.Sheet.Validity
import Spreadsheet.Proofs.Yaml.Fields
import Spreadsheet.Proofs.Yaml.Numbers

/-! # Numbers in sheet files
A cell of a sheet file whose content is a number has the text of the number for a formula. Applied
to a fresh engine, such a cell holds the number again if its text is an unsigned numeral. A number
whose text has a sign, such as `1e-7`, becomes NaN. -/

namespace Spreadsheet

/-! ## Cells of documents -/

namespace Sheet

variable {text key : String} {sheet : Sheet} {n : Yaml.Number} {pairs : List (String × String)}
  {entries : List (Yaml.Value × Yaml.Value)}

/-- The number that the document in a text has for a cell. -/
def number? [Yaml.Reader] (text key : String) : Option Yaml.Number := do
  let .mapping fields ← Yaml.Reader.read? text | none
  let .mapping entries ← Yaml.Value.field? fields "cells" | none
  let .number n ← Yaml.Value.field? entries key | none
  return n

theorem exists_field?_of_number? [Yaml.Reader] (h : number? text key = some n) :
    ∃ fields entries, Yaml.Reader.read? text = some (.mapping fields) ∧
      Yaml.Value.field? fields "cells" = some (.mapping entries) ∧
      Yaml.Value.field? entries key = some (.number n) := by
  obtain ⟨document, hdocument, h⟩ := Option.bind_eq_some_iff.1 h
  cases document with
  | mapping fields =>
    obtain ⟨cells, hcells, h⟩ := Option.bind_eq_some_iff.1 h
    cases cells with
    | mapping entries =>
      obtain ⟨content, hcontent, h⟩ := Option.bind_eq_some_iff.1 h
      cases content with
      | number m => exact ⟨fields, entries, hdocument, hcells, Option.some.inj h ▸ hcontent⟩
      | null | bool | string | sequence | mapping | tagged => exact nomatch h
    | null | bool | string | sequence | number | tagged => exact nomatch h
  | null | bool | string | sequence | number | tagged => exact nomatch h

/-- The keys of cells are texts. -/
theorem map_fst_of_forall₂ (h : List.Forall₂ CellOf entries pairs) :
    entries.map (·.1) = (pairs.map (·.1)).map .string := by
  induction h with
  | nil => rfl
  | cons hcell _ ih =>
    obtain ⟨-⟩ := hcell
    rw [List.map_cons, List.map_cons, List.map_cons, ih]

/-- A number among the contents of cells has its text for a formula. -/
theorem mem_of_forall₂ (h : List.Forall₂ CellOf entries pairs)
    (hmem : (.string key, .number n) ∈ entries) : (key, n.text) ∈ pairs := by
  induction h with
  | nil => exact absurd hmem List.not_mem_nil
  | cons hcell _ ih =>
    rcases List.mem_cons.1 hmem with rfl | hmem
    · obtain ⟨⟨⟩⟩ := hcell
      exact List.mem_cons_self
    · exact List.mem_cons_of_mem _ (ih hmem)

/-- **A number is taken as its text.** The formula of a cell whose content is a number is the text
of the number. -/
theorem getElem?_cells_of_number? [Yaml.Reader] (hkeys : Yaml.Reader.HasDistinctKeys)
    (h : parse text = .ok sheet) (hn : number? text key = some n) :
    sheet.cells[key]? = some n.text := by
  obtain ⟨fields, hdocument, -, -, hof⟩ := parse_eq_ok_iff.1 h
  obtain ⟨fields', entries, hdocument', hcells, hentry⟩ := exists_field?_of_number? hn
  obtain rfl := Yaml.Value.mapping.inj (Option.some.inj (hdocument.symm.trans hdocument'))
  have hdistinct : Yaml.Value.areDistinct entries :=
    (hkeys hdocument).2 _ _ (Yaml.Value.mem_of_field? hcells)
  rw [hcells] at hof
  generalize sheet.cells = cells at hof ⊢
  cases hof with
  | mapping hpairs =>
    exact KeyMap.getElem?_ofList
      (Yaml.Value.nodup_of_areDistinct (map_fst_of_forall₂ hpairs) hdistinct)
      (mem_of_forall₂ hpairs (Yaml.Value.mem_of_field? hentry))

/-! ## Cells of fresh engines -/

variable {fresh edited : Engine} {report : Report} {s : Schedule} {i : Nat}

/-- **What becomes of a number.** If a fresh engine accepts the cells of a sheet, a cell with a slot
of its own whose content is a finite number has the number again if that is readable, and else
NaN. -/
theorem value_of_number? [Yaml.Reader] (hkeys : Yaml.Reader.HasDistinctKeys)
    (hparse : parse text = .ok sheet) (hnew : Engine.new sheet.dimensions = .ok fresh)
    (h : fresh.Accepts sheet.cells s report edited) (hn : number? text key = some n)
    (hfinite : n.IsFinite) (hslot : sheet.dimensions.slot? key = some i)
    (hfree : ∀ other ∈ sheet.cells, sheet.dimensions.slot? other = some i → other = key) :
    let value := if n.IsReadable then n.value else nan
    report.valueOf? key = some value ∧ edited.values.cells[i]? = some (narrow value) := by
  have htexts : edited.texts = sheet.cells :=
    h.texts_eq.trans (Engine.union_texts_of_new hnew sheet.cells)
  rw [← (Engine.fields_of_new hnew).1] at hslot hfree
  exact (Engine.sound_new hnew).value_of_references_eq_nil h
    (getElem?_cells_of_number? hkeys hparse hn) (Yaml.Number.references_parse_text hfinite)
    (Yaml.Number.eval_parse_text hfinite) hslot (htexts ▸ hfree)

/-- **Numbers of sheet files keep their value unless their text has a sign**, whatever reader with
distinct keys reads the files. In a sheet that a text describes take any cell in the grid whose slot
no other cell of the sheet has and whose content is a finite number. If the formulas of the sheet
have a circle, a fresh engine of its dimensions refuses its cells. Else it accepts them. An integer
that is not negative, zero without a sign or a float from `1e-5` on is then reported as it is and
stored narrowed, and every other finite number, a positive float below `1e-5` too, is reported and
stored as NaN. -/
theorem numbers_kept_unless_signed [Yaml.Reader] (hkeys : Yaml.Reader.HasDistinctKeys)
    (hparse : parse text = .ok sheet) (hnew : Engine.new sheet.dimensions = .ok fresh)
    (hn : number? text key = some n) (hfinite : n.IsFinite)
    (hslot : sheet.dimensions.slot? key = some i)
    (hfree : ∀ other ∈ sheet.cells, sheet.dimensions.slot? other = some i → other = key) :
    ((∃ circle, sheet.cells.IsCircle circle) →
      ∃ cells, fresh.apply sheet.cells = .error (.cycle cells)) ∧
    ((∀ circle, ¬ sheet.cells.IsCircle circle) →
      ∃ report edited, fresh.apply sheet.cells = .ok (report, edited) ∧
        report.valueOf? key = some (if n.IsReadable then n.value else nan) ∧
        edited.values.cells[i]? = some (narrow (if n.IsReadable then n.value else nan))) := by
  have hsound : Engine.Sound fresh fresh := Engine.sound_new hnew
  have hunion : fresh.texts ∪ sheet.cells = sheet.cells :=
    Engine.union_texts_of_new hnew sheet.cells
  constructor
  · rintro ⟨circle, hcircle⟩
    exact ⟨_, hsound.apply_of_isCircle (hunion.symm ▸ hcircle)⟩
  · intro hnone
    have hmem : key ∈ sheet.cells :=
      KeyMap.mem_iff.2 ⟨n.text, getElem?_cells_of_number? hkeys hparse hn⟩
    obtain ⟨report, edited, happly⟩ := hsound.exists_apply (KeyMap.isEmpty_eq_false hmem)
      (hunion.symm ▸ Batch.acyclic_iff.2 hnone)
    obtain ⟨s, h⟩ := Engine.accepts_of_apply happly
    exact ⟨report, edited, happly, value_of_number? hkeys hparse hnew h hn hfinite hslot hfree⟩

/-- A sheet file with one half and its successor keeps the half. -/
theorem half_kept :
    let text := "width: 2\nheight: 1\ncells:\n  A1: 0.5\n  B1: A1 + 1\n"
    ∃ sheet fresh report edited, parse text = .ok sheet ∧
      Engine.new sheet.dimensions = .ok fresh ∧ number? text "A1" = some (.float 0.5) ∧
      fresh.apply sheet.cells = .ok (report, edited) ∧ report.valueOf? "A1" = some 0.5 ∧
      edited.values.cells[0]? = some (narrow 0.5) := by
  intro text
  let sheet : Sheet :=
    ⟨⟨2, 1, by decide, by decide⟩, .ofList [("A1", "0.5"), ("B1", "A1 + 1")]⟩
  have hparse : parse text = .ok sheet := by decide +kernel
  have hn : number? text "A1" = some (.float 0.5) := by decide +kernel
  obtain ⟨fresh, hnew⟩ := Engine.exists_new (d := sheet.dimensions) (by decide)
  let rank (key : String) : Nat := if key = "A1" then 0 else 1
  obtain ⟨-, haccepted⟩ := numbers_kept_unless_signed Yaml.Value.hasDistinctKeys hparse hnew hn
    (i := 0) (by decide +kernel) (by decide +kernel) (by decide +kernel)
  obtain ⟨report, edited, happly, hvalue, hcell⟩ :=
    haccepted (Batch.acyclic_iff.1 (Edges.acyclic_of_rank rank (by decide +kernel)))
  rw [if_pos (by decide +kernel)] at hvalue hcell
  exact ⟨sheet, fresh, report, edited, hparse, hnew, hn, happly, hvalue, hcell⟩

/-- A sheet file with one cell, whose content is the number `0.0000001`, has NaN there, since the
text of the number is `1e-7`. -/
theorem tiny_number_lost :
    let text := "width: 1\nheight: 1\ncells:\n  A1: 0.0000001\n"
    ∃ sheet fresh report edited, parse text = .ok sheet ∧
      Engine.new sheet.dimensions = .ok fresh ∧ number? text "A1" = some (.float 0.0000001) ∧
      (0.0000001 : Float).isFinite ∧ (0 : Float) ≤ 0.0000001 ∧
      sheet.dimensions.slot? "A1" = some 0 ∧ (∀ other ∈ sheet.cells, other = "A1") ∧
      fresh.apply sheet.cells = .ok (report, edited) ∧
      report.valueOf? "A1" = some nan ∧ nan ≠ 0.0000001 ∧
      edited.values.cells[0]? = some (narrow nan) ∧ narrow nan ≠ narrow 0.0000001 := by
  intro text
  let sheet : Sheet := ⟨⟨1, 1, by decide, by decide⟩, .ofList [("A1", "1e-7")]⟩
  have hparse : parse text = .ok sheet := by decide +kernel
  have hn : number? text "A1" = some (.float 0.0000001) := by decide +kernel
  have honly : ∀ other ∈ sheet.cells, other = "A1" := by decide +kernel
  obtain ⟨fresh, hnew⟩ := Engine.exists_new (d := sheet.dimensions) (by decide)
  obtain ⟨report, edited, happly⟩ :
      ∃ report edited, fresh.apply sheet.cells = .ok (report, edited) := by
    refine (Engine.sound_new hnew).exists_apply (by decide +kernel) ?_
    rw [Engine.union_texts_of_new hnew]
    exact Edges.acyclic_of_rank (fun _ => 0) (by decide +kernel)
  obtain ⟨s, h⟩ := Engine.accepts_of_apply happly
  have hslot : sheet.dimensions.slot? "A1" = some 0 := by decide +kernel
  obtain ⟨hvalue, hcell⟩ := value_of_number? Yaml.Value.hasDistinctKeys hparse hnew h hn
    (by decide +kernel) hslot fun other hother _ => honly other hother
  rw [if_neg (by decide +kernel)] at hvalue hcell
  exact ⟨sheet, fresh, report, edited, hparse, hnew, hn, by decide +kernel, by decide +kernel,
    hslot, honly, happly, hvalue, by decide +kernel, hcell, by decide +kernel⟩

end Sheet

end Spreadsheet
