import Spreadsheet.CommandLine.Command
import Spreadsheet.Proofs.Engine.Diagnostics
import Spreadsheet.Proofs.Engine.Rejection
import Spreadsheet.Proofs.Sheet.Validity

/-! # Validating files
A file can be loaded exactly if it can be read and its text is a valid sheet file. Nothing else
about its cells counts: unknown operands, keys outside the grid and keys that share a slot are
**noticed** in the report and no more. Files are validated one by one, so what is printed about one
of them and whether it fails does not depend on the others. -/

namespace Spreadsheet

namespace CommandLine

variable {files : Files} {name text : String} {sheet : Sheet} {l : Loaded} {fresh : Engine}

/-! ## Loading -/

/-- Diagnostics **notice** what is odd about the cells of a sheet. -/
structure Notices (sheet : Sheet) (diagnostics : List Diagnostic) : Prop where
  /-- A formula has an operand that is neither a cell key nor a number. -/
  unknown : ∀ key text, sheet.cells[key]? = some text →
    (∃ operand, .unknown operand ∈ (Formula.parse text).leaves) →
    .unknownOperand key text ∈ diagnostics
  /-- A key lies outside the grid. -/
  outside : ∀ key ∈ sheet.cells, sheet.dimensions.slot? key = none → .outOfBounds key ∈ diagnostics
  /-- A key of two or more letters shares its slot with a key of one letter. -/
  shared : ∀ key ∈ sheet.cells, (sheet.dimensions.slot? key).isSome → Key.HasMoreLetters key →
    ∃ other, .columnAliased key other ∈ diagnostics

/-- What an engine reports about the first batch notices everything. -/
theorem notices_of_apply {report : Report} {edited : Engine}
    (hnew : Engine.new sheet.dimensions = .ok fresh)
    (happly : fresh.apply sheet.cells = .ok (report, edited)) :
    Notices sheet report.diagnostics := by
  obtain ⟨s, h⟩ := Engine.accepts_of_apply happly
  have hdim : fresh.dimensions = sheet.dimensions := (Engine.fields_of_new hnew).1
  -- what is noted about one cell is in the report of the batch
  have hnotes : ∀ key text, sheet.cells[key]? = some text → ∀ note,
      note ∈ fresh.keyDiagnostics key text → note ∈ report.diagnostics := by
    intro key text htext note hnote
    rw [(Engine.sound_new hnew).diagnostics_eq h]
    exact List.mem_append_left _ (List.mem_flatMap.2
      ⟨(key, text), Std.ExtTreeMap.mem_toList_iff_getElem?_eq_some.2 htext, hnote⟩)
  refine ⟨fun key text htext hunknown => ?_, fun key hkey hslot => ?_,
    fun key hkey hslot hletters => ?_⟩
  · obtain ⟨unknown, shared, heq, hreasons⟩ := fresh.notes_keyDiagnostics key text
    refine hnotes key text htext _ ?_
    rw [heq, hreasons.unknown_eq hunknown]
    exact List.mem_append_left _ List.mem_cons_self
  · have horder : key ∈ s.order :=
      (Graph.mem_order h.schedule_eq).2 ⟨key, Std.ExtTreeMap.mem_keys.2 hkey, .refl⟩
    rw [(Engine.sound_new hnew).diagnostics_eq h, h.map_fst_evaluated, hdim]
    refine List.mem_append_right _ (List.mem_map_of_mem (List.mem_filter.2 ⟨horder, ?_⟩))
    rw [hslot]
    rfl
  · obtain ⟨text, htext⟩ := KeyMap.mem_iff.1 hkey
    obtain ⟨unknown, shared, heq, hreasons⟩ := fresh.notes_keyDiagnostics key text
    obtain ⟨other, hother, -⟩ := hreasons.shared_eq (hdim ▸ hslot) hletters
    refine ⟨other, hnotes key text htext _ ?_⟩
    rw [heq, hother]
    exact List.mem_append_right _ List.mem_cons_self

/-- A sheet without cells is put into an engine as it is, and another one as the first batch. -/
theorem ofSheet_eq (hnew : Engine.new sheet.dimensions = .ok fresh) :
    Loaded.ofSheet sheet =
      if sheet.cells.isEmpty then .ok ⟨sheet, fresh, .empty⟩
      else (fresh.apply sheet.cells).map fun (report, edited) => ⟨sheet, edited, report⟩ := by
  rw [Loaded.ofSheet, hnew]
  change (if _ then _ else _) = _
  split
  · rfl
  · cases fresh.apply sheet.cells <;> rfl

/-- A sheet that can be addressed and has no circle is put into an engine. -/
theorem exists_ofSheet (harea : sheet.dimensions.area < Key.wordBound)
    (hnone : ∀ circle, ¬ sheet.cells.IsCircle circle) :
    ∃ l, Loaded.ofSheet sheet = .ok l ∧ l.sheet = sheet ∧ Notices sheet l.report.diagnostics := by
  obtain ⟨fresh, hnew⟩ := Engine.exists_new harea
  rw [ofSheet_eq hnew]
  cases hempty : sheet.cells.isEmpty with
  | true =>
    -- without cells there is nothing to notice
    have hmem : ∀ key, key ∉ sheet.cells := fun key hkey =>
      nomatch hempty.symm.trans (KeyMap.isEmpty_eq_false hkey)
    refine ⟨_, if_pos rfl, rfl, fun key text htext => ?_, fun key hkey => absurd hkey (hmem key),
      fun key hkey => absurd hkey (hmem key)⟩
    exact absurd (KeyMap.mem_iff.2 ⟨text, htext⟩) (hmem key)
  | false =>
    obtain ⟨report, edited, happly⟩ := (Engine.sound_new hnew).exists_apply hempty
      ((Engine.union_texts_of_new hnew sheet.cells).symm ▸ Batch.acyclic_iff.2 hnone)
    rw [if_neg Bool.false_ne_true, happly]
    exact ⟨_, rfl, rfl, notices_of_apply hnew happly⟩

/-- A sheet that is put into an engine can be addressed and has no circle. -/
theorem of_ofSheet_eq_ok (h : Loaded.ofSheet sheet = .ok l) :
    sheet.dimensions.area < Key.wordBound ∧ ∀ circle, ¬ sheet.cells.IsCircle circle := by
  obtain ⟨fresh, hnew, -⟩ := Sheet.exists_of_bind_eq_ok h
  have hsound := Engine.sound_new hnew
  refine ⟨(Engine.fields_of_new hnew).1 ▸ fresh.values.area_lt, fun circle hcircle => ?_⟩
  rw [← Engine.union_texts_of_new hnew sheet.cells] at hcircle
  obtain ⟨key, -, hkey⟩ := hsound.exists_mem_batch hcircle
  rw [ofSheet_eq hnew, KeyMap.isEmpty_eq_false hkey, if_neg Bool.false_ne_true,
    hsound.apply_of_isCircle hcircle] at h
  exact nomatch h

/-- A file is **valid** if it can be read and its text is a valid sheet file. -/
def IsValidFile [Yaml.Reader] (files : Files) (name : String) : Prop :=
  ∃ text, files name = .ok text ∧ Sheet.IsValid text

/-- A valid file is loaded, and what is odd about its cells is noticed. -/
theorem IsValidFile.exists_load [Yaml.Reader] (h : IsValidFile files name) :
    ∃ l, load files name = .ok l ∧ Notices l.sheet l.report.diagnostics := by
  obtain ⟨text, htext, hvalid⟩ := h
  obtain ⟨sheet, hparse, harea, hnone⟩ := Sheet.isValid_iff.1 hvalid
  obtain ⟨l, hl, rfl, hnotices⟩ := exists_ofSheet harea hnone
  refine ⟨l, ?_, hnotices⟩
  rw [load, htext]
  change (Sheet.parse text >>= _) = _
  rw [hparse]
  exact hl

/-- Only valid files are loaded. -/
theorem isValidFile_of_load [Yaml.Reader] (h : load files name = .ok l) :
    IsValidFile files name := by
  obtain ⟨text, htext, h⟩ := Sheet.exists_of_bind_eq_ok h
  obtain ⟨sheet, hparse, h⟩ := Sheet.exists_of_bind_eq_ok h
  exact ⟨text, htext, Sheet.isValid_iff.2 ⟨sheet, hparse, of_ofSheet_eq_ok h⟩⟩

/-- **Loading is exact.** -/
theorem isOk_load_iff [Yaml.Reader] : (load files name).isOk ↔ IsValidFile files name := by
  constructor
  · intro h
    cases hload : load files name with
    | error cause => exact nomatch hload ▸ h
    | ok l => exact isValidFile_of_load hload
  · intro h
    obtain ⟨l, hload, -⟩ := h.exists_load
    rw [hload]
    rfl

instance [Yaml.Reader] : Decidable (IsValidFile files name) := decidable_of_iff _ isOk_load_iff

/-- A file that is not valid is refused for some cause. -/
theorem exists_load_eq_error [Yaml.Reader] (h : ¬ IsValidFile files name) :
    ∃ cause, load files name = .error cause := by
  cases hload : load files name with
  | error cause => exact ⟨cause, rfl⟩
  | ok l => exact absurd (isValidFile_of_load hload) h

/-! ## Validating -/

/-- What validating finds in a file, between the name of the file and a blank line. -/
def findings : Except SheetError Loaded → List String
  | .ok l =>
    if l.report.diagnostics = [] then ["   All formulas are well-formed and acyclic"]
    else l.report.diagnostics.map diagnosticLine
  | .error cause => [s!"   ❌ {cause.message}"]

theorem validationLines_eq (name : String) (outcome : Except SheetError Loaded) :
    validationLines name outcome =
      ["✅ Validating sheet", s!"   File: {name}"] ++ findings outcome ++ [""] := by
  cases outcome with
  | error cause => rfl
  | ok l => simp only [validationLines, findings, List.isEmpty_iff]

/-- The files that fail are those that are not valid. -/
theorem filter_isOk_load [Yaml.Reader] (files : Files) (names : List String) :
    (names.filter fun name => !(load files name).isOk) =
      names.filter fun name => ¬ IsValidFile files name := by
  refine List.filter_congr fun name _ => ?_
  rw [Bool.eq_iff_iff, decide_eq_true_iff, ← isOk_load_iff, Bool.not_eq_true', Bool.not_eq_true]

/-- **Every file is judged on its own and exactly**, whatever reader of YAML reads the files. They
are reported on in the given order: a file that is not valid with the cause, and a valid one with
its diagnostics, which notice what is odd about its cells, or with the line that there are none.
Validating succeeds if all files are valid. Otherwise the error gives the number of files that are
not, the number of all, and the names of the former in order. -/
theorem validate_judges_each_file [Yaml.Reader] (files : Files) (names : List String) :
    let outcome := validate files names
    let failed := names.filter fun name => ¬ IsValidFile files name
    let list := ", ".intercalate failed
    outcome.lines = names.flatMap (fun name =>
      ["✅ Validating sheet", s!"   File: {name}"] ++ findings (load files name) ++ [""]) ∧
    (∀ name, IsValidFile files name →
      ∃ l, load files name = .ok l ∧ Notices l.sheet l.report.diagnostics) ∧
    (∀ name, ¬ IsValidFile files name → ∃ cause, load files name = .error cause) ∧
    (outcome.result = .ok () ↔ ∀ name ∈ names, IsValidFile files name) ∧
    ((∃ name ∈ names, ¬ IsValidFile files name) →
      ∃ cause, outcome.result = .error cause ∧ cause = .invalidFiles failed names.length ∧
        cause.category = .validation ∧
        cause.message = "Validation error: " ++
          s!"{failed.length} of {names.length} files failed validation: {list}") := by
  intro outcome failed list
  have hresult : outcome.result =
      if failed.isEmpty then .ok () else .error (.invalidFiles failed names.length) := by
    change (if (names.filter _).isEmpty then _ else _) = _
    rw [filter_isOk_load]
  have hempty : failed.isEmpty ↔ ∀ name ∈ names, IsValidFile files name := by
    simp [failed, List.filter_eq_nil_iff]
  refine ⟨?_, fun name h => h.exists_load, fun name => exists_load_eq_error, ?_, ?_⟩
  · exact List.flatMap_congr fun name _ => validationLines_eq name (load files name)
  · rw [hresult, ← hempty, ite_eq_left_iff]
    simp
  · rintro ⟨name, hname, hinvalid⟩
    rw [hresult, if_neg fun hall => hinvalid (hempty.1 hall name hname)]
    exact ⟨_, rfl, rfl, rfl, rfl⟩

/-- Of three files one has a circle and one has no column. The third one has an unknown operand, two
keys of one slot and a key outside the grid, and is valid. -/
theorem two_of_three_files_fail :
    let files : Files := fun name =>
      if name = "circle" then .ok "cells:\n  A1: B1\n  B1: A1 + 1\n"
      else if name = "odd" then .ok "width: 2\ncells:\n  A1: 1\n  AA1: oops\n  C1: A1 + 1\n"
      else .ok "width: 0\n"
    IsValidFile files "odd" ∧ ¬ IsValidFile files "circle" ∧ ¬ IsValidFile files "empty" ∧
      (validate files ["circle", "odd", "empty"]).result =
        .error (.invalidFiles ["circle", "empty"] 3) := by
  intro files
  have hodd : IsValidFile files "odd" := by
    let cells : Batch := .ofList [("A1", "1"), ("AA1", "oops"), ("C1", "A1 + 1")]
    let rank (key : String) : Nat := if key = "C1" then 1 else 0
    refine ⟨_, rfl, Sheet.isValid_iff.2 ⟨⟨⟨2, 20, by decide, by decide⟩, cells⟩, by decide +kernel,
      by decide, Batch.acyclic_iff.1 (Edges.acyclic_of_rank rank (by decide +kernel))⟩⟩
  have hcircle : ¬ IsValidFile files "circle" := by
    let cells : Batch := .ofList [("A1", "B1"), ("B1", "A1 + 1")]
    have hparse : Sheet.parse "cells:\n  A1: B1\n  B1: A1 + 1\n" = .ok ⟨.standard, cells⟩ := by
      decide +kernel
    rintro ⟨text, htext, hvalid⟩
    obtain rfl := Except.ok.inj htext
    obtain ⟨sheet, hsheet, -, hnone⟩ := Sheet.isValid_iff.1 hvalid
    obtain rfl := Except.ok.inj (hparse.symm.trans hsheet)
    have hnames : cells.Names "A1" "B1" := ⟨"B1", by decide +kernel, by decide +kernel⟩
    have hback : cells.Names "B1" "A1" := ⟨"A1 + 1", by decide +kernel, by decide +kernel⟩
    exact hnone _ (Batch.isCircle_pair hnames hback)
  have hempty : ¬ IsValidFile files "empty" := by
    have hparse : Sheet.parse "width: 0\n" = .error (.badDimensions 0 20) := by decide +kernel
    rintro ⟨text, htext, hvalid⟩
    obtain rfl := Except.ok.inj htext
    obtain ⟨sheet, hsheet, -⟩ := Sheet.isValid_iff.1 hvalid
    exact nomatch hparse.symm.trans hsheet
  obtain ⟨-, -, -, -, hfail⟩ := validate_judges_each_file files ["circle", "odd", "empty"]
  obtain ⟨cause, hcause, rfl, -⟩ := hfail ⟨"circle", by simp, hcircle⟩
  refine ⟨hodd, hcircle, hempty, ?_⟩
  rw [hcause]
  simp [hodd, hcircle, hempty]

end CommandLine

end Spreadsheet
