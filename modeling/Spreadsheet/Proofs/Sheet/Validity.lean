import Spreadsheet.Sheet
import Spreadsheet.Proofs.Cell.Addressing
import Spreadsheet.Proofs.Engine.Circles
import Spreadsheet.Proofs.Engine.Run

/-! # Valid sheet files
What a document says about its sheet, as relations between the values of its fields and the
dimensions and formulas they stand for. A value outside these relations is refused, so parsing
succeeds exactly on the texts that **describe** a sheet, whatever the reader of YAML. A text is
**valid** if it describes a sheet whose cells can be addressed and whose formulas have no circle.
What a formula or a key says beyond that does not matter. -/

namespace Spreadsheet

namespace Sheet

variable {text : String} {sheet : Sheet} {name key formula : String} {standard size : Nat}
  {field : Option Yaml.Value} {content : Yaml.Value} {cells : Batch}
  {entries : List (Yaml.Value × Yaml.Value)} {pairs : List (String × String)}

/-! ## Dimensions -/

/-- A field gives a dimension: the standard one if it is absent or null, or the natural number that
it holds. -/
inductive SizeOf (standard : Nat) : Option Yaml.Value → Nat → Prop
  | absent : SizeOf standard none standard
  | null : SizeOf standard (some .null) standard
  | natural (size : Nat) : SizeOf standard (some (.number (.integer size))) size

/-- **What a dimension may be.** A field is accepted for a dimension exactly if it gives one. -/
theorem dimension_eq_ok_iff :
    dimension name standard field = .ok size ↔ SizeOf standard field size := by
  constructor
  · intro h
    unfold dimension at h
    split at h
    · obtain rfl := Except.ok.inj h
      exact .absent
    · obtain rfl := Except.ok.inj h
      exact .null
    · rename_i n
      cases n with
      | integer n =>
        by_cases hn : 0 ≤ n
        · obtain ⟨m, rfl⟩ := Int.eq_ofNat_of_zero_le hn
          simp only [Yaml.Number.natural?, if_pos hn] at h
          obtain rfl := Except.ok.inj h
          exact .natural m
        · simp only [Yaml.Number.natural?, if_neg hn] at h
          exact nomatch h
      | float => exact nomatch h
    · exact nomatch h
  · rintro (_ | _ | size)
    · rfl
    · rfl
    · simp [dimension, Yaml.Number.natural?]

/-! ## Cells -/

/-- A chain of two steps succeeds only if both do. -/
theorem exists_of_bind_eq_ok {α β : Type} {x : Except SheetError α} {f : α → Except SheetError β}
    {b : β} (h : x >>= f = .ok b) : ∃ a, x = .ok a ∧ f a = .ok b := by
  cases x with
  | error cause => exact nomatch h
  | ok a => exact ⟨a, rfl, h⟩

theorem exists_of_map_eq_ok {α β : Type} {x : Except SheetError α} {f : α → β} {b : β}
    (h : x.map f = .ok b) : ∃ a, x = .ok a ∧ f a = b := by
  cases x with
  | error cause => exact nomatch h
  | ok a => exact ⟨a, rfl, Except.ok.inj h⟩

/-- The content of a cell stands for the text of a formula: a text for itself, a number for its
text and null for the empty text. -/
inductive FormulaOf : Yaml.Value → String → Prop
  | string (text : String) : FormulaOf (.string text) text
  | number (n : Yaml.Number) : FormulaOf (.number n) n.text
  | null : FormulaOf .null ""

/-- A field of the cells gives a cell with the text of its formula. -/
inductive CellOf : Yaml.Value × Yaml.Value → String × String → Prop
  | mk {key formula : String} {content : Yaml.Value} (h : FormulaOf content formula) :
      CellOf (.string key, content) (key, formula)

/-- The cells of a document: none if they are absent or null, or those of a mapping. -/
inductive CellsOf : Option Yaml.Value → Batch → Prop
  | absent : CellsOf none ∅
  | null : CellsOf (some .null) ∅
  | mapping {entries : List (Yaml.Value × Yaml.Value)} {pairs : List (String × String)}
      (h : List.Forall₂ CellOf entries pairs) : CellsOf (some (.mapping entries)) (.ofList pairs)

theorem formulaText_eq_ok_iff :
    formulaText key content = .ok formula ↔ FormulaOf content formula := by
  constructor
  · intro h
    cases content with
    | string | number | null =>
      obtain rfl := Except.ok.inj h
      constructor
    | bool | sequence | mapping | tagged => exact nomatch h
  · rintro (_ | _ | _) <;> rfl

theorem entry_eq_ok_iff {field : Yaml.Value × Yaml.Value} {pair : String × String} :
    entry field = .ok pair ↔ CellOf field pair := by
  constructor
  · intro h
    obtain ⟨name, content⟩ := field
    cases name with
    | string key =>
      obtain ⟨formula, hformula, h⟩ := exists_of_map_eq_ok h
      obtain rfl := h
      exact .mk (formulaText_eq_ok_iff.1 hformula)
    | null | bool | number | sequence | mapping | tagged => exact nomatch h
  · rintro ⟨h⟩
    rw [entry, formulaText_eq_ok_iff.2 h]
    rfl

/-- A traversal succeeds exactly if its steps do, one by one. -/
theorem mapM_entry_eq_ok_iff :
    entries.mapM entry = .ok pairs ↔ List.Forall₂ CellOf entries pairs := by
  constructor
  · intro h
    induction entries generalizing pairs with
    | nil =>
      obtain rfl := Except.ok.inj h
      exact .nil
    | cons field entries ih =>
      rw [List.mapM_cons] at h
      obtain ⟨pair, hpair, h⟩ := exists_of_bind_eq_ok h
      obtain ⟨rest, hrest, h⟩ := exists_of_bind_eq_ok h
      obtain rfl := Except.ok.inj h
      exact .cons (entry_eq_ok_iff.1 hpair) (ih hrest)
  · intro h
    induction h with
    | nil => rfl
    | cons hpair _ ih =>
      rw [List.mapM_cons, entry_eq_ok_iff.2 hpair, ih]
      rfl

/-- **What the cells may be.** A field is accepted for the cells exactly if it gives them. -/
theorem batch_eq_ok_iff : batch field = .ok cells ↔ CellsOf field cells := by
  constructor
  · intro h
    unfold batch at h
    split at h
    · obtain rfl := Except.ok.inj h
      exact .absent
    · obtain rfl := Except.ok.inj h
      exact .null
    · obtain ⟨pairs, hpairs, rfl⟩ := exists_of_map_eq_ok h
      rw [← Std.ExtTreeMap.ofList_eq_foldl]
      exact .mapping (mapM_entry_eq_ok_iff.1 hpairs)
    · exact nomatch h
  · rintro (_ | _ | h)
    · rfl
    · rfl
    · rw [batch, mapM_entry_eq_ok_iff.2 h, Std.ExtTreeMap.ofList_eq_foldl]
      rfl

/-! ## Documents -/

variable [Yaml.Reader]

/-- **What a sheet file may be.** Parsing succeeds exactly on the mappings whose fields give two
dimensions, neither of them zero, and the cells. -/
theorem parse_eq_ok_iff : parse text = .ok sheet ↔
    ∃ fields, Yaml.Reader.read? text = some (.mapping fields) ∧
      SizeOf 12 (Yaml.Value.field? fields "width") sheet.dimensions.width ∧
      SizeOf 20 (Yaml.Value.field? fields "height") sheet.dimensions.height ∧
      CellsOf (Yaml.Value.field? fields "cells") sheet.cells := by
  constructor
  · intro h
    unfold parse at h
    split at h
    · rename_i document hdocument
      cases document with
      | mapping fields =>
        obtain ⟨width, hwidth, h⟩ := exists_of_bind_eq_ok h
        obtain ⟨height, hheight, h⟩ := exists_of_bind_eq_ok h
        obtain ⟨dimensions, hdimensions, h⟩ := exists_of_bind_eq_ok h
        obtain ⟨cells, hcells, h⟩ := exists_of_bind_eq_ok h
        obtain rfl := Except.ok.inj h
        obtain ⟨rfl, rfl⟩ := Dimensions.ofNat_eq_ok_iff.1 hdimensions
        exact ⟨fields, hdocument, dimension_eq_ok_iff.1 hwidth, dimension_eq_ok_iff.1 hheight,
          batch_eq_ok_iff.1 hcells⟩
      | null | bool | number | string | sequence | tagged => exact nomatch h
    · exact nomatch h
  · rintro ⟨fields, hdocument, hwidth, hheight, hcells⟩
    simp only [parse, hdocument, ofValue, Dimensions.standard, dimension_eq_ok_iff.2 hwidth,
      dimension_eq_ok_iff.2 hheight, batch_eq_ok_iff.2 hcells]
    change (Dimensions.ofNat sheet.dimensions.width sheet.dimensions.height >>= _) = _
    rw [Dimensions.ofNat_eq_ok_iff.2 ⟨rfl, rfl⟩]
    rfl

/-- A text is a **valid** sheet file: its document is a mapping, `width` and `height` give two
positive numbers with a product below `2 ^ 64`, `cells` gives formulas, and these have no circle. -/
def IsValid (text : String) : Prop :=
  ∃ fields width height cells,
    Yaml.Reader.read? text = some (.mapping fields) ∧
    SizeOf 12 (Yaml.Value.field? fields "width") width ∧
    SizeOf 20 (Yaml.Value.field? fields "height") height ∧
    0 < width ∧ 0 < height ∧ width * height < Nat.pow 2 64 ∧
    CellsOf (Yaml.Value.field? fields "cells") cells ∧
    ∀ circle, ¬ cells.IsCircle circle

/-- A valid text describes a sheet that can be addressed and has no circle. -/
theorem isValid_iff : IsValid text ↔ ∃ sheet, parse text = .ok sheet ∧
    sheet.dimensions.area < Key.wordBound ∧ ∀ circle, ¬ sheet.cells.IsCircle circle := by
  constructor
  · rintro ⟨fields, width, height, cells, hdocument, hwidth, hheight, hwpos, hhpos, harea, hcells,
      hnone⟩
    exact ⟨⟨⟨width, height, hwpos, hhpos⟩, cells⟩,
      parse_eq_ok_iff.2 ⟨fields, hdocument, hwidth, hheight, hcells⟩, harea, hnone⟩
  · rintro ⟨⟨d, cells⟩, hparse, harea, hnone⟩
    obtain ⟨fields, hdocument, hwidth, hheight, hcells⟩ := parse_eq_ok_iff.1 hparse
    exact ⟨fields, d.width, d.height, cells, hdocument, hwidth, hheight, d.width_pos, d.height_pos,
      harea, hcells, hnone⟩

end Sheet

end Spreadsheet
