import Spreadsheet.Engine.Basic
import Spreadsheet.Yaml.Value

/-! # Sheet files
A **sheet file** is a YAML document, and so possibly a JSON text: a mapping with the optional fields
`width`, `height` and `cells`. Absent or null dimensions are the standard ones and absent or null
cells are none. The fields are judged in the order width, height, the two dimensions together, and
cells; other fields are ignored. What the document in a text is is left to the reader of YAML. -/

namespace Spreadsheet

/-- The content of a sheet file. -/
structure Sheet where
  /-- The dimensions of its grid. -/
  dimensions : Dimensions
  /-- The formula texts of its cells. -/
  cells : Batch
  deriving DecidableEq

namespace Sheet

/-- A dimension: the number of the field, or the standard one if there is none. -/
def dimension (name : String) (standard : Nat) : Option Yaml.Value → Except SheetError Nat
  | none | some .null => .ok standard
  | some (.number n) =>
    match n.natural? with
    | some size => .ok size
    | none => .error (.dimensionNotNatural name n.text)
  | some other => .error (.dimensionNotNatural name other.describe)

/-- The text of a formula: texts stand for themselves, and no value is the empty text. -/
def formulaText (key : String) : Yaml.Value → Except SheetError String
  | .string text => .ok text
  | .number n => .ok n.text
  | .null => .ok ""
  | other => .error (.formulaNotText key other.describe)

/-- One cell of a sheet file. -/
def entry : Yaml.Value × Yaml.Value → Except SheetError (String × String)
  | (.string key, formula) => (formulaText key formula).map fun text => (key, text)
  | (other, _) => .error (.keyNotText other.describe)

/-- The batch of the cells of a sheet file. -/
def batch : Option Yaml.Value → Except SheetError Batch
  | none | some .null => .ok ∅
  | some (.mapping fields) =>
    (fields.mapM entry).map fun pairs =>
      pairs.foldl (fun batch (key, text) => batch.insert key text) ∅
  | some other => .error (.cellsNotMapping other.describe)

/-- The sheet that a document describes. -/
def ofValue : Yaml.Value → Except SheetError Sheet
  | .mapping fields => do
    let width ← dimension "width" Dimensions.standard.width (Yaml.Value.field? fields "width")
    let height ← dimension "height" Dimensions.standard.height (Yaml.Value.field? fields "height")
    let dimensions ← Dimensions.ofNat width height
    let cells ← batch (Yaml.Value.field? fields "cells")
    return ⟨dimensions, cells⟩
  | _ => .error .sheetNotMapping

/-- The sheet that a text describes. -/
def parse [Yaml.Reader] (text : String) : Except SheetError Sheet :=
  match Yaml.Reader.read? text with
  | some value => ofValue value
  | none => .error .malformedYaml

end Sheet

end Spreadsheet
