import Spreadsheet.Engine.Report
import Spreadsheet.Formula.Encoding

/-! # What the engine shows, as JSON
Snapshots, the facts of a cell and diagnostics are objects with their fields in a fixed order; maps
are objects in key order. What is absent is `null`. -/

namespace Spreadsheet

/-- The JSON value of a snapshot. -/
def Snapshot.toJson (s : Snapshot) : Json :=
  .object [("parsedExpressions", .ofPairs Formula.toJson s.formulas.toList),
    ("rawExpressions", .ofPairs .string s.texts.toList),
    ("rowData", .array (s.rows.map .strings))]

/-- The JSON value of the facts of a cell. -/
def CellFacts.toJson (c : CellFacts) : Json :=
  .object [("key", .string c.key), ("raw", .ofOption .string c.text),
    ("parsed", .ofOption Formula.toJson c.formula), ("value", .ofOption .single c.value),
    ("dependencies", .strings c.dependencies), ("dependents", .strings c.dependents)]

/-- The JSON value of a diagnostic. -/
def Diagnostic.toJson : Diagnostic → Json
  | outOfBounds key => .object [("kind", .string "out_of_bounds"), ("key", .string key)]
  | unknownOperand key formula =>
    .object [("kind", .string "unknown_operand"), ("key", .string key),
      ("formula", .string formula)]
  | columnAliased key sharesWith =>
    .object [("kind", .string "column_aliased"), ("key", .string key),
      ("shares_with", .string sharesWith)]

end Spreadsheet
