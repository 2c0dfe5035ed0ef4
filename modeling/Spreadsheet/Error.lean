/-! # Errors
Why a request fails. Each constructor of `SheetError` is one **cause** with what is needed to
report it; `message` words it for people and `category` groups the causes for those who only
handle kinds of failure. -/

namespace Spreadsheet

/-- The cause of a failure. -/
inductive SheetError where
  /-- A file is missing, is no file or is not UTF-8 text. -/
  | unreadableFile
  /-- A text is not one well-formed YAML document. -/
  | malformedYaml
  /-- A text is not JSON, or not JSON of the wanted shape. -/
  | malformedJson
  /-- The document of a sheet file is not a mapping. -/
  | sheetNotMapping
  /-- A dimension of a sheet file is not a natural number. -/
  | dimensionNotNatural (name found : String)
  /-- The `cells` section of a sheet file is not a mapping. -/
  | cellsNotMapping (found : String)
  /-- A key of the `cells` section is not a string. -/
  | keyNotText (found : String)
  /-- A formula of the `cells` section is neither text nor a number. -/
  | formulaNotText (key found : String)
  /-- Cells read each other in a circle. -/
  | cycle (cells : List String)
  /-- A grid of these dimensions has no cell or too many to address. -/
  | badDimensions (width height : Nat)
  /-- An edit batch has no cell. -/
  | emptyBatch
  /-- Some of the files that were checked are not valid sheets. -/
  | invalidFiles (failed : List String) (total : Nat)
  /-- The engine no longer takes requests. -/
  | engineStopped
  deriving Repr, DecidableEq

/-- A group of causes that callers treat alike. -/
inductive SheetError.Category where
  | io | yaml | json | parse | cycle | dimensions | validation | unavailable
  deriving Repr, DecidableEq

namespace SheetError

/-- The group a cause belongs to. -/
def category : SheetError → Category
  | unreadableFile => .io
  | malformedYaml => .yaml
  | malformedJson => .json
  | sheetNotMapping | dimensionNotNatural .. | cellsNotMapping _ | keyNotText _
  | formulaNotText .. => .parse
  | cycle _ => .cycle
  | badDimensions .. => .dimensions
  | emptyBatch | invalidFiles .. => .validation
  | engineStopped => .unavailable

/-- What went wrong, without the group it belongs to. -/
def detail : SheetError → String
  | unreadableFile => "the file cannot be read as text"
  | malformedYaml => "the text is not one well-formed document"
  | malformedJson => "the text does not have the expected form"
  | sheetNotMapping => "Sheet file must be a mapping with a 'cells' section"
  | dimensionNotNatural name found => s!"'{name}' must be a positive integer, found {found}"
  | cellsNotMapping found =>
    s!"'cells' must be a mapping of cell key to formula, found {found}"
  | keyNotText found => s!"Cell keys must be strings like 'A1', found {found}"
  | formulaNotText key found => s!"Formula for '{key}' must be text or a number, found {found}"
  | cycle cells => ", ".intercalate cells
  | badDimensions width height => s!"{width}x{height}: width and height must be positive"
  | emptyBatch => "Edit batch must contain at least one cell"
  | invalidFiles failed total =>
    let names := ", ".intercalate failed
    s!"{failed.length} of {total} files failed validation: {names}"
  | engineStopped => "engine worker has stopped"

/-- The whole message of an error. -/
def message (e : SheetError) : String :=
  let lead := match e.category with
    | .io => "IO error: "
    | .yaml => "YAML parsing error: "
    | .json => "JSON error: "
    | .parse => "Parse error: "
    | .cycle => "Circular dependency detected: "
    | .dimensions => "Invalid table dimensions "
    | .validation => "Validation error: "
    | .unavailable => "Engine unavailable: "
  lead ++ e.detail

end SheetError

end Spreadsheet
