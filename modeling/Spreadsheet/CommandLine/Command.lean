import Spreadsheet.CommandLine.Invocation
import Spreadsheet.CommandLine.Layout
import Spreadsheet.CommandLine.Outcome
import Spreadsheet.Engine.Encoding
import Spreadsheet.Release
import Spreadsheet.Sheet

/-! # Commands
What each invocation does. Every command loads a sheet file into a new engine, all cells as one
batch, and prints what it finds. Files are given by a function from names to their texts, or to the
reason why there is no text, and are understood as the reader of YAML reads them. -/

namespace Spreadsheet.CommandLine

/-- The texts of files. -/
abbrev Files := String → Except SheetError String

/-- A sheet file in an engine. -/
structure Loaded where
  /-- The sheet. -/
  sheet : Sheet
  /-- The engine with all cells of the sheet. -/
  engine : Engine
  /-- The report of the batch of all cells. -/
  report : Report

/-- Puts a sheet into a new engine. A sheet without cells needs no batch. -/
def Loaded.ofSheet (sheet : Sheet) : Except SheetError Loaded := do
  let engine ← Engine.new sheet.dimensions
  if sheet.cells.isEmpty then return ⟨sheet, engine, .empty⟩
  else
    let (report, engine) ← engine.apply sheet.cells
    return ⟨sheet, engine, report⟩

/-- Loads a sheet file. -/
def load [Yaml.Reader] (files : Files) (name : String) : Except SheetError Loaded := do
  let text ← files name
  let sheet ← Sheet.parse text
  Loaded.ofSheet sheet

/-- The line for a diagnostic. -/
def diagnosticLine : Diagnostic → String
  | .outOfBounds key => s!"   ⚠️ {key} is outside the table; value not stored"
  | .unknownOperand key formula => s!"   ⚠️ {key} has an unrecognised operand: {formula}"
  | .columnAliased key other => s!"   ⚠️ {key} is stored in the same slot as {other}"

/-! ## Calculating -/

/-- The evaluated cells of a sheet with their values, in order of evaluation. -/
def evaluationLines (l : Loaded) : List String :=
  let line := fun (key, value) =>
    let formula := (l.sheet.cells[key]?).getD ""
    s!"   {key} = {numberText value} {formula}"
  ["🧮 Evaluation order:"] ++ l.report.evaluated.map line ++ [s!"   Depth: {l.report.maxDepth}", ""]

/-- The grid of shown texts under the letters of its columns. -/
def gridLines (l : Loaded) : List String :=
  let header := gridLine "" ((List.range l.sheet.dimensions.width).map columnLabel)
  let row := fun (texts : List String) => match texts with
    | [] => gridLine "" []
    | label :: entries => gridLine label entries
  ["✅ Calculation Results:", header] ++ l.engine.snapshot.rows.map row

/-- What is printed for a sheet that was calculated. -/
def calculationLines (name : String) (verbose json : Bool) (l : Loaded) : List String :=
  if json then [l.engine.snapshot.toJson.prettyText]
  else
    let d := l.sheet.dimensions
    let diagnostics := l.report.diagnostics.map diagnosticLine
    [s!"🔥 {Release.program} - Calculating cells", s!"   File: {name}",
      s!"   Table: {d.width}x{d.height}, {l.sheet.cells.size} cells", ""] ++
    (if verbose then evaluationLines l else []) ++
    gridLines l ++
    (if diagnostics.isEmpty then [] else ["", "⚠️  Diagnostics:"] ++ diagnostics)

/-- Evaluates every cell of a sheet file. -/
def calculate [Yaml.Reader] (files : Files) (name : String) (verbose json : Bool) : Outcome :=
  match load files name with
  | .ok l => .ok (calculationLines name verbose json l)
  | .error cause => ⟨[], .error cause⟩

/-! ## Validating -/

/-- What is printed about one sheet file. -/
def validationLines (name : String) (outcome : Except SheetError Loaded) : List String :=
  let findings := match outcome with
    | .ok l =>
      if l.report.diagnostics.isEmpty then ["   All formulas are well-formed and acyclic"]
      else l.report.diagnostics.map diagnosticLine
    | .error cause => [s!"   ❌ {cause.message}"]
  ["✅ Validating sheet", s!"   File: {name}"] ++ findings ++ [""]

/-- Checks sheet files, each on its own. It fails if one of them cannot be loaded. -/
def validate [Yaml.Reader] (files : Files) (names : List String) : Outcome :=
  let failed := names.filter fun name => !(load files name).isOk
  { lines := names.flatMap fun name => validationLines name (load files name)
    result := if failed.isEmpty then .ok () else .error (.invalidFiles failed names.length) }

/-! ## Auditing -/

/-- What is printed about a cell that the audited one rests on. -/
def precedentLine (l : Loaded) (key : String) : String :=
  let facts := l.engine.cell key
  let value := match facts.value with
    | some x => numberText (widen x)
    | none => "-"
  let formula := match facts.formula with
    | some f => f.text
    | none => ""
  s!"   └─ {key} = {value} {formula}"

/-- What is printed about a cell. -/
def auditLines (l : Loaded) (key : String) : List String :=
  let facts := l.engine.cell key
  let formula := match facts.text with
    | some text => text
    | none => "(empty)"
  let parsed := match facts.formula with
    | some f => [s!"   Parsed:  {f.text}"]
    | none => []
  let value := match facts.value with
    | some x => numberText (widen x)
    | none => "outside the table"
  let precedents := match l.engine.graph.precedents key with
    | [] => ["   No dependencies (literal value)"]
    | keys => keys.map (precedentLine l)
  let readers := match facts.dependents with
    | [] => ["   No dependents"]
    | keys => keys.map fun reader => s!"   └─ {reader}"
  ["📋 Cell Information:", s!"   Formula: {formula}"] ++ parsed ++ [s!"   Value:   {value}", "",
    "🌳 Depends on:"] ++ precedents ++ ["", "📣 Read by:"] ++ readers ++ ["", "✅ Audit complete"]

/-- Explains one cell of a sheet file. -/
def audit [Yaml.Reader] (files : Files) (name key : String) : Outcome :=
  let outcome : Outcome := match load files name with
    | .ok l => .ok (auditLines l key)
    | .error cause => ⟨[], .error cause⟩
  outcome.after
    [s!"🔍 {Release.program} - Audit Trail", s!"   File: {name}", s!"   Cell: {key}", ""]

/-- Does what an invocation asks for. -/
def Invocation.run [Yaml.Reader] (files : Files) : Invocation → Outcome
  | .version => .ok [s!"{Release.command} {Release.version}"]
  | .calculate file verbose json => CommandLine.calculate files file verbose json
  | .validate names => CommandLine.validate files names
  | .audit file cell => CommandLine.audit files file cell

end Spreadsheet.CommandLine
