import Spreadsheet.Graph.Basic
import Spreadsheet.Decimal.Layout

/-! # What the engine shows
The **snapshot** is the state that subscribers see: the formulas, their texts and the **row grid**,
in which each row is its number followed by the texts of its cells. The **report** of an edit batch
lists the evaluated cells and what was wrong with the edited ones, and the **facts** of a cell are
everything known about one key. -/

namespace Spreadsheet

/-- How the row grid writes a stored value: like a formula literal, with words of its own for the
infinities. -/
def cellLayout : Decimal.Layout :=
  { Decimal.plain with infinite := "Infinity", negativeInfinite := "-Infinity" }

/-- The text of a stored value; zero has no sign. -/
def cellText (value : Float32) : String :=
  match Decimal.Value.ofDouble (widen value) with
  | .zero _ => "0"
  | shown => cellLayout.render shown

/-- The rows of a grid of cell texts, each with its number in front, counting from one. -/
def labelledRows (shown : Grid String) : List (List String) :=
  shown.rows.mapIdx fun r row => (r + 1).repr :: row

/-- The row grid of a sheet without formulas. -/
def blankRows (d : Dimensions) : List (List String) :=
  (List.range d.height).map fun r => (r + 1).repr :: List.replicate d.width ""

/-- A grid without texts has blank rows. -/
theorem labelledRows_replicate {g : Grid String}
    (h : g.cells = Array.replicate g.dimensions.area "") :
    labelledRows g = blankRows g.dimensions := by
  refine List.ext_getElem (by simp [labelledRows, blankRows, Grid.rows]) fun r hr _ => ?_
  have : r < g.dimensions.height := by simpa [labelledRows, Grid.rows] using hr
  simp [labelledRows, blankRows, Grid.rows, Grid.row_replicate h this]

/-- The state of a sheet as subscribers see it. -/
structure Snapshot where
  /-- The formula of each cell that has one. -/
  formulas : KeyMap Formula
  /-- The text of each formula as it was submitted. -/
  texts : KeyMap String
  /-- The row grid. -/
  rows : List (List String)

/-- Something about one cell that a batch brought up. -/
inductive Diagnostic where
  /-- The cell was evaluated but lies outside the grid. -/
  | outOfBounds (key : String)
  /-- The formula has an operand that is neither a cell key nor a number. -/
  | unknownOperand (key formula : String)
  /-- The key has two or more letters, so it shares its slot with another spelling. -/
  | columnAliased (key sharesWith : String)
  deriving Repr, DecidableEq

/-- The cell that a diagnostic is about. -/
def Diagnostic.key : Diagnostic → String
  | outOfBounds key | unknownOperand key _ | columnAliased key _ => key

/-- The outcome of an accepted edit batch. -/
structure Report where
  /-- The evaluated cells in order of evaluation, each with its value before narrowing. -/
  evaluated : List (String × Float)
  /-- What the batch brought up. -/
  diagnostics : List Diagnostic
  /-- The greatest depth of an evaluated cell. -/
  maxDepth : Nat

namespace Report

/-- The report of a batch that evaluated nothing. -/
def empty : Report := ⟨[], [], 0⟩

/-- The value that a cell was evaluated to. -/
def valueOf? (r : Report) (key : String) : Option Float :=
  (r.evaluated.find? (·.1 == key)).map (·.2)

end Report

/-- Everything known about one key. -/
structure CellFacts where
  /-- The key. -/
  key : String
  /-- The text of its formula. -/
  text : Option String
  /-- Its formula. -/
  formula : Option Formula
  /-- The stored value; `none` outside the grid. -/
  value : Option Float32
  /-- The keys its formula reads. -/
  dependencies : List String
  /-- The cells that read it. -/
  dependents : List String

end Spreadsheet
