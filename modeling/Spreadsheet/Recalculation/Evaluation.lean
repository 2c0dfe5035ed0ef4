import Spreadsheet.Graph.Basic

/-! # Evaluating a cell
An **evaluation** is the value of a cell's formula over the grid as it is, together with where that
value was written. The value is a double; the grid stores it narrowed. A cell without a formula
keeps what the grid holds. -/

namespace Spreadsheet

/-- The outcome of evaluating one cell. -/
structure Evaluation where
  /-- The cell. -/
  key : String
  /-- Its value, before narrowing. -/
  value : Float
  /-- Where the value was written. -/
  write : Write
  deriving DecidableEq

namespace Graph

/-- The value of the formula of a cell over a grid; `none` without a formula. -/
def compute? (g : Graph) (values : Grid Float32) (key : String) : Option Float :=
  (g.table[key]?).map (Formula.eval values)

/-- What a grid holds for a key, NaN outside the grid. -/
def held (values : Grid Float32) (key : String) : Float :=
  ((values.get? key).map widen).getD nan

/-- Evaluates a cell and writes its value into the grid. -/
def evaluate (g : Graph) (values : Grid Float32) (key : String) : Evaluation × Grid Float32 :=
  match g.compute? values key with
  | none => (⟨key, held values key, .missing⟩, values)
  | some value =>
    let (written, write) := values.set key (narrow value)
    (⟨key, value, write⟩, written)

/-- Evaluates cells one after another, each over the grid that the one before left. -/
def evaluateAll (g : Graph) (values : Grid Float32) : List String → List Evaluation × Grid Float32
  | [] => ([], values)
  | key :: rest =>
    let (evaluation, written) := g.evaluate values key
    let (evaluations, final) := g.evaluateAll written rest
    (evaluation :: evaluations, final)

@[simp] theorem evaluateAll_nil (g : Graph) (values : Grid Float32) :
    g.evaluateAll values [] = ([], values) := rfl

@[simp] theorem key_evaluate (g : Graph) (values : Grid Float32) (key : String) :
    (g.evaluate values key).1.key = key := by
  unfold evaluate
  split <;> rfl

/-- One evaluation per key, in the order of the keys. -/
@[simp] theorem map_key_evaluateAll (g : Graph) (values : Grid Float32) (keys : List String) :
    (g.evaluateAll values keys).1.map (·.key) = keys := by
  induction keys generalizing values with
  | nil => rfl
  | cons key rest ih => simp [evaluateAll, ih]

/-- An evaluation keeps the dimensions. -/
theorem dimensions_evaluate (g : Graph) (values : Grid Float32) (key : String) :
    (g.evaluate values key).2.dimensions = values.dimensions := by
  unfold evaluate
  split
  · rfl
  · exact Grid.dimensions_set values key _

theorem dimensions_evaluateAll (g : Graph) (values : Grid Float32) (keys : List String) :
    (g.evaluateAll values keys).2.dimensions = values.dimensions := by
  induction keys generalizing values with
  | nil => rfl
  | cons key rest ih => simp only [evaluateAll, ih, dimensions_evaluate]

end Graph

end Spreadsheet
