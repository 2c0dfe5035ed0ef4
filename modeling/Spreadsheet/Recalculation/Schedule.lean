import Spreadsheet.Recalculation.Evaluation

/-! # Scheduled recalculation
A change of some cells, the **roots**, affects every cell that reads them, directly or through
others. The affected cells are evaluated once each, sorted into **layers**: a cell is in the first
layer if no affected cell feeds it, and otherwise one layer after the last that feeds it. So the
depth of a cell is the length of the longest path to it, and within a layer cells keep the order in
which they were discovered. No such order exists if affected cells read each other in a circle. -/

namespace Spreadsheet

/-- The affected cells, layer by layer. -/
structure Schedule where
  /-- The cells of each depth. -/
  layers : List (List String)
  deriving Repr, DecidableEq

namespace Schedule

/-- The cells in the order in which they are evaluated. -/
def order (s : Schedule) : List String := s.layers.flatten

/-- Each cell with its depth, in the order of evaluation. -/
def depths (s : Schedule) : List (String × Nat) :=
  s.layers.zipIdx.flatMap fun (layer, depth) => layer.map (·, depth)

/-- The greatest depth, 0 if nothing is affected. -/
def maxDepth (s : Schedule) : Nat := s.layers.length - 1

end Schedule

namespace Edges

/-- The set of keys that some key of a list leads to. -/
def fed (edges : Edges) (keys : List String) : KeySet :=
  .ofList (keys.flatMap edges.targets)

/-- The keys of a list that no key of the list leads to. -/
def ready (edges : Edges) (keys : List String) : List String :=
  let fed := edges.fed keys
  keys.filter (· ∉ fed)

/-- The keys of a list that some key of the list leads to. -/
def blocked (edges : Edges) (keys : List String) : List String :=
  let fed := edges.fed keys
  keys.filter (· ∈ fed)

/-- Each key of a list is either ready or blocked. -/
theorem length_ready_add_blocked (edges : Edges) (keys : List String) :
    (edges.ready keys).length + (edges.blocked keys).length = keys.length := by
  simp only [ready, blocked]
  generalize edges.fed keys = fed
  induction keys with
  | nil => rfl
  | cons a l ih =>
    simp only [List.filter_cons]
    by_cases ha : a ∈ fed <;> simp only [ha, decide_true, decide_false, not_true_eq_false,
      not_false_eq_true, if_true, if_false, Bool.false_eq_true, List.length_cons] <;> omega

/-- Sorts keys into layers by taking off, again and again, the keys that no remaining key leads
to; `none` if at some point there is none to take off. -/
def layers? (edges : Edges) (keys : List String) : Option (List (List String)) :=
  if keys.isEmpty then some []
  else if _hready : (edges.ready keys).isEmpty then none
  else (edges.layers? (edges.blocked keys)).map (edges.ready keys :: ·)
termination_by keys.length
decreasing_by
  have hlen := length_ready_add_blocked edges keys
  have hpos : 0 < (edges.ready keys).length := List.length_pos_iff.2 (by simpa using _hready)
  omega

end Edges

namespace Graph

/-- The schedule of the cells that a change of the roots affects. -/
def schedule (g : Graph) (roots : List String) : Except SheetError Schedule :=
  let affected := g.dependents.reachable roots
  match g.dependents.layers? affected with
  | some layers => .ok ⟨layers⟩
  | none => .error (.cycle (g.dependents.cycleMembers.filter (· ∈ affected)))

/-- Evaluates the cells that a change of the roots affects, each once and after all affected
cells that it reads. -/
def recalculate (g : Graph) (values : Grid Float32) (roots : List String) :
    Except SheetError (List Evaluation × Grid Float32) :=
  (g.schedule roots).map fun s => g.evaluateAll values s.order

end Graph

end Spreadsheet
