import Spreadsheet.Formula.Parse
import Spreadsheet.Graph.Edges

/-! # Dependency graphs
A **graph** holds the formulas of a sheet and the edges between its cells in both directions: the
**dependencies** of a cell are the keys its formula reads, in the order they are read and as often;
the **dependents** of a cell are the cells that read it, each once. A key without edges has no
entry. `ofFormulas` builds the graph of a batch of formula texts in one pass, and since cells are
visited in key order the dependents it lists are in key order too. -/

namespace Spreadsheet

namespace Edges

/-- Lists a reader of a cell, unless it is listed already. -/
def link (edges : Edges) (source reader : String) : Edges :=
  if reader ∈ edges.targets source then edges
  else edges.insert source (edges.targets source ++ [reader])

/-- Removes a reader of a cell from its list, and the list if it is empty then. -/
def unlink (edges : Edges) (source reader : String) : Edges :=
  match edges[source]? with
  | none => edges
  | some readers =>
    let left := readers.erase reader
    if left.isEmpty then edges.erase source else edges.insert source left

@[simp] theorem targets_link_self (edges : Edges) (source reader : String) :
    (edges.link source reader).targets source =
      if reader ∈ edges.targets source then edges.targets source
      else edges.targets source ++ [reader] := by
  unfold link
  split
  · rfl
  · simp [targets]

theorem targets_link_of_ne {edges : Edges} {source other reader : String} (h : source ≠ other) :
    (edges.link source reader).targets other = edges.targets other := by
  unfold link
  split
  · rfl
  · simp [targets, Std.ExtTreeMap.getElem?_insert, h]

end Edges

/-- The formulas of a sheet with the edges between its cells. -/
structure Graph where
  /-- The formula of each cell that has one. -/
  table : KeyMap Formula
  /-- The keys that each cell reads, in order and as often as it reads them. -/
  dependencies : Edges
  /-- The cells that read each key, each once. -/
  dependents : Edges

namespace Graph

/-- The graph of a sheet without formulas. -/
def empty : Graph := ⟨∅, ∅, ∅⟩

/-- The dependencies of the formulas of a table; a formula that reads nothing has no entry. -/
def dependenciesOf (table : KeyMap Formula) : Edges :=
  table.filterMap fun _ formula =>
    if formula.references.isEmpty then none else some formula.references

/-- The dependents in a table, listed in the order in which the readers are met. -/
def dependentsOf (table : KeyMap Formula) : Edges :=
  table.foldl (fun edges key formula =>
    formula.references.foldl (fun edges source => edges.link source key) edges) ∅

/-- The graph of the formulas of a table. -/
def ofTable (table : KeyMap Formula) : Graph :=
  ⟨table, dependenciesOf table, dependentsOf table⟩

/-- The graph of a batch of formula texts. -/
def ofFormulas (formulas : KeyMap String) : Graph :=
  ofTable (formulas.map fun _ text => Formula.parse text)

/-- The keys that the value of a cell rests on, nearest first and each once. -/
def precedents (g : Graph) (key : String) : List String := g.dependencies.beyond key

/-- Whether each edge is listed in both directions and no list is empty. -/
def isConsistent (g : Graph) : Bool :=
  (g.dependencies.toList.all fun (cell, sources) =>
    !sources.isEmpty && sources.all fun source => cell ∈ g.dependents.targets source) &&
  (g.dependents.toList.all fun (cell, readers) =>
    !readers.isEmpty && readers.all fun reader => cell ∈ g.dependencies.targets reader)

/-- Refuses a graph in which cells read each other in a circle, naming the cells on the
circles. -/
def checkAcyclic (g : Graph) : Except SheetError Unit :=
  match g.dependencies.cycleMembers with
  | [] => .ok ()
  | cells => .error (.cycle cells)

/-- A graph is acyclic to `checkAcyclic` exactly when no key is on a cycle. -/
theorem checkAcyclic_eq_ok {g : Graph} :
    g.checkAcyclic = .ok () ↔ g.dependencies.cycleMembers = [] := by
  unfold checkAcyclic
  split <;> simp_all

end Graph

end Spreadsheet
