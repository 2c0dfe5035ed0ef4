import Spreadsheet.Graph.Basic

/-! # Merging a batch into a graph
A **merge** replaces the formulas of the keys that a batch defines and leaves all others alone.
The edges of each such key are brought up to date in place: a dependents list loses the key if
the new formula no longer reads that cell, gains it at the end if the formula reads it for the
first time, and otherwise keeps its order. A merge that would close a circle is refused. -/

namespace Spreadsheet.Graph

/-- The keys that a batch defines, in ascending order. -/
def defined (incoming : Graph) : List String :=
  (Std.ExtTreeSet.ofList (incoming.table.keys ++ incoming.dependencies.keys)).toList

/-- The dependents after the formula of one cell was replaced: `before` and `after` are the keys
that the old and the new formula read. -/
def relink (dependents : Edges) (cell : String) (before after : List String) : Edges :=
  let retired := (before.filter (· ∉ after)).foldl (fun e source => e.unlink source cell) dependents
  after.foldl (fun e source => e.link source cell) retired

/-- The dependencies after the formula of one cell was replaced by one that reads `after`. -/
def redirect (dependencies : Edges) (cell : String) (after : List String) : Edges :=
  if after.isEmpty then dependencies.erase cell else dependencies.insert cell after

/-- The graph in which the keys that a batch defines have the batch's formulas and edges and all
other keys those they had. Cells that the batch alone lists readers for keep that list. -/
def overlay (live incoming : Graph) : Graph where
  table := live.table ∪ incoming.table
  dependencies := incoming.defined.foldl (fun e cell =>
    redirect e cell (incoming.dependencies.targets cell)) live.dependencies
  dependents := incoming.dependents ∪ incoming.defined.foldl (fun e cell =>
    relink e cell (live.dependencies.targets cell) (incoming.dependencies.targets cell))
    live.dependents

/-- The overlay of a batch, unless cells would read each other in a circle then. -/
def merge (live incoming : Graph) : Except SheetError Graph :=
  let merged := live.overlay incoming
  merged.checkAcyclic.map fun _ => merged

/-- A merge that succeeds gives the overlay. -/
theorem eq_overlay_of_merge {live incoming merged : Graph}
    (h : live.merge incoming = .ok merged) : merged = live.overlay incoming := by
  unfold merge at h
  cases hc : (live.overlay incoming).checkAcyclic <;> simp_all [Except.map]

end Spreadsheet.Graph
