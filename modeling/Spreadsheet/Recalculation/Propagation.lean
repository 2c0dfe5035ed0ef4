import Spreadsheet.Recalculation.Evaluation

/-! # Layered propagation
Propagation evaluates a **frontier** of cells over one state of the grid, then writes all their
values and goes on with the cells that read them. A cell is evaluated once for each walk that
leads to it, so intermediate values can be wrong, but the last one is not. Propagation is a stream
of evaluations: the writes of the current layer are **pending** until the layer is used up, and
abandoning the stream writes the pending ones. The stream ends unless a cycle is reached. -/

namespace Spreadsheet

/-- The state of a propagation between two evaluations. -/
structure Propagation where
  /-- The formulas and edges. -/
  graph : Graph
  /-- The grid as it was when the current layer began. -/
  values : Grid Float32
  /-- The cells of the current layer. -/
  frontier : List String
  /-- The cells of the current layer that are not evaluated yet. -/
  waiting : List String
  /-- The writes of the current layer, in order. -/
  pending : List (Nat × Float32)
  /-- The number of layers before the current one. -/
  layer : Nat

namespace Propagation

/-- The propagation of a change of the roots, before its first evaluation. -/
def start (g : Graph) (values : Grid Float32) (roots : List String) : Propagation :=
  ⟨g, values, roots, roots, [], 0⟩

/-- The grid with the pending writes made. -/
def settled (p : Propagation) : Grid Float32 :=
  p.pending.foldl (fun g (i, v) => g.setIndex i v) p.values

/-- The value of a cell over the grid as it was when the layer began, and the write that is
pending then. -/
def evaluateFrozen (p : Propagation) (key : String) : Evaluation × Option (Nat × Float32) :=
  match p.graph.compute? p.values key with
  | none => (⟨key, Graph.held p.values key, .missing⟩, none)
  | some value =>
    match p.values.index? key with
    | some i => (⟨key, value, .stored i⟩, some (i, narrow value))
    | none => (⟨key, value, .outOfBounds⟩, none)

/-- Evaluates the next cell of the current layer, which is the given one. -/
def visit (p : Propagation) (key : String) (rest : List String) : Evaluation × Propagation :=
  let (evaluation, write) := p.evaluateFrozen key
  (evaluation, { p with waiting := rest, pending := p.pending ++ write.toList })

/-- The start of the next layer: the pending writes are made, and the frontier moves to the readers
of its cells, as often as they are listed. -/
def advance (p : Propagation) : Propagation :=
  let next := p.frontier.flatMap p.graph.dependents.targets
  { p with
    values := p.settled, frontier := next, waiting := next, pending := [], layer := p.layer + 1 }

/-- The next evaluation, if there is one, and the state after it. -/
def next (p : Propagation) : Option Evaluation × Propagation :=
  match p.waiting with
  | key :: rest => let (e, q) := p.visit key rest; (some e, q)
  | [] =>
    if p.frontier.isEmpty then (none, p)
    else
      let q := p.advance
      match q.waiting with
      | key :: rest => let (e, r) := q.visit key rest; (some e, r)
      | [] => (none, q)

/-- At most so many evaluations, each with its layer, and the state after them. -/
def take (p : Propagation) : Nat → List (Nat × Evaluation) × Propagation
  | 0 => ([], p)
  | n + 1 =>
    match p.next with
    | (none, q) => ([], q)
    | (some e, q) => let (es, r) := q.take n; ((q.layer, e) :: es, r)

/-- The evaluations left in the current layer, and the state after them. -/
def finishLayer (p : Propagation) : List String → List Evaluation × Propagation
  | [] => ([], p)
  | key :: rest =>
    let (e, q) := p.visit key rest
    let (es, r) := q.finishLayer rest
    (e :: es, r)

/-- All evaluations and the final grid, if the stream ends within so many layers. -/
def finish? (p : Propagation) : Nat → Option (List Evaluation × Grid Float32)
  | 0 => if p.frontier.isEmpty then some ([], p.settled) else none
  | n + 1 =>
    if p.frontier.isEmpty then some ([], p.settled)
    else
      let (es, q) := p.finishLayer p.waiting
      (q.advance.finish? n).map fun (rest, values) => (es ++ rest, values)

end Propagation

/-- Propagates a change of the roots to the end; `none` if it has no end, because a cycle is
reached. A walk without a cycle has at most one step per cell with dependents, which bounds the
layers. -/
def Graph.propagate (g : Graph) (values : Grid Float32) (roots : List String) :
    Option (List Evaluation × Grid Float32) :=
  (Propagation.start g values roots).finish? (g.dependents.size + 1)

end Spreadsheet
