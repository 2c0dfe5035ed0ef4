import Spreadsheet.Graph.Merge
import Spreadsheet.Recalculation.Schedule
import Spreadsheet.Engine.Report
import Spreadsheet.Engine.Feed

/-! # The engine
An **engine** is the live state of one sheet: the formula texts, their graph, the grid of values,
the grid of the texts shown for them, and the feed of snapshots. Editing is by **batches**: a batch
is merged into the graph, the edited cells and all that rest on them are evaluated in order of
depth, and the new snapshot is published. A batch that is empty or would close a circle is refused
and leaves the engine as it was. -/

namespace Spreadsheet

/-- The formula texts of one edit, by key. -/
abbrev Batch := KeyMap String

/-- The live state of one sheet. -/
structure Engine where
  /-- The text of each formula as it was submitted. -/
  texts : Batch
  /-- The formulas and the edges between cells. -/
  graph : Graph
  /-- The stored values. -/
  values : Grid Float32
  /-- The text shown for each cell, empty where no formula was evaluated. -/
  shown : Grid String
  /-- The subscribers and what they were sent. -/
  feed : Feed Snapshot
  /-- Values and texts have the same dimensions. -/
  dimensions_eq : shown.dimensions = values.dimensions

namespace Engine

/-- The engine of an empty sheet. -/
def new (d : Dimensions) : Except SheetError Engine :=
  if h : d.area < Key.wordBound then
    .ok {
      texts := ∅
      graph := .empty
      values := ⟨d, Array.replicate d.area 0, by simp, h⟩
      shown := ⟨d, Array.replicate d.area "", by simp, h⟩
      feed := .empty
      dimensions_eq := rfl }
  else .error (.badDimensions d.width d.height)

/-- The dimensions of the sheet, which never change. -/
def dimensions (e : Engine) : Dimensions := e.values.dimensions

/-- The state that subscribers see. -/
def snapshot (e : Engine) : Snapshot := ⟨e.graph.table, e.texts, labelledRows e.shown⟩

/-- Everything known about one key. -/
def cell (e : Engine) (key : String) : CellFacts where
  key := key
  text := e.texts[key]?
  formula := e.graph.table[key]?
  value := e.values.get? key
  dependencies := e.graph.dependencies.targets key
  dependents := e.graph.dependents.targets key

/-- Sends the current snapshot to the subscribers. -/
def publish (e : Engine) : Engine := { e with feed := e.feed.send e.snapshot }

/-- A new subscriber, who is sent the current snapshot. -/
def subscribe (e : Engine) (held : Bool) : Engine :=
  { e with feed := e.feed.subscribe held e.snapshot }

/-- A subscriber gives up its mailbox. -/
def leave (e : Engine) (number : Nat) : Engine := { e with feed := e.feed.leave number }

/-- A subscriber takes what was delivered to it; `none` if it gave up its mailbox. -/
def poll (e : Engine) (number : Nat) : Option (List Snapshot) × Engine :=
  let (messages, feed) := e.feed.poll number
  (messages, { e with feed })

/-- The number of subscribers that the next snapshot is sent to. -/
def subscriberCount (e : Engine) : Nat := e.feed.attachedCount

/-- What a batch brings up about one of its cells: an unknown operand, and a slot shared with a
shorter key. -/
def keyDiagnostics (e : Engine) (key text : String) : List Diagnostic :=
  let unknown := if (Formula.parse text).hasUnknown then [.unknownOperand key text] else []
  let shared := match e.values.index? key, Key.alias? key with
    | some _, some other => [.columnAliased key other]
    | _, _ => []
  unknown ++ shared

/-- The diagnostic of an evaluation whose cell lies outside the grid. -/
def outOfBounds? (e : Evaluation) : Option Diagnostic :=
  if e.write = .outOfBounds then some (.outOfBounds e.key) else none

/-- The shown texts after an evaluation: the cell it wrote shows the stored value. -/
def display (shown : Grid String) (e : Evaluation) : Grid String :=
  match e.write with
  | .stored i => shown.setIndex i (cellText (narrow e.value))
  | .outOfBounds | .missing => shown

theorem dimensions_foldl_display (evaluations : List Evaluation) (shown : Grid String) :
    (evaluations.foldl display shown).dimensions = shown.dimensions := by
  induction evaluations generalizing shown with
  | nil => rfl
  | cons e rest ih =>
    rw [List.foldl_cons, ih]
    unfold display
    split <;> rfl

/-! ## Editing -/

/-- What is done to an engine step by step. A step can fail, and what was done before it stays
done. -/
abbrev Update := ExceptT SheetError (StateM Engine)

/-- The engine with the texts of a batch and a graph in which it is merged. -/
def adopt (e : Engine) (batch : Batch) (graph : Graph) : Engine :=
  { e with texts := e.texts ∪ batch, graph }

/-- Evaluates cells one after another, and shows what they hold then. -/
def evaluate (e : Engine) (keys : List String) : List Evaluation × Engine :=
  let run := e.graph.evaluateAll e.values keys
  (run.1, { e with
    values := run.2
    shown := run.1.foldl display e.shown
    dimensions_eq := by
      rw [dimensions_foldl_display, Graph.dimensions_evaluateAll, e.dimensions_eq] })

/-- Puts an edit batch into effect: it is merged and scheduled, and after that the texts and the
graph are replaced, the scheduled cells are evaluated and the new snapshot is sent. -/
def editing (batch : Batch) : Update Report := do
  if batch.isEmpty then throw .emptyBatch
  let e ← get
  let graph ← MonadExcept.ofExcept (e.graph.merge (.ofFormulas batch))
  let schedule ← MonadExcept.ofExcept (graph.schedule batch.keys)
  let noted := batch.toList.flatMap fun (key, text) => e.keyDiagnostics key text
  modify (adopt · batch graph)
  let evaluations ← modifyGet (evaluate · schedule.order)
  modify publish
  return {
    evaluated := evaluations.map fun evaluation => (evaluation.key, evaluation.value)
    diagnostics := noted ++ evaluations.filterMap outOfBounds?
    maxDepth := schedule.maxDepth }

/-- The outcome of an edit batch, and the engine that there is then, whatever the outcome. -/
def edit (e : Engine) (batch : Batch) : Except SheetError Report × Engine :=
  (editing batch).run.run e

/-- Applies an edit batch: the report and the engine after it, or why the batch is refused. -/
def apply (e : Engine) (batch : Batch) : Except SheetError (Report × Engine) :=
  let (outcome, edited) := e.edit batch
  outcome.map fun report => (report, edited)

end Engine

end Spreadsheet
