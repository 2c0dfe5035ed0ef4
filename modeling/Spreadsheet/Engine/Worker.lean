import Spreadsheet.Engine.Basic

/-! # The engine worker
A **worker** owns an engine and serves many clients. Its queue has a limited **capacity**: a request
stands in **line** until it is admitted to the queue. Requests in the queue are carried out in the
order of their arrival there, each to its end before the next is taken. Each request has a
**ticket**, under which its reply is kept for as long as it is **awaited**. A requester may give up:
then a request still in line is dropped, and one that has arrived is carried out all the same. A
worker that was stopped drops the requests that still wait and takes no more. -/

namespace Spreadsheet

/-- What a client can ask of a worker. -/
inductive Command where
  /-- Apply a batch. -/
  | edit (batch : Batch)
  /-- Attach a new subscriber. -/
  | subscribe
  /-- Tell the current snapshot. -/
  | snapshot
  /-- Tell everything about one cell. -/
  | cell (key : String)

/-- What a worker answers. -/
inductive Reply where
  /-- The outcome of a batch. -/
  | edited (outcome : Except SheetError Report)
  /-- The number of a new subscriber. -/
  | subscribed (number : Nat)
  /-- The current snapshot. -/
  | snapshot (snapshot : Snapshot)
  /-- The facts of a cell. -/
  | cell (facts : CellFacts)

/-- Carries out a command: the reply and the engine after it. -/
def Engine.execute (e : Engine) : Command → Reply × Engine
  | .edit batch =>
    let (outcome, edited) := e.edit batch
    (.edited outcome, edited)
  | .subscribe => (.subscribed e.feed.mailboxes.length, e.subscribe true)
  | .snapshot => (.snapshot e.snapshot, e)
  | .cell key => (.cell (e.cell key), e)

/-- What becomes of a reply that nobody receives: the mailbox of a subscription is given up. -/
def Engine.discard (e : Engine) : Reply → Engine
  | .subscribed number => e.leave number
  | .edited _ | .snapshot _ | .cell _ => e

/-- The engine lets go of its subscribers, who keep what was delivered to them. -/
def Engine.close (e : Engine) : Engine := { e with feed := e.feed.close }

namespace Reply

/-- What a reply tells the requester of a batch. -/
def report : Reply → Except SheetError Report
  | edited outcome => outcome
  | _ => .error .engineStopped

/-- What a reply tells a requester of a subscription: its number. -/
def number : Reply → Except SheetError Nat
  | subscribed number => .ok number
  | _ => .error .engineStopped

/-- What a reply tells the requester of the snapshot. -/
def content : Reply → Except SheetError Snapshot
  | snapshot s => .ok s
  | _ => .error .engineStopped

/-- What a reply tells the requester of a cell. -/
def facts : Reply → Except SheetError CellFacts
  | cell facts => .ok facts
  | _ => .error .engineStopped

end Reply

/-- An engine with the requests of its clients. -/
structure Worker where
  /-- The engine. -/
  engine : Engine
  /-- Whether requests are still carried out. -/
  running : Bool
  /-- The requests that wait for room in the queue, in the order in which they were made, each with
  its ticket. -/
  line : List (Nat × Command)
  /-- The requests that wait to be carried out, in the order of arrival, each with its ticket. -/
  queue : List (Nat × Command)
  /-- The number of tickets given out. -/
  issued : Nat
  /-- The tickets whose owners wait for a reply. -/
  awaited : List Nat
  /-- The replies that were not received yet. -/
  replies : List (Nat × Reply)

namespace Worker

/-- How many requests the queue holds at most. -/
def capacity : Nat := 256

/-- A worker on a new engine. -/
def spawn (d : Dimensions) : Except SheetError Worker :=
  (Engine.new d).map fun e => ⟨e, true, [], [], 0, [], []⟩

/-- Puts a request at the end of the line and gives its ticket; `none` once the worker has
stopped. -/
def send (w : Worker) (c : Command) : Option Nat × Worker :=
  if w.running then
    (some w.issued, { w with
      line := w.line ++ [(w.issued, c)]
      issued := w.issued + 1
      awaited := w.awaited ++ [w.issued] })
  else (none, w)

/-- The request under a ticket, if it stands in line and there is room in the queue. -/
def entrant? (w : Worker) (ticket : Nat) : Option (Nat × Command) :=
  if w.queue.length < capacity then w.line.find? (·.1 == ticket) else none

/-- Moves the request under a ticket from the line to the end of the queue, if there is room. -/
def enter (w : Worker) (ticket : Nat) : Worker :=
  match w.entrant? ticket with
  | some request =>
    { w with line := w.line.eraseP (·.1 == ticket), queue := w.queue ++ [request] }
  | none => w

/-- Carries out the request at the head of the queue. -/
def step (w : Worker) : Worker :=
  match w.queue with
  | [] => w
  | (ticket, c) :: queue =>
    let (reply, engine) := w.engine.execute c
    if ticket ∈ w.awaited then
      { w with engine, queue, replies := w.replies ++ [(ticket, reply)] }
    else { w with engine := engine.discard reply, queue }

/-- Carries out so many requests. -/
def steps (w : Worker) : Nat → Worker
  | 0 => w
  | n + 1 => w.step.steps n

/-- Carries out all that waits: first the queue, then those in line, each as soon as it is
admitted. -/
def drain (w : Worker) : Worker :=
  w.line.foldl (fun w request => (w.enter request.1).step) (w.steps w.queue.length)

/-- Stops the worker. Waiting requests are dropped, and with the engine goes the feed; what was
delivered stays with the subscribers. -/
def stop (w : Worker) : Worker :=
  { w with running := false, line := [], queue := [], engine := w.engine.close }

/-- The reply that is there under a ticket. -/
def reply? (w : Worker) (ticket : Nat) : Option Reply :=
  (w.replies.find? (·.1 == ticket)).map (·.2)

/-- The owner of a ticket waits no longer. -/
def forget (w : Worker) (ticket : Nat) : Worker :=
  { w with
    line := w.line.filter (·.1 != ticket)
    awaited := w.awaited.filter (· != ticket)
    replies := w.replies.filter (·.1 != ticket) }

/-- What the owner of a ticket is told, if it waits: the reply, or that the worker has stopped if
the request was dropped; `none` as long as there is neither. -/
def receive (w : Worker) (ticket : Nat) : Option (Except SheetError Reply) × Worker :=
  if ticket ∈ w.awaited then
    match w.reply? ticket with
    | some reply => (some (.ok reply), w.forget ticket)
    | none =>
      if (w.line ++ w.queue).any (·.1 == ticket) then (none, w)
      else (some (.error .engineStopped), w.forget ticket)
  else (none, w)

/-- The owner of a ticket gives up. A reply that is there already is lost, and so is one that is
still to come. -/
def abandon (w : Worker) (ticket : Nat) : Worker :=
  match w.reply? ticket with
  | some reply => { w.forget ticket with engine := w.engine.discard reply }
  | none => w.forget ticket

/-- A client sends a request and waits for its reply while the worker carries out all that
waits. -/
def ask (w : Worker) (c : Command) : Except SheetError Reply × Worker :=
  match w.send c with
  | (none, w) => (.error .engineStopped, w)
  | (some ticket, w) =>
    match w.drain.receive ticket with
    | (some answer, w) => (answer, w)
    | (none, w) => (.error .engineStopped, w)

/-- A client sends a request and waits for what the reply tells it. -/
def request {α : Type} (w : Worker) (c : Command) (read : Reply → Except SheetError α) :
    Except SheetError α × Worker :=
  let (answer, w) := w.ask c
  (answer.bind read, w)

/-- A client submits a batch and waits for its outcome. -/
def submit (w : Worker) (batch : Batch) : Except SheetError Report × Worker :=
  w.request (.edit batch) Reply.report

/-- A client asks for the snapshot. -/
def snapshot (w : Worker) : Except SheetError Snapshot × Worker :=
  w.request .snapshot Reply.content

/-- A client asks for the facts of a cell. -/
def cell (w : Worker) (key : String) : Except SheetError CellFacts × Worker :=
  w.request (.cell key) Reply.facts

/-- A client subscribes and is told its number. -/
def subscribe (w : Worker) : Except SheetError Nat × Worker :=
  w.request .subscribe Reply.number

/-- The dimensions of the sheet, known whether or not the worker runs. -/
def dimensions (w : Worker) : Dimensions := w.engine.dimensions

/-- A subscriber takes what was delivered to it. -/
def poll (w : Worker) (number : Nat) : Option (List Snapshot) × Worker :=
  let (messages, engine) := w.engine.poll number
  (messages, { w with engine })

/-- A subscriber gives up its mailbox. -/
def leave (w : Worker) (number : Nat) : Worker := { w with engine := w.engine.leave number }

end Worker

end Spreadsheet
