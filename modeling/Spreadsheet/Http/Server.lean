import Spreadsheet.Engine.Encoding
import Spreadsheet.Engine.Worker
import Spreadsheet.Http.EditBody
import Spreadsheet.Http.MediaType
import Spreadsheet.Http.Message
import Spreadsheet.Http.Target
import Spreadsheet.Release

/-! # The server
The server answers requests with the worker of one sheet. Each **endpoint** has a path and one
method; an endpoint that is read can also be asked for without its body. Only a request to the edit
endpoint whose body is accepted changes the sheet. -/

namespace Spreadsheet.Http

/-- What can be asked of the server. -/
inductive Endpoint where
  /-- What the server is. -/
  | root
  /-- Whether it is well. -/
  | health
  /-- Its version. -/
  | version
  /-- The current snapshot. -/
  | snapshot
  /-- Applying an edit batch. -/
  | edits
  /-- One cell, with the part of the path that names it. -/
  | cell (part : List Char)
  deriving Repr, DecidableEq

namespace Endpoint

/-- The part of a path that names a cell: it is not empty and has no slash. -/
def cellPart? (path : List Char) : Option (List Char) :=
  ("/api/v1/cells/".toList.isPrefixOf? path).filter fun part =>
    !part.isEmpty && !part.contains '/'

/-- The endpoint with a path. -/
def ofPath? (path : List Char) : Option Endpoint :=
  if path = "/".toList then some root
  else if path = "/health".toList then some health
  else if path = "/version".toList then some version
  else if path = "/api/v1/snapshot".toList then some snapshot
  else if path = "/api/v1/edits".toList then some edits
  else (cellPart? path).map cell

/-- The method of an endpoint. -/
def method : Endpoint → String
  | edits => "POST"
  | _ => "GET"

end Endpoint

/-! ## What the endpoints tell -/

/-- An entry in the list of endpoints. -/
def describe (method path description : String) : Json :=
  .object [("path", .string path), ("method", .string method),
    ("description", .string description)]

/-- What the server is. -/
def about : Json :=
  .object [("name", .string s!"{Release.program} API Server"),
    ("version", .string Release.version),
    ("description", .string "Incremental spreadsheet recalculation over HTTP"),
    ("endpoints", .array [
      describe "GET" "/health" "Health check endpoint",
      describe "GET" "/version" "Get server version",
      describe "GET" "/api/v1/snapshot" "Current formulas and value grid",
      describe "POST" "/api/v1/edits" "Apply a batch of cell formula edits",
      describe "GET" "/api/v1/cells/\x7bkey\x7d" "Formula, value and edges of one cell"])]

/-- How the server is. -/
def healthOf (d : Dimensions) : Json :=
  .object [("status", .string "healthy"), ("table", .string s!"{d.width}x{d.height}")]

/-- The version and what it can do. -/
def versionFacts : Json :=
  .object [("version", .string Release.version),
    ("features", .strings ["edits", "snapshot", "cells"])]

/-- What a batch did: how many cells were evaluated and to what, and its diagnostics. -/
def editFacts (r : Report) : Json :=
  let values := r.evaluated.foldl (fun (values : KeyMap Float) (key, x) => values.insert key x) ∅
  .object [("evaluated", .nat r.evaluated.length), ("cells", .ofPairs .double values.toList),
    ("diagnostics", .array (r.diagnostics.map Diagnostic.toJson))]

/-! ## Answering -/

/-- The greatest size of a body in octets. -/
def bodyLimit : Nat := 2 * 1024 * 1024

/-- The batch of an edit request, or the status with which it is refused: its type must be JSON, it
must not be too large, and its body must be accepted. -/
def batchOf (r : Request) : Except Nat Batch :=
  if !(r.contentType.bind MediaType.parse?).any MediaType.isJson then .error 415
  else if bodyLimit < r.body.utf8ByteSize then .error 413
  else match EditBody.parse r.body with
    | .ok batch => .ok batch
    | .error .notJson => .error 400
    | .error .wrongShape => .error 422

/-- Answers a request to an endpoint with its method. -/
def answer (w : Worker) (e : Endpoint) (r : Request) : Response × Worker :=
  match e with
  | .root => (.ok about, w)
  | .health => (.ok (healthOf w.dimensions), w)
  | .version => (.ok versionFacts, w)
  | .snapshot =>
    let (outcome, w) := w.snapshot
    (.ofOutcome Snapshot.toJson outcome, w)
  | .edits =>
    match batchOf r with
    | .ok batch =>
      let (outcome, w) := w.submit batch
      (.ofOutcome editFacts outcome, w)
    | .error status => (.bare status, w)
  | .cell part =>
    match Target.decode? part with
    | some key =>
      let (outcome, w) := w.cell key
      (.ofOutcome CellFacts.toJson outcome, w)
    | none => (.bare 400, w)

/-- Answers a request. Any client may ask what it is allowed to do. -/
def respond (w : Worker) (r : Request) : Response × Worker :=
  if r.method = "OPTIONS" then (.bare 200, w)
  else match Endpoint.ofPath? (Target.path r.target) with
    | none => (.bare 404, w)
    | some e =>
      if r.method = e.method then answer w e r
      else if r.method = "HEAD" ∧ e.method = "GET" then
        let (response, w) := answer w e r
        (response.withoutBody, w)
      else (.bare 405, w)

end Spreadsheet.Http
