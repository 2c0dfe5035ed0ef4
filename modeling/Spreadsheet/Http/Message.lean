import Spreadsheet.Error
import Spreadsheet.Json.Basic

/-! # Messages
A **request** asks for something at a target, and a **response** is a status with a body. The body
is empty or an **envelope** around data or an error message; each envelope carries an identifier
that is chosen anew for each request and so is not part of the response. -/

namespace Spreadsheet.Http

/-- A request to the server. -/
structure Request where
  /-- The method, in the spelling of the client. -/
  method : String
  /-- The path and whatever follows it. -/
  target : String
  /-- The media type of the body. -/
  contentType : Option String
  /-- The body. -/
  body : String
  deriving Repr, DecidableEq

/-- What a response carries. -/
inductive Body where
  /-- Nothing that clients rely on. -/
  | empty
  /-- The outcome of a request that succeeded. -/
  | data (value : Json)
  /-- Why a request failed. -/
  | failure (message : String)

/-- The body as it is sent, under the identifier of the request. -/
def Body.text? (identifier : String) : Body → Option String
  | empty => none
  | data value => some (Json.object [("success", .bool true), ("request_id", .string identifier),
      ("data", value)]).text
  | failure message => some (Json.object [("success", .bool false),
      ("request_id", .string identifier), ("error", .string message)]).text

/-- An answer to a request. -/
structure Response where
  /-- The status code. -/
  status : Nat
  /-- The body. -/
  body : Body

namespace Response

/-- A response without a body. -/
def bare (status : Nat) : Response := ⟨status, .empty⟩

/-- A response with data. -/
def ok (value : Json) : Response := ⟨200, .data value⟩

/-- The status for a cause of failure: requests that contradict themselves cannot be processed, a
stopped engine is unavailable, and all else is a bad request. -/
def statusOf (cause : SheetError) : Nat :=
  match cause.category with
  | .cycle | .validation => 422
  | .unavailable => 503
  | _ => 400

/-- A response that tells a cause of failure. -/
def failed (cause : SheetError) : Response := ⟨statusOf cause, .failure cause.message⟩

/-- A response that tells an outcome. -/
def ofOutcome {α : Type} (toJson : α → Json) : Except SheetError α → Response
  | .ok a => ok (toJson a)
  | .error cause => failed cause

/-- The same response without its body. -/
def withoutBody (r : Response) : Response := { r with body := .empty }

end Response

end Spreadsheet.Http
