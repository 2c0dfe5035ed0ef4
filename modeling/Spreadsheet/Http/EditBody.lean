import Spreadsheet.Engine.Basic
import Spreadsheet.Json.Read

/-! # Bodies of edit requests
The body of an edit request is an object whose field `expressions` is an object from keys to
formula texts; it may also be that inner object as the only item of an array. The body is judged
while it is read, so the first fault counts: it is **not JSON**, or it has the **wrong shape**,
which is seen of an array or object at its first character and of another value once it has been
read. Other fields are only skipped, and what follows the body is not looked at. -/

namespace Spreadsheet.Http

/-- Why the body of an edit request is refused. -/
inductive BodyFault where
  /-- The body is not a JSON text. -/
  | notJson
  /-- The body is JSON of another shape. -/
  | wrongShape
  deriving Repr, DecidableEq

namespace EditBody

/-- What was read and the rest. -/
abbrev Found (α : Type) := α × List Char

/-- What an optional reader found; a text that it does not accept is not JSON. -/
def ofOption {α : Type} : Option (Found α) → Except BodyFault (Found α)
  | some found => .ok found
  | none => .error .notJson

/-! ## Values that are skipped -/

/-- The text after the closing quote of a string. Escaped halves of a character may stand alone. -/
def skipString : List Char → Option (List Char)
  | [] => none
  | '\x22' :: rest => some rest
  | '\\' :: 'u' :: a :: b :: c :: d :: rest =>
    if (Json.codeUnit? a b c d).isSome then skipString rest else none
  | '\\' :: c :: rest => if (Json.unescape? c).isSome then skipString rest else none
  | c :: rest => if c.toNat < 0x20 then none else skipString rest

/-- The text after an unsigned number of any size. -/
def skipUnsigned (text : List Char) : Option (List Char) :=
  match text.takeWhile Char.isDigit with
  | [] => none
  | '0' :: _ :: _ => none
  | _ => do
    let (_, rest) ← Json.readFraction (text.dropWhile Char.isDigit)
    let (_, rest) ← Json.readExponent rest
    return rest

/-- The text after a value that is neither an array nor an object. -/
def skipLeaf : List Char → Option (List Char)
  | 'n' :: 'u' :: 'l' :: 'l' :: rest => some rest
  | 't' :: 'r' :: 'u' :: 'e' :: rest => some rest
  | 'f' :: 'a' :: 'l' :: 's' :: 'e' :: rest => some rest
  | '\x22' :: rest => skipString rest
  | '-' :: rest => skipUnsigned rest
  | text => skipUnsigned text

/-- The text after a field of a skipped object. -/
def skipField (value : List Char → Option (Unit × List Char)) (text : List Char) :
    Option (Unit × List Char) :=
  match Json.skipSpace text with
  | '\x22' :: rest => do
    match Json.skipSpace (← skipString rest) with
    | ':' :: rest => value rest
    | _ => none
  | _ => none

/-- The text after a value with at most so many arrays and objects inside one another. -/
def skipValue : Nat → List Char → Option (Unit × List Char)
  | 0, text => (skipLeaf (Json.skipSpace text)).map ((), ·)
  | depth + 1, text =>
    match Json.skipSpace text with
    | '[' :: rest => (Json.readBody (skipValue depth) ']' rest).map fun (_, rest) => ((), rest)
    | '{' :: rest =>
      (Json.readBody (skipField (skipValue depth)) '}' rest).map fun (_, rest) => ((), rest)
    | text => (skipLeaf text).map ((), ·)

/-! ## Objects -/

/-- The fault of a value that stands where another kind is wanted. -/
def mismatch {α : Type} (text : List Char) : Except BodyFault (Found α) :=
  match Json.skipSpace text with
  | '[' :: _ => .error .wrongShape
  | '{' :: _ => .error .wrongShape
  | text => .error (if (Json.readLeaf text).isSome then .wrongShape else .notJson)

/-- The text after the colon of a field. -/
def afterColon (text : List Char) : Except BodyFault (List Char) :=
  match Json.skipSpace text with
  | ':' :: rest => .ok rest
  | _ => .error .notJson

/-- Reads the fields of an object up to its end. A field is handed on as its name and the text
after it; a comma stands before each but the first. The count bounds the number of fields. -/
def readFields {σ : Type} (field : σ → String → List Char → Except BodyFault (Found σ)) :
    Nat → Bool → σ → List Char → Except BodyFault (Found σ)
  | 0, _, _, _ => .error .notJson
  | n + 1, first, state, text =>
    match Json.skipSpace text with
    | '}' :: rest => .ok (state, rest)
    | c :: rest => do
      let text ← if first then pure (c :: rest)
        else if c = ',' then pure (Json.skipSpace rest)
        else throw .notJson
      match text with
      | '\x22' :: rest =>
        let (name, rest) ← ofOption (Json.readString rest)
        let (state, rest) ← field state (String.ofList name) rest
        readFields field n false state rest
      | _ => throw .notJson
    | [] => .error .notJson

/-- An object read field by field. -/
def readObject {σ : Type} (field : σ → String → List Char → Except BodyFault (Found σ))
    (state : σ) (text : List Char) : Except BodyFault (Found σ) :=
  match Json.skipSpace text with
  | '{' :: rest => readFields field (rest.length + 1) true state rest
  | text => mismatch text

/-- Adds a key with its formula text to a batch; the last text of a key counts. -/
def readFormula (batch : Batch) (key : String) (text : List Char) :
    Except BodyFault (Found Batch) := do
  match Json.skipSpace (← afterColon text) with
  | '\x22' :: rest =>
    let (formula, rest) ← ofOption (Json.readString rest)
    return (batch.insert key (String.ofList formula), rest)
  | text => mismatch text

/-- An object from keys to formula texts. -/
def readBatch (text : List Char) : Except BodyFault (Found Batch) :=
  readObject readFormula ∅ text

/-- A field of the body. Expressions come once. -/
def readField (found : Option Batch) (name : String) (text : List Char) :
    Except BodyFault (Found (Option Batch)) :=
  if name = "expressions" then
    match found with
    | some _ => .error .wrongShape
    | none => do
      let (batch, rest) ← readBatch (← afterColon text)
      return (some batch, rest)
  else do
    let text ← afterColon text
    let (_, rest) ← ofOption (skipValue text.length text)
    return (found, rest)

/-- The batch in the body of an edit request. -/
def parse (body : String) : Except BodyFault Batch :=
  match Json.skipSpace body.toList with
  | '[' :: rest =>
    match Json.skipSpace rest with
    | ']' :: _ => .error .wrongShape
    | text => do
      let (batch, rest) ← readBatch text
      match Json.skipSpace rest with
      | ']' :: _ => return batch
      | _ => throw .notJson
  | text => do
    match (← readObject readField none text).1 with
    | some batch => return batch
    | none => throw .wrongShape

end EditBody

end Spreadsheet.Http
