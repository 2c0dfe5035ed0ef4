import Spreadsheet.Formula.Basic
import Spreadsheet.Json.Read

/-! # Formulas as JSON
A formula is an object whose `type` says what it is and whose other fields are its parts. On
reading, the order of fields is free, unknown fields are ignored and a part that is missing, given
twice or of another kind is refused. A node may also be a list of its type and its parts in order,
the type of an inner node may be its number in the list of types, and an operation may be an object
with the symbol as its one name and nothing as its value. -/

namespace Spreadsheet.Formula

/-- The JSON value of a formula. -/
def toJson : Formula → Json
  | literal value => .object [("type", .string "literal"), ("value", .double value)]
  | reference key => .object [("type", .string "reference"), ("value", .string key)]
  | operation op left right =>
    .object [("type", .string "operator"), ("name", .string op.symbol.toString),
      ("left", left.toJson), ("right", right.toJson)]
  | unknown text => .object [("type", .string "unknown"), ("value", .string text)]

/-- The types of nodes, in the order in which they are numbered. -/
inductive NodeType where
  | literal | reference | operation | unknown
  deriving Repr, DecidableEq

/-- The type that a value names; only an inner node may use its number. -/
def NodeType.ofJson? (inner : Bool) : Json → Option NodeType
  | .string "literal" => some literal
  | .string "reference" => some reference
  | .string "operator" => some operation
  | .string "unknown" => some unknown
  | .nat n => if inner then [literal, reference, operation, unknown][n]? else none
  | _ => none

/-- The operation that a text of one character stands for. -/
def operationOfText? (text : String) : Option Operation :=
  match text.toList with
  | [c] => Operation.ofSymbol? c
  | _ => none

/-- The operation that a value names. -/
def operationOfJson? : Json → Option Operation
  | .string text => operationOfText? text
  | .object [(text, .null)] => operationOfText? text
  | .object [(text, .object [])] => operationOfText? text
  | _ => none

/-- The number that a value is. -/
def numberOfJson? : Json → Option Float
  | .nat n => some (Float.ofNat n)
  | .double x => some x
  | _ => none

/-- The text that a value is. -/
def textOfJson? : Json → Option String
  | .string text => some text
  | _ => none

/-- A part of a node: a value, and the formula that it stands for, if it does. -/
abbrev Part := Json × Option Formula

/-- The one field of a name. -/
def fieldOf? (fields : List (String × Part)) (name : String) : Option Part :=
  match fields.filter (·.1 == name) with
  | [(_, part)] => some part
  | _ => none

/-- The node of a type with the given parts. -/
def ofParts? : NodeType → List Part → Option Formula
  | .literal, [(value, _)] => (numberOfJson? value).map literal
  | .reference, [(value, _)] => (textOfJson? value).map reference
  | .unknown, [(value, _)] => (textOfJson? value).map unknown
  | .operation, [(name, _), (_, left), (_, right)] => do
    return operation (← operationOfJson? name) (← left) (← right)
  | _, _ => none

/-- The names of the parts of a node of a type, in order. -/
def partNames : NodeType → List String
  | .operation => ["name", "left", "right"]
  | _ => ["value"]

/-- The formula of an object with the given fields. -/
def ofFields? (inner : Bool) (fields : List (String × Part)) : Option Formula := do
  let (tag, _) ← fieldOf? fields "type"
  let type ← NodeType.ofJson? inner tag
  ofParts? type (← (partNames type).mapM (fieldOf? fields))

/-- The formula of a list with the given items. -/
def ofItems? (inner : Bool) : List Part → Option Formula
  | (tag, _) :: parts => do ofParts? (← NodeType.ofJson? inner tag) parts
  | [] => none

mutual

/-- The formula that a value stands for. -/
def ofJson? (inner : Bool) : Json → Option Formula
  | .object fields => ofFields? inner (partsOfFields fields)
  | .array items => ofItems? inner (partsOfItems items)
  | _ => none

/-- The fields of a node as its parts. -/
def partsOfFields : List (String × Json) → List (String × Part)
  | [] => []
  | (name, value) :: more => (name, value, ofJson? true value) :: partsOfFields more

/-- The items of a node as its parts. -/
def partsOfItems : List Json → List Part
  | [] => []
  | value :: more => (value, ofJson? true value) :: partsOfItems more

end

/-- The formula that a JSON text stands for. -/
def ofJsonText (text : String) : Except SheetError Formula :=
  match (Json.parse? text).bind (ofJson? false) with
  | some formula => .ok formula
  | none => .error .malformedJson

end Spreadsheet.Formula
