import Spreadsheet.Precision
import Spreadsheet.Cell.Grid
import Spreadsheet.Decimal.Layout

/-! # Formulas
A **formula** is a tree of the four arithmetic operations over three kinds of **leaf**: a literal
number, a reference to a cell, and an unknown operand that is kept as text. Its value over a grid
is computed in double precision; a reference reads what the grid stores at that moment, and a
reference outside the grid and an unknown operand are NaN. -/

namespace Spreadsheet

/-- One of the four arithmetic operations. -/
inductive Operation where
  | add | sub | mul | div
  deriving Repr, DecidableEq

namespace Operation

/-- The operation that a character stands for. -/
def ofSymbol? : Char → Option Operation
  | '+' => some add
  | '-' => some sub
  | '*' => some mul
  | '/' => some div
  | _ => none

/-- The character that stands for an operation. -/
def symbol : Operation → Char
  | add => '+'
  | sub => '-'
  | mul => '*'
  | div => '/'

/-- The result of an operation in double precision. -/
def apply : Operation → Float → Float → Float
  | add, x, y => x + y
  | sub, x, y => x - y
  | mul, x, y => x * y
  | div, x, y => x / y

@[simp] theorem ofSymbol?_symbol (op : Operation) : ofSymbol? op.symbol = some op := by
  cases op <;> rfl

/-- A character stands for at most one operation, whose symbol it is. -/
theorem symbol_of_ofSymbol? {c : Char} {op : Operation} (h : ofSymbol? c = some op) :
    op.symbol = c := by
  unfold ofSymbol? at h
  split at h <;> simp_all <;> subst h <;> rfl

end Operation

/-- A formula. -/
inductive Formula where
  /-- A number. -/
  | literal (value : Float)
  /-- The value of another cell. -/
  | reference (key : String)
  /-- An operation on the values of two formulas. -/
  | operation (op : Operation) (left right : Formula)
  /-- An operand that is neither a cell key nor a number. -/
  | unknown (text : String)
  deriving DecidableEq

namespace Formula

/-- The keys that a formula reads, from left to right, as often as they occur. -/
def references : Formula → List String
  | reference key => [key]
  | operation _ left right => left.references ++ right.references
  | literal _ | unknown _ => []

/-- The numbers of a formula, from left to right. -/
def literals : Formula → List Float
  | literal value => [value]
  | operation _ left right => left.literals ++ right.literals
  | reference _ | unknown _ => []

/-- The number of leaves. -/
def leafCount : Formula → Nat
  | operation _ left right => left.leafCount + right.leafCount
  | _ => 1

/-- The number of operations. -/
def operationCount : Formula → Nat
  | operation _ left right => left.operationCount + right.operationCount + 1
  | _ => 0

/-- Whether some operand is unknown. -/
def hasUnknown : Formula → Bool
  | operation _ left right => left.hasUnknown || right.hasUnknown
  | unknown _ => true
  | _ => false

/-- Whether a formula is an operation. -/
def isOperation : Formula → Bool
  | operation .. => true
  | _ => false

/-- The value of a formula over a grid. -/
def eval (g : Grid Float32) : Formula → Float
  | literal value => value
  | reference key => ((g.get? key).map widen).getD nan
  | operation op left right => op.apply (left.eval g) (right.eval g)
  | unknown _ => nan

/-- The text of a formula: operands and operations in order, separated by single spaces, with
parentheses only around an operation on the right of another one. -/
def text : Formula → String
  | literal value => Decimal.plain.render (.ofDouble value)
  | reference key => key
  | unknown s => s
  | operation op left right =>
    let tail := if right.isOperation then "(" ++ right.text ++ ")" else right.text
    left.text ++ " " ++ op.symbol.toString ++ " " ++ tail

/-- Every operation joins two operands, so there is one more leaf than there are operations. -/
theorem leafCount_eq (f : Formula) : f.leafCount = f.operationCount + 1 := by
  induction f with
  | operation _ _ _ hl hr => simp only [leafCount, operationCount, hl, hr]; omega
  | literal | reference | unknown => rfl

end Formula

end Spreadsheet
