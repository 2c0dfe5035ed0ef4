import Spreadsheet.Decimal.Layout
import Spreadsheet.Decimal.Numeral
import Spreadsheet.Precision

/-! # Numbers in YAML
A plain scalar can denote an **integer**, in decimal or with a radix mark and digits of that radix,
or a **float**, as a decimal numeral or one of the words for infinity and NaN. Decimal digits with a
superfluous zero in front denote no number. An integer is an unsigned or a negative signed 64-bit
word; one that is too large for them but fits twice the width is an error, and a still larger one is
read as a float. -/

namespace Spreadsheet.Yaml

/-- A number of a document. -/
inductive Number where
  /-- A whole number below `2 ^ 64` and not below `-2 ^ 63`. -/
  | integer (n : Int)
  /-- A number in double precision. -/
  | float (x : Float)
  deriving DecidableEq

namespace Number

/-- The shortest text of a number, which has a point or a power of ten if it is a float. -/
def text : Number → String
  | integer n => toString n
  | float x => Decimal.yamlDouble.render (.ofDouble x)

/-- The number as a natural number, if it was written as one. -/
def natural? : Number → Option Nat
  | integer n => if 0 ≤ n then some n.toNat else none
  | float _ => none

/-- Whether two numbers are the same key: an integer is no float, and all NaNs are one. -/
def same : Number → Number → Bool
  | integer m, integer n => m == n
  | float x, float y => x == y || x.isNaN && y.isNaN
  | _, _ => false

/-- A text without its sign and whether the sign is a minus. -/
def splitSign : List Char → Bool × List Char
  | '+' :: rest => (false, rest)
  | '-' :: rest => (true, rest)
  | text => (false, text)

/-- The digits of an integer and their radix. -/
def splitRadix : List Char → Nat × List Char
  | '0' :: 'x' :: digits => (16, digits)
  | '0' :: 'o' :: digits => (8, digits)
  | '0' :: 'b' :: digits => (2, digits)
  | digits => (10, digits)

/-- Whether a text consists of two or more decimal digits of which the first is zero. -/
def isPadded : List Char → Bool
  | '0' :: d :: digits => (d :: digits).all Char.isDigit
  | _ => false

/-- The integer that a text denotes, of any size. -/
def integer? (text : List Char) : Option Int :=
  let (negative, unsigned) := splitSign text
  let (radix, digits) := splitRadix unsigned
  if isPadded unsigned then none
  else (Decimal.natural? radix digits).map fun n => if negative then -(n : Int) else n

/-- The float that a text denotes; a decimal numeral must be finite. -/
def float? (text : List Char) : Option Float :=
  let (negative, unsigned) := splitSign text
  let word := String.ofList unsigned
  if word = ".inf" ∨ word = ".Inf" ∨ word = ".INF" then
    some (if negative then -infinity else infinity)
  else if text = unsigned ∧ (word = ".nan" ∨ word = ".NaN" ∨ word = ".NAN") then
    some nan
  else
    ((Decimal.unsigned? unsigned).filter (·.isFinite)).map fun x => if negative then -x else x

end Number

end Spreadsheet.Yaml
