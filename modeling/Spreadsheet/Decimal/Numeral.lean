/-! # Numerals
Reading numbers. A **decimal numeral** is digits with an optional point and an optional power of
ten, at least one digit before or after the point and at least one in the power; its value is the
double nearest to the exact decimal. A **radix numeral** is one or more digits of a radix up to
16, in either case of letter. -/

namespace Spreadsheet.Decimal

/-- The value of a digit of a radix up to 16. -/
def digit? (radix : Nat) (c : Char) : Option Nat :=
  let value :=
    if '0' ≤ c ∧ c ≤ '9' then c.toNat - '0'.toNat
    else if 'a' ≤ c ∧ c ≤ 'f' then c.toNat - 'a'.toNat + 10
    else if 'A' ≤ c ∧ c ≤ 'F' then c.toNat - 'A'.toNat + 10
    else radix
  if value < radix then some value else none

/-- The number written by digits after those that made up `start`. -/
def natural?.from (radix start : Nat) : List Char → Option Nat
  | [] => some start
  | c :: rest => (digit? radix c).bind fun d => natural?.from radix (start * radix + d) rest

/-- The number that one or more digits of a radix denote. -/
def natural? (radix : Nat) : List Char → Option Nat
  | [] => none
  | text => natural?.from radix 0 text

/-- The number that one or more digits of a radix denote, if it is below `2 ^ 64`. -/
def word? (radix : Nat) (text : List Char) : Option Nat :=
  (natural? radix text).filter (· < Nat.pow 2 64)

/-- The double nearest to `coefficient · 10 ^ exponent`. -/
def toDouble (coefficient : Nat) : Int → Float
  | .ofNat e => .ofScientific coefficient false e
  | .negSucc k => .ofScientific coefficient true (k + 1)

/-- The power of ten that ends a numeral: nothing, or `e` or `E`, a sign and digits. -/
def exponent? : List Char → Option Int
  | [] => some 0
  | mark :: rest =>
    if mark = 'e' ∨ mark = 'E' then
      match rest with
      | '+' :: ds => (natural? 10 ds).map Int.ofNat
      | '-' :: ds => (natural? 10 ds).map fun n => -Int.ofNat n
      | ds => (natural? 10 ds).map Int.ofNat
    else none

/-- The value of an unsigned decimal numeral; `none` if the text is no such numeral. -/
def unsigned? (text : List Char) : Option Float :=
  let whole := text.takeWhile Char.isDigit
  let afterWhole := text.dropWhile Char.isDigit
  let (fraction, rest) := match afterWhole with
    | '.' :: r => (r.takeWhile Char.isDigit, r.dropWhile Char.isDigit)
    | r => ([], r)
  do
    let coefficient ← natural? 10 (whole ++ fraction)
    let power ← exponent? rest
    return toDouble coefficient (power - fraction.length)

end Spreadsheet.Decimal
