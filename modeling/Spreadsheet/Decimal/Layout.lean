import Spreadsheet.Decimal.Shortest

/-! # Layouts of shortest decimals
A **layout** says how the digits of a number are written: which exponents are written positionally,
whether a whole number keeps `.0`, how a power of ten looks, where a tie between two shortest
decimals goes and what stands for the values that have no digits. The digits come from
`Interval.shortest`; the layouts used in this library are at the end. -/

namespace Spreadsheet.Decimal

/-- How a number is written once its shortest digits are known. -/
structure Layout where
  /-- Whether a number of the given decimal exponent is written without a power of ten. -/
  positional : Int → Bool
  /-- Whether a whole number written positionally ends in `.0`. -/
  pointZero : Bool
  /-- Whether a positive power of ten has a plus sign. -/
  plusSign : Bool
  /-- Which of two equally near shortest decimals is taken. -/
  tie : Tie
  /-- The text of NaN. -/
  nan : String
  /-- The text of positive infinity. -/
  infinite : String
  /-- The text of negative infinity. -/
  negativeInfinite : String

/-- The digits of a natural number. -/
def digits (n : Nat) : List Char := n.repr.toList

/-- The power of ten of the first digit. -/
def Scaled.scientificExponent (d : Scaled) : Int :=
  d.exponent + ((digits d.coefficient).length - 1 : Nat)

/-- A decimal written without a power of ten: as many zeros as its exponent asks for after the
digits, in front of them, or a point between them. -/
def Scaled.positional (d : Scaled) (pointZero : Bool) : List Char :=
  let ds := digits d.coefficient
  match d.exponent with
  | .ofNat zeros => ds ++ List.replicate zeros '0' ++ if pointZero then ['.', '0'] else []
  | .negSucc k =>
    let places := k + 1
    if ds.length ≤ places then
      '0' :: '.' :: (List.replicate (places - ds.length) '0' ++ ds)
    else
      ds.take (ds.length - places) ++ '.' :: ds.drop (ds.length - places)

/-- A decimal written as one digit, the others after a point, and a power of ten. -/
def Scaled.scientific (d : Scaled) (plusSign : Bool) : List Char :=
  let mantissa := match digits d.coefficient with
    | first :: second :: rest => first :: '.' :: second :: rest
    | short => short
  let power := match d.scientificExponent with
    | .ofNat e => (if plusSign then ['+'] else []) ++ digits e
    | .negSucc k => '-' :: digits (k + 1)
  mantissa ++ 'e' :: power

namespace Layout

/-- A decimal in a layout. -/
def ofDecimal (l : Layout) (d : Scaled) : List Char :=
  if l.positional d.scientificExponent then d.positional l.pointZero else d.scientific l.plusSign

/-- A sign in front of a text. -/
def signed (negative : Bool) (text : List Char) : String :=
  String.ofList (if negative then '-' :: text else text)

/-- The text of a number in a layout. -/
def render (l : Layout) : Value → String
  | .nan => l.nan
  | .infinite negative => if negative then l.negativeInfinite else l.infinite
  | .zero negative => signed negative (l.ofDecimal ⟨0, 0⟩)
  | .finite negative interval => signed negative (l.ofDecimal (interval.shortest l.tie))

end Layout

/-! ## The layouts in use -/

/-- Formulas are shown without powers of ten; a whole number has no point and a tie goes up. -/
def plain : Layout where
  positional := fun _ => true
  pointZero := false
  plusSign := false
  tie := .up
  nan := "NaN"
  infinite := "inf"
  negativeInfinite := "-inf"

/-- A double in a JSON text: positional between `1e-5` and `1e15`, else with a signed power of
ten. JSON has no text for NaN and the infinities but `null`. -/
def jsonDouble : Layout where
  positional := fun e => -5 ≤ e && e ≤ 15
  pointZero := true
  plusSign := true
  tie := .toEven
  nan := "null"
  infinite := "null"
  negativeInfinite := "null"

/-- A single-precision number in a JSON text: positional between `1e-6` and `1e12`. -/
def jsonSingle : Layout :=
  { jsonDouble with positional := fun e => -6 ≤ e && e ≤ 12 }

/-- A number of a sheet file as formula text: positional like `jsonDouble`, with no plus sign in a
power of ten and the YAML words for NaN and the infinities. -/
def yamlDouble : Layout where
  positional := fun e => -5 ≤ e && e ≤ 15
  pointZero := true
  plusSign := false
  tie := .toEven
  nan := ".nan"
  infinite := ".inf"
  negativeInfinite := "-.inf"

end Spreadsheet.Decimal
