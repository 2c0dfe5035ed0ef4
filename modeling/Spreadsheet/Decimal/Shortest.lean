/-! # Shortest decimals
The text of a binary number shows the fewest digits that read back as the same number. A positive
finite number `significand · 2 ^ exponent` is given with its **rounding interval**, the reals that
round to it; over a common power of ten its ends and the number itself are natural numbers, so the
search for the coarsest decimal grid that meets the interval is exact. Where two points of that
grid lie in the interval the nearer one is taken, and a **tie** goes up or to the even neighbour,
as the caller asks. -/

namespace Spreadsheet.Decimal

/-- Where an exact half goes. -/
inductive Tie where
  /-- To the larger magnitude. -/
  | up
  /-- To the even neighbour. -/
  | toEven
  deriving Repr, DecidableEq

/-- A nonnegative decimal number `coefficient · 10 ^ exponent`. -/
structure Scaled where
  /-- The digits, read as a natural number. -/
  coefficient : Nat
  /-- The power of ten of the last digit. -/
  exponent : Int
  deriving Repr, DecidableEq

/-- A number between the ends of its rounding interval, all three in the same unit
`10 ^ exponent`. -/
structure Interval where
  /-- The lower end. -/
  low : Nat
  /-- The number itself. -/
  value : Nat
  /-- The upper end. -/
  high : Nat
  /-- Whether the ends round to the number too. -/
  closed : Bool
  /-- The power of ten of the unit. -/
  exponent : Int
  deriving Repr, DecidableEq

namespace Interval

/-- Whether a natural number of units lies in the interval. -/
def contains (i : Interval) (n : Nat) : Bool :=
  if i.closed then i.low ≤ n && n ≤ i.high else i.low < n && n < i.high

/-- The rounding interval of `significand · 2 ^ exponent`. The gap to the number below is half as
wide as the gap above exactly when `narrowBelow` holds; the ends round to the number exactly when
its significand is even. -/
def ofBinary (significand : Nat) (exponent : Int) (narrowBelow : Bool) : Interval :=
  let scale := Nat.pow 2 (exponent - 2).toNat * Nat.pow 5 (2 - exponent).toNat
  { low := (4 * significand - if narrowBelow then 1 else 2) * scale
    value := 4 * significand * scale
    high := (4 * significand + 2) * scale
    closed := significand % 2 = 0
    exponent := -((2 - exponent).toNat : Int) }

/-- The multiple of `10 ^ k` that lies in the interval and is nearest to the number, divided by
`10 ^ k`; only the two multiples next to the number can be it. -/
def nearestMultiple? (i : Interval) (tie : Tie) (k : Nat) : Option Nat :=
  let below := i.value / Nat.pow 10 k
  let above := below + 1
  match i.contains (below * Nat.pow 10 k), i.contains (above * Nat.pow 10 k) with
  | false, false => none
  | true, false => some below
  | false, true => some above
  | true, true =>
    match compare (i.value - below * Nat.pow 10 k) (above * Nat.pow 10 k - i.value) with
    | .lt => some below
    | .gt => some above
    | .eq => some (match tie with
      | .up => above
      | .toEven => if below % 2 = 0 then below else above)

/-- The decimal on the coarsest grid not above `10 ^ k` units that meets the interval. The unit
grid always does, since it holds the number itself. -/
def coarsest (i : Interval) (tie : Tie) : Nat → Scaled
  | 0 => ⟨(i.nearestMultiple? tie 0).getD i.value, i.exponent⟩
  | k + 1 =>
    match i.nearestMultiple? tie (k + 1) with
    | some c => ⟨c, i.exponent + (k + 1)⟩
    | none => i.coarsest tie k

/-- The shortest decimal in the interval. -/
def shortest (i : Interval) (tie : Tie) : Scaled :=
  i.coarsest tie (Nat.repr i.high).length

end Interval

open Float.Model

/-- A number as text needs it: its sign and, if it is finite and not zero, its rounding
interval. -/
inductive Value where
  /-- Not a number. -/
  | nan
  /-- Infinity of the given sign. -/
  | infinite (negative : Bool)
  /-- Zero of the given sign. -/
  | zero (negative : Bool)
  /-- A finite number other than zero, by the interval of its absolute value. -/
  | finite (negative : Bool) (interval : Interval)
  deriving Repr, DecidableEq

/-- The text-ready value of an unpacked number whose full significands have `bits + 1` bits and
whose least exponent is `least`. -/
def Value.ofUnpacked (bits : Nat) (least : Int) : UnpackedFloat → Value
  | .notANumber => .nan
  | .infinity sign => .infinite (sign == .negative)
  | .zero sign => .zero (sign == .negative)
  | .finite sign significand exponent _ =>
    .finite (sign == .negative) <|
      .ofBinary significand exponent (significand = Nat.pow 2 bits ∧ least < exponent)

/-- The text-ready value of a double. -/
def Value.ofDouble (x : Float) : Value :=
  .ofUnpacked 52 (-1074) x.toModel.unpack

/-- The text-ready value of a single-precision number. -/
def Value.ofSingle (x : Float32) : Value :=
  .ofUnpacked 23 (-149) x.toModel.unpack

end Spreadsheet.Decimal
