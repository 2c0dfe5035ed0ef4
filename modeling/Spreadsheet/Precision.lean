/-! # Two widths of number
A formula is computed in double precision and a cell stores single precision. **Narrowing** rounds
a double to the nearest single, a tie going to the even significand and too large a magnitude to
infinity; **widening** is exact. Both are stated on the unpacked form (sign, significand,
exponent) of a number, so that they can be reasoned about, and so is rounding to a whole number.
There is one NaN of each width, so equality of numbers never distinguishes two NaNs. -/

namespace Spreadsheet

open Float.Model

/-- The single-precision number nearest to a double, a tie going to the even significand. -/
def narrow (x : Float) : Float32 :=
  .ofModel <| Float32.Model.pack <|
    match x.toModel.unpack with
    | .finite sign significand exponent _ => .round .binary32 sign significand exponent
    | special => special

/-- The double equal to a single-precision number. -/
def widen (x : Float32) : Float :=
  .ofModel <| Float.Model.pack <|
    match x.toModel.unpack with
    | .finite sign significand exponent _ => .round .binary64 sign significand exponent
    | special => special

/-- The whole number nearest to a double, a half going away from zero. The sign of zero is kept. -/
def roundHalfAway (x : Float) : Float :=
  .ofModel <| Float.Model.pack <|
    match x.toModel.unpack with
    | .finite sign significand (.negSucc k) _ =>
      .normalize .binary64 (sign.apply ((significand >>> k + 1) >>> 1 : Nat)) 0 sign
    | whole => whole

/-- The double NaN. -/
def nan : Float := .ofModel (Float.Model.pack .notANumber)

/-- The double positive infinity. -/
def infinity : Float := .ofModel (Float.Model.pack (.infinity .positive))

end Spreadsheet
