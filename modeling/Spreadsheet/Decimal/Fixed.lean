import Spreadsheet.Decimal.Layout

/-! # Fixed places
A number with a fixed count of digits after the point. The exact value is rounded to a whole
number of units of the last place, a half going as the caller asks, so every digit shown is
correct however large the number is. -/

namespace Spreadsheet.Decimal

/-- The natural number nearest to `num / den`. -/
def roundDiv (num den : Nat) (tie : Tie) : Nat :=
  let below := num / den
  match compare (2 * (num % den)) den with
  | .lt => below
  | .gt => below + 1
  | .eq => match tie with
    | .up => below + 1
    | .toEven => if below % 2 = 0 then below else below + 1

/-- A natural number of units of the last of `places` digits after the point. -/
def withPoint (places units : Nat) : List Char :=
  let ds := digits units
  let padded := List.replicate (places + 1 - ds.length) '0' ++ ds
  padded.take (padded.length - places) ++ '.' :: padded.drop (padded.length - places)

open Float.Model in
/-- A finite number with `places` digits after the point, a half going to the even neighbour;
NaN and the infinities as in the plain layout. -/
def fixed (places : Nat) (x : Float) : String :=
  match x.toModel.unpack with
  | .finite sign significand exponent _ =>
    let units := roundDiv (significand * Nat.pow 2 exponent.toNat * Nat.pow 10 places)
      (Nat.pow 2 (-exponent).toNat) .toEven
    Layout.signed (sign == .negative) (withPoint places units)
  | .zero sign => Layout.signed (sign == .negative) (withPoint places 0)
  | _ => plain.render (.ofDouble x)

end Spreadsheet.Decimal
