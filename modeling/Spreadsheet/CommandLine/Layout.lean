import Spreadsheet.Cell.Key
import Spreadsheet.Decimal.Fixed
import Spreadsheet.Engine.Report

/-! # Layout of what is printed
How the command writes numbers and columns. A number is rounded to six places, and the zeros that
end it are left out. -/

namespace Spreadsheet.CommandLine

/-- A text without the given character at its end. -/
def dropTrailing (c : Char) (text : List Char) : List Char :=
  (text.reverse.dropWhile (· = c)).reverse

/-- A number rounded to six places, a half going away from zero. -/
def roundMillionth (x : Float) : Float := roundHalfAway (x * 1000000) / 1000000

/-- The text of a number; one that is not finite is written as a cell shows it. -/
def numberText (x : Float) : String :=
  if x.isFinite then
    String.ofList
      (dropTrailing '.' (dropTrailing '0' (Decimal.fixed 6 (roundMillionth x)).toList))
  else cellText (narrow x)

/-- A text filled up with spaces on its left. -/
def alignRight (width : Nat) (text : String) : String :=
  String.ofList (List.replicate (width - text.length) ' ' ++ text.toList)

/-- The letter of a column; there is none from the 27th column on. -/
def columnLabel (column : Nat) : String :=
  match Key.ofPosition? ⟨column, 0⟩ with
  | some key => String.ofList (key.toList.take 1)
  | none => "?"

/-- A row of the printed grid: its label and its entries, each in ten columns. -/
def gridLine (label : String) (entries : List String) : String :=
  let row := String.join (entries.map (alignRight 10))
  s!"   {alignRight 4 label} {row}"

end Spreadsheet.CommandLine
