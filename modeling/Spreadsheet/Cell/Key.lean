import Spreadsheet.Decimal.Numeral

/-! # Cell keys
A **cell key** is one or more letters `A` to `Z` followed by one or more digits. Its **position**
is the column of its first letter and the row its digits count from one, so further letters and
leading zeros change the spelling of a key and not its position. The **canonical** key of a
position has one letter and no leading zero; a key with two or more letters is an **alias** of the
canonical key of its position. -/

namespace Spreadsheet

/-- A column and a row of a grid, both counted from zero. -/
structure Position where
  /-- The column. -/
  column : Nat
  /-- The row. -/
  row : Nat
  deriving Repr, DecidableEq

namespace Key

/-- The greatest number of rows and columns that can be addressed is below this bound. -/
def wordBound : Nat := Nat.pow 2 64

/-- Whether a character can be a column letter. -/
def isLetter (c : Char) : Bool := 'A' ≤ c && c ≤ 'Z'

/-- The letters and the digits of a cell key; `none` if the text is no cell key. -/
def parts? (text : List Char) : Option (List Char × List Char) :=
  let letters := text.takeWhile isLetter
  let number := text.dropWhile isLetter
  if letters.isEmpty || number.isEmpty || !number.all Char.isDigit then none
  else some (letters, number)

/-- Whether a text is a cell key. -/
def isKey (text : List Char) : Bool := (parts? text).isSome

/-- The row that digits counting from one denote: there is no row 0, and a row number is below
`2 ^ 64`. -/
def row? (number : List Char) : Option Nat :=
  match Decimal.word? 10 number with
  | some (n + 1) => some n
  | _ => none

/-- The position of a cell key. -/
def position? (key : String) : Option Position :=
  match parts? key.toList with
  | some (first :: _, number) =>
    (row? number).map fun row => ⟨first.toNat - 'A'.toNat, row⟩
  | _ => none

/-- The canonical key of a position; there is none from the 27th column on. -/
def ofPosition? (p : Position) : Option String :=
  if p.column < 26 then
    some (String.ofList (Char.ofNat ('A'.toNat + p.column) :: (Nat.repr (p.row + 1)).toList))
  else none

/-- The canonical key that a key of two or more letters shares its position with. -/
def alias? (key : String) : Option String :=
  match parts? key.toList with
  | some (_ :: _ :: _, _) => (position? key).bind ofPosition?
  | _ => none

/-- A text has parts exactly when it is a cell key. -/
theorem isKey_iff {text : List Char} :
    isKey text = true ↔ ∃ ls ds, parts? text = some (ls, ds) := by
  simp [isKey, Option.isSome_iff_exists]

end Key

end Spreadsheet
