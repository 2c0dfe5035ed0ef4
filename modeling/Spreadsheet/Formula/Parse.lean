import Spreadsheet.Text.Blank
import Spreadsheet.Decimal.Numeral
import Spreadsheet.Formula.Basic

/-! # Reading formulas
The text of a formula is **cut** at every operation symbol; there are no parentheses, signs or
precedences. The pieces between the cuts, without the blanks around them, are its **operands**, and
the operations apply strictly from left to right. Every text is a formula: an operand that is
neither a cell key nor a number is kept as an unknown one, the empty operand included. -/

namespace Spreadsheet.Formula

/-- The piece of a text before its first operation symbol, and each symbol with the piece after
it. -/
def cut : List Char → List Char × List (Operation × List Char)
  | [] => ([], [])
  | c :: rest =>
    let (piece, more) := cut rest
    match Operation.ofSymbol? c with
    | some op => ([], (op, piece) :: more)
    | none => (c :: piece, more)

/-- The radix that the letter after a leading zero announces. -/
def radix? (c : Char) : Option Nat :=
  if c = 'x' ∨ c = 'X' then some 16
  else if c = 'o' ∨ c = 'O' then some 8
  else if c = 'b' ∨ c = 'B' then some 2
  else none

/-- The number that an operand denotes: the word `Infinity`, a radix numeral below `2 ^ 64` after
`0x`, `0o` or `0b`, or an unsigned decimal numeral. -/
def number? (operand : List Char) : Option Float :=
  if operand = "Infinity".toList then some infinity
  else match operand with
    | '0' :: c :: digits =>
      match radix? c with
      | some radix => (Decimal.word? radix digits).map Float.ofNat
      | none => Decimal.unsigned? operand
    | _ => Decimal.unsigned? operand

/-- The leaf that an operand stands for. -/
def ofOperand (operand : List Char) : Formula :=
  if Key.isKey operand then reference (String.ofList operand)
  else match number? operand with
    | some value => literal value
    | none => unknown (String.ofList operand)

/-- The leaf that a piece between two cuts stands for. -/
def ofPiece (piece : List Char) : Formula := ofOperand (Text.trim piece)

/-- The formula that a text stands for. -/
def parse (text : String) : Formula :=
  let (first, more) := cut text.toList
  more.foldl (fun left (op, piece) => operation op left (ofPiece piece)) (ofPiece first)

/-- There is one cut per operation symbol. -/
theorem map_fst_cut (text : List Char) :
    (cut text).2.map (·.1) = text.filterMap Operation.ofSymbol? := by
  induction text with
  | nil => rfl
  | cons c rest ih =>
    simp only [cut, List.filterMap_cons]
    split <;> simp_all

end Spreadsheet.Formula
