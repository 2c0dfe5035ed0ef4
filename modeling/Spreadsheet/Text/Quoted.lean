import Spreadsheet.Text.Printable

/-! # Quoted texts
A text **quoted** for a person to read exactly: between double quotes, with quotes and backslashes
escaped and every character that is not printable written as an escape. -/

namespace Spreadsheet.Text

/-- A character between quotes. -/
def escape (c : Char) : List Char :=
  if c = '\x22' ∨ c = '\\' then ['\\', c]
  else if c = '\n' then ['\\', 'n']
  else if c = '\r' then ['\\', 'r']
  else if c = '\t' then ['\\', 't']
  else if c = '\x00' then ['\\', '0']
  else if isPrintable c then [c]
  else '\\' :: 'u' :: '{' :: (Nat.toDigits 16 c.toNat ++ ['}'])

/-- A text between quotes. -/
def quoted (text : String) : String :=
  String.ofList ('\x22' :: text.toList.flatMap escape ++ ['\x22'])

end Spreadsheet.Text
