import Spreadsheet.Decimal.Numeral
import Spreadsheet.Json.Basic

/-! # Reading JSON
A reader takes a value off the front of a text and gives the **rest**. Numbers are read the way of
a fast reader that keeps a 64-bit significand: digits that no longer fit are dropped and only
counted, and the significand is scaled by a power of ten in double precision, so the result can
differ from the nearest double in the last place; a number too large for a double is refused.
Nesting is limited: `parse?` accepts at most 127 arrays and objects inside one another. -/

namespace Spreadsheet.Json

/-- Whether a character may stand between the parts of a JSON text. -/
def isSpace (c : Char) : Bool := c = ' ' || c = '\n' || c = '\t' || c = '\r'

/-- A text without the spaces in front. -/
def skipSpace (text : List Char) : List Char := text.dropWhile isSpace

/-! ## Strings -/

/-- The character that an escape of one letter stands for. -/
def unescape? (c : Char) : Option Char :=
  if c = '\x22' ∨ c = '\\' ∨ c = '/' then some c
  else if c = 'b' then some '\x08'
  else if c = 'f' then some '\x0c'
  else if c = 'n' then some '\n'
  else if c = 'r' then some '\r'
  else if c = 't' then some '\t'
  else none

/-- The number of four hexadecimal digits. -/
def codeUnit? (a b c d : Char) : Option Nat := Decimal.natural? 16 [a, b, c, d]

/-- The rest of a string after its opening quote, and the text after its closing quote. Characters
above `U+FFFF` are escaped as two halves, which may not stand alone. -/
def readString : List Char → Option (List Char × List Char)
  | [] => none
  | '\x22' :: rest => some ([], rest)
  | '\\' :: 'u' :: a :: b :: c :: d :: rest => do
    let unit ← codeUnit? a b c d
    if 0xD800 ≤ unit ∧ unit < 0xDC00 then
      match rest with
      | '\\' :: 'u' :: e :: f :: g :: h :: rest =>
        let low ← codeUnit? e f g h
        if 0xDC00 ≤ low ∧ low < 0xE000 then
          let (text, rest) ← readString rest
          return (Char.ofNat (0x10000 + (unit - 0xD800) * 0x400 + (low - 0xDC00)) :: text, rest)
        else none
      | _ => none
    else if 0xDC00 ≤ unit ∧ unit < 0xE000 then none
    else
      let (text, rest) ← readString rest
      return (Char.ofNat unit :: text, rest)
  | '\\' :: c :: rest => do
    let x ← unescape? c
    let (text, rest) ← readString rest
    return (x :: text, rest)
  | c :: rest =>
    if c.toNat < 0x20 then none
    else do
      let (text, rest) ← readString rest
      return (c :: text, rest)

/-! ## Numbers -/

/-- Appends digits to a 64-bit significand for as long as it does not overflow; the digits from the
first that does not fit are left. -/
def accumulate (significand : Nat) : List Char → Nat × List Char
  | [] => (significand, [])
  | c :: rest =>
    let longer := significand * 10 + (c.toNat - '0'.toNat)
    if longer < Nat.pow 2 64 then accumulate longer rest else (significand, c :: rest)

/-- A power of ten as a double. -/
def powerOfTen (k : Nat) : Float := .ofScientific 1 false k

/-- A double divided by a power of ten, in steps that doubles can express. -/
def divideByPower (x : Float) (k : Nat) : Float :=
  if k ≤ 308 then x / powerOfTen k
  else if x == 0 then x
  else divideByPower (x / powerOfTen 308) (k - 308)
termination_by k

/-- A significand scaled by a power of ten; `none` if the result is too large for a double. -/
def scale? (significand : Nat) : Int → Option Float
  | .ofNat k =>
    let x := Float.ofNat significand
    if k ≤ 308 then
      let y := x * powerOfTen k
      if y.isInf then none else some y
    else if significand = 0 then some x
    else none
  | .negSucc k => some (divideByPower (Float.ofNat significand) (k + 1))

/-- The power of ten after the digits of a number, and the rest; 0 if there is none. -/
def readExponent (text : List Char) : Option (Option Int × List Char) :=
  match text with
  | mark :: rest =>
    if mark = 'e' ∨ mark = 'E' then
      let (negative, rest) := match rest with
        | '+' :: rest => (false, rest)
        | '-' :: rest => (true, rest)
        | rest => (false, rest)
      match Decimal.natural? 10 (rest.takeWhile Char.isDigit) with
      | some n => some (some (if negative then -Int.ofNat n else n), rest.dropWhile Char.isDigit)
      | none => none
    else some (none, text)
  | [] => some (none, text)

/-- The digits after the point of a number, if there is a point, and the rest. There is at least
one digit after a point. -/
def readFraction : List Char → Option (Option (List Char) × List Char)
  | '.' :: rest =>
    let fraction := rest.takeWhile Char.isDigit
    if fraction.isEmpty then none else some (some fraction, rest.dropWhile Char.isDigit)
  | rest => some (none, rest)

/-- A number of the given sign whose digits are at the front of a text, and the rest. -/
def readUnsigned (negative : Bool) (text : List Char) : Option (Json × List Char) := do
  let whole := text.takeWhile Char.isDigit
  match whole with
  | [] => none
  | '0' :: _ :: _ => none
  | _ =>
    let (significand, dropped) := accumulate 0 whole
    let (fraction, rest) ← readFraction (text.dropWhile Char.isDigit)
    let (power, rest) ← readExponent rest
    if dropped.isEmpty ∧ fraction.isNone ∧ power.isNone then
      let value := if negative then double (-Float.ofNat significand) else nat significand
      return (value, rest)
    else
      let digits := fraction.getD []
      let (significand, lost) := accumulate significand digits
      let exponent := dropped.length - (digits.length - lost.length : Nat) + power.getD 0
      let x ← scale? significand exponent
      return (double (if negative then -x else x), rest)

/-- A number at the front of a text, and the rest. -/
def readNumber : List Char → Option (Json × List Char)
  | '-' :: rest => readUnsigned true rest
  | text => readUnsigned false text

/-! ## Values -/

/-- One or more items with commas between them, the closing character, and the rest. The count
bounds the number of items. -/
def readItems {α : Type} (item : List Char → Option (α × List Char)) (close : Char) :
    Nat → List Char → Option (List α × List Char)
  | 0, _ => none
  | n + 1, text => do
    let (a, rest) ← item text
    match skipSpace rest with
    | ',' :: rest =>
      let (more, rest) ← readItems item close n rest
      return (a :: more, rest)
    | c :: rest => if c = close then some ([a], rest) else none
    | [] => none

/-- The items of an array or object after its opening character, and the text after the closing
one. -/
def readBody {α : Type} (item : List Char → Option (α × List Char)) (close : Char)
    (text : List Char) : Option (List α × List Char) :=
  match skipSpace text with
  | c :: rest =>
    if c = close then some ([], rest) else readItems item close (text.length + 1) text
  | [] => none

/-- A name in quotes, a colon and a value, and the rest. -/
def readField (value : List Char → Option (Json × List Char)) (text : List Char) :
    Option ((String × Json) × List Char) :=
  match skipSpace text with
  | '\x22' :: rest => do
    let (name, rest) ← readString rest
    match skipSpace rest with
    | ':' :: rest =>
      let (v, rest) ← value rest
      return ((String.ofList name, v), rest)
    | _ => none
  | _ => none

/-- A value that is neither an array nor an object, and the rest. -/
def readLeaf : List Char → Option (Json × List Char)
  | 'n' :: 'u' :: 'l' :: 'l' :: rest => some (null, rest)
  | 't' :: 'r' :: 'u' :: 'e' :: rest => some (bool true, rest)
  | 'f' :: 'a' :: 'l' :: 's' :: 'e' :: rest => some (bool false, rest)
  | '\x22' :: rest => (readString rest).map fun (text, rest) => (string (String.ofList text), rest)
  | text => readNumber text

/-- A value with at most so many arrays and objects inside one another, and the rest. -/
def read : Nat → List Char → Option (Json × List Char)
  | 0, text =>
    match skipSpace text with
    | '[' :: _ => none
    | '{' :: _ => none
    | text => readLeaf text
  | depth + 1, text =>
    match skipSpace text with
    | '[' :: rest => (readBody (read depth) ']' rest).map fun (items, rest) => (array items, rest)
    | '{' :: rest =>
      (readBody (readField (read depth)) '}' rest).map fun (fields, rest) => (object fields, rest)
    | text => readLeaf text

/-- The value that a whole text stands for. -/
def parse? (text : String) : Option Json :=
  match read 127 text.toList with
  | some (value, rest) => if (skipSpace rest).isEmpty then some value else none
  | none => none

end Spreadsheet.Json
