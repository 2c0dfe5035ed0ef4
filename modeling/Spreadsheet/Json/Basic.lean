import Spreadsheet.Decimal.Layout

/-! # JSON values
A **JSON value** as this library writes and reads it. Numbers keep the width in which they are
held: naturals are written without a point, doubles and single-precision numbers in their shortest
digits. The fields of an object are a list, so their order and repeated names are kept.

`write` puts a value in front of a text in the **compact** form, without blanks; `writePretty` does
so in the **pretty** form, with one item or field per line and two blanks per level. -/

namespace Spreadsheet

/-- A JSON value. -/
inductive Json where
  /-- The value `null`. -/
  | null
  /-- A truth value. -/
  | bool (b : Bool)
  /-- A natural number. -/
  | nat (n : Nat)
  /-- A number in double precision. -/
  | double (x : Float)
  /-- A number in single precision. -/
  | single (x : Float32)
  /-- A text. -/
  | string (s : String)
  /-- A list of values. -/
  | array (items : List Json)
  /-- A list of named values. -/
  | object (fields : List (String × Json))

namespace Json

/-- The hexadecimal digit of a number below 16. -/
def hexDigit (n : Nat) : Char := (Nat.digitChar n)

/-- A character inside quotes: quotes, backslashes and control characters are escaped. -/
def escape (c : Char) : List Char :=
  if c = '\x22' then ['\\', '\x22']
  else if c = '\\' then ['\\', '\\']
  else if c = '\x08' then ['\\', 'b']
  else if c = '\t' then ['\\', 't']
  else if c = '\n' then ['\\', 'n']
  else if c = '\x0c' then ['\\', 'f']
  else if c = '\r' then ['\\', 'r']
  else if c.toNat < 0x20 then
    ['\\', 'u', '0', '0', hexDigit (c.toNat / 16), hexDigit (c.toNat % 16)]
  else [c]

/-- A text in quotes, in front of another text. -/
def quote (text rest : List Char) : List Char :=
  '\x22' :: text.foldr (fun c more => escape c ++ more) ('\x22' :: rest)

/-- A value that is neither an array nor an object. -/
def leaf : Json → List Char
  | null => "null".toList
  | bool true => "true".toList
  | bool false => "false".toList
  | nat n => Decimal.digits n
  | double x => (Decimal.jsonDouble.render (.ofDouble x)).toList
  | single x => (Decimal.jsonSingle.render (.ofSingle x)).toList
  | string s => quote s.toList []
  | array _ | object _ => []

mutual

/-- A value in compact form, in front of a text. -/
def write : Json → List Char → List Char
  | array items, rest => '[' :: writeItems items (']' :: rest)
  | object fields, rest => '{' :: writeFields fields ('}' :: rest)
  | value, rest => value.leaf ++ rest

/-- Values with commas between them, in front of a text. -/
def writeItems : List Json → List Char → List Char
  | [], rest => rest
  | [item], rest => item.write rest
  | item :: more, rest => item.write (',' :: writeItems more rest)

/-- Named values with commas between them, in front of a text. -/
def writeFields : List (String × Json) → List Char → List Char
  | [], rest => rest
  | [(name, value)], rest => quote name.toList (':' :: value.write rest)
  | (name, value) :: more, rest =>
    quote name.toList (':' :: value.write (',' :: writeFields more rest))

end

/-- A line break and the blanks of a level, in front of a text. -/
def newLine (level : Nat) (rest : List Char) : List Char :=
  '\n' :: (List.replicate (2 * level) ' ' ++ rest)

mutual

/-- A value at a level of the pretty form, in front of a text. -/
def writePretty : Json → Nat → List Char → List Char
  | array [], _, rest => '[' :: ']' :: rest
  | array items, level, rest =>
    '[' :: writePrettyItems items (level + 1) (newLine level (']' :: rest))
  | object [], _, rest => '{' :: '}' :: rest
  | object fields, level, rest =>
    '{' :: writePrettyFields fields (level + 1) (newLine level ('}' :: rest))
  | value, _, rest => value.leaf ++ rest

/-- Values on lines of their own, in front of a text. -/
def writePrettyItems : List Json → Nat → List Char → List Char
  | [], _, rest => rest
  | [item], level, rest => newLine level (item.writePretty level rest)
  | item :: more, level, rest =>
    newLine level (item.writePretty level (',' :: writePrettyItems more level rest))

/-- Named values on lines of their own, in front of a text. -/
def writePrettyFields : List (String × Json) → Nat → List Char → List Char
  | [], _, rest => rest
  | [(name, value)], level, rest =>
    newLine level (quote name.toList (':' :: ' ' :: value.writePretty level rest))
  | (name, value) :: more, level, rest =>
    newLine level (quote name.toList
      (':' :: ' ' :: value.writePretty level (',' :: writePrettyFields more level rest)))

end

/-- The compact text of a value. -/
def text (value : Json) : String := String.ofList (value.write [])

/-- The pretty text of a value. -/
def prettyText (value : Json) : String := String.ofList (value.writePretty 0 [])

/-- A text, or `null` for none. -/
def ofOption {α : Type} (f : α → Json) : Option α → Json
  | some a => f a
  | none => null

/-- A list of texts. -/
def strings (ss : List String) : Json := array (ss.map string)

/-- An object with one field per key of a map, in key order. -/
def ofPairs {α : Type} (f : α → Json) (pairs : List (String × α)) : Json :=
  object (pairs.map fun (key, a) => (key, f a))

end Json

end Spreadsheet
