import Spreadsheet.Decimal.Numeral
import Spreadsheet.Yaml.Source

/-! # Tags
A **tag** names the kind of a node. In a document it is written in full, or as a **handle** that
directives give a meaning and a **suffix**; octets that a tag may not hold as characters are
written as a percent sign and two hexadecimal digits. A tag that begins with an exclamation mark is
**local** to the document and is kept as part of the value, even if it is the mark alone. -/

namespace Spreadsheet.Yaml

/-- A tag, as the octets of its text. -/
structure Tag where
  /-- The octets of its text. -/
  octets : List UInt8
  deriving Repr, DecidableEq

namespace Tag

/-- The octets of a text. -/
def octetsOf (text : String) : List UInt8 := text.toUTF8.toList

/-- The tag of a text. -/
def ofText (text : String) : Tag := ⟨octetsOf text⟩

/-- The octet of an exclamation mark. -/
def mark : UInt8 := 0x21

/-- Whether a tag belongs to the document alone. -/
def isLocal (t : Tag) : Bool := t.octets.head? == some mark

/-- A name without the exclamation mark in front, unless nothing else is left. -/
def unmarked (octets : List UInt8) : List UInt8 :=
  match octets with
  | first :: second :: rest => if first = mark then second :: rest else octets
  | short => short

/-- The name of a local tag, if it is text. -/
def localName? (t : Tag) : Option String :=
  if t.isLocal then String.fromUTF8? ⟨(unmarked (unmarked t.octets)).toArray⟩ else none

/-- What the handle with two exclamation marks stands for, unless a directive says otherwise. -/
def core : String := "tag:yaml.org,2002:"

/-- The tag of truth values. -/
def bool : Tag := ofText (core ++ "bool")

/-- The tag of integers. -/
def int : Tag := ofText (core ++ "int")

/-- The tag of floating-point numbers. -/
def float : Tag := ofText (core ++ "float")

/-- The tag of the null value. -/
def null : Tag := ofText (core ++ "null")

/-- The octets that must follow a first octet of a character; `none` if no character has it. -/
def following? (octet : Nat) : Option Nat :=
  if octet < 0x80 then some 0
  else if octet / 0x20 = 0x06 then some 1
  else if octet / 0x10 = 0x0E then some 2
  else if octet / 0x08 = 0x1E then some 3
  else none

/-- Whether a character may occur in a tag as it is. In a tag written in full a few more may. -/
def isTagChar (full : Bool) (c : Char) : Bool :=
  isNameChar c || ";/?:@&=+$.!~*'()".toList.contains c || full && ",[]".toList.contains c

/-- The octets of the tag characters in front of a source, and the rest. So many escaped octets are
due to complete a character. -/
def readOctets (full : Bool) (due : Nat) : Source → Option (List UInt8 × Source)
  | [] => if due = 0 then some ([], []) else none
  | g :: rest =>
    if g.char = '%' then
      match rest with
      | high :: low :: rest => do
        let octet ← Decimal.natural? 16 [high.char, low.char]
        let due ← if due = 0 then following? octet
          else if octet / 0x40 = 2 then some (due - 1) else none
        let (more, rest) ← readOctets full due rest
        return (octet.toUInt8 :: more, rest)
      | _ => none
    else if due ≠ 0 then none
    else if isTagChar full g.char then do
      let (more, rest) ← readOctets full 0 rest
      return (g.char.toNat.toUInt8 :: more, rest)
    else some ([], g :: rest)

/-- One or more tag characters in front of a source, and the rest; what follows a zero octet is
dropped. -/
def readSuffix (full : Bool) (source : Source) : Option (List UInt8 × Source) := do
  let (octets, rest) ← readOctets full 0 source
  if octets.isEmpty then none else some (octets.takeWhile (· ≠ 0), rest)

/-- The handle and the suffix of a tag after its exclamation mark, and the rest. A tag written in
full has no handle, and neither has the lone exclamation mark. -/
def read (source : Source) : Option ((String × List UInt8) × Source) :=
  let (name, after) := takeName source
  let short : Option ((String × List UInt8) × Source) := do
    let (more, rest) ← readOctets false 0 after
    let suffix := octetsOf name ++ more.takeWhile (· ≠ 0)
    return (if suffix.isEmpty then ("", [mark]) else ("!", suffix), rest)
  match source, after with
  | first :: rest, second :: more =>
    if first.char = '<' then do
      let (suffix, rest) ← readSuffix true rest
      match rest with
      | g :: rest => if g.char = '>' then some (("", suffix), rest) else none
      | [] => none
    else if second.char = '!' then do
      let (suffix, rest) ← readSuffix false more
      return ((s!"!{name}!", suffix), rest)
    else short
  | _, _ => short

end Tag

end Spreadsheet.Yaml
