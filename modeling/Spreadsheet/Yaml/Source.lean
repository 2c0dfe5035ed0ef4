/-! # Sources of YAML documents
A **source** is a text as the rules of YAML see it: a list of **glyphs**, each with the place where
it stands: its line, its column, which counts characters, and its index, which counts octets. A
line break of any spelling is one glyph. The characters that may occur at all are fixed; a **byte
order mark** may start any line and takes up a column of it. -/

namespace Spreadsheet.Yaml

/-- A character or line break with its place. -/
structure Glyph where
  /-- The character; most line breaks are `\n`. -/
  char : Char
  /-- The number of line breaks before it. -/
  line : Nat
  /-- The number of characters before it in its line. -/
  column : Nat
  /-- The number of octets before it in the whole text. -/
  index : Nat
  deriving Repr, DecidableEq

/-- What is left of a text. -/
abbrev Source := List Glyph

/-- Whether a character may occur in a document. -/
def isAllowed (c : Char) : Bool :=
  c = '\t' || c = '\n' || c = '\r' || (' ' ≤ c && c ≤ '~') || c = '\u0085' ||
    ('\u00A0' ≤ c && c ≤ '\uFFFD') || '\uFFFF' < c

/-- Whether a glyph is a line break: the line and paragraph separators stand for themselves. -/
def isBreak (c : Char) : Bool := c = '\n' || c = '\u2028' || c = '\u2029'

/-- Whether a glyph is a space or a tab. -/
def isBlank (c : Char) : Bool := c = ' ' || c = '\t'

/-- A text from a place on. A carriage return, a line feed, both together and the next-line
character are the same break. -/
def Source.place (line column index : Nat) : List Char → Source
  | [] => []
  | '\r' :: '\n' :: rest => ⟨'\n', line, column, index⟩ :: place (line + 1) 0 (index + 2) rest
  | c :: rest =>
    let shown := if c = '\r' ∨ c = '\u0085' then '\n' else c
    let after := if isBreak shown then (line + 1, 0) else (line, column + 1)
    ⟨shown, line, column, index⟩ :: place after.1 after.2 (index + c.utf8Size) rest

/-- The source of a text; `none` if it has a character that may not occur. -/
def Source.ofText? (text : String) : Option Source :=
  if text.toList.all isAllowed then some (place 0 0 0 text.toList) else none

/-- Whether a glyph is a byte order mark at the start of a line. -/
def Glyph.isOrderMark (g : Glyph) : Bool := g.char = '\uFEFF' && g.column = 0

/-- Whether a blank, a line break or nothing comes next. -/
def endsWord : Source → Bool
  | [] => true
  | g :: _ => isBlank g.char || isBreak g.char

/-- Whether a line break or nothing comes next. -/
def endsLine : Source → Bool
  | [] => true
  | g :: _ => isBreak g.char

/-- The character of a document mark, which is three hyphens or three full stops at the start of a
line as a word of their own. -/
def documentMark? : Source → Option Char
  | a :: b :: c :: rest =>
    if a.column = 0 ∧ (a.char = '-' ∨ a.char = '.') ∧ a.char = b.char ∧ b.char = c.char ∧
        endsWord rest then
      some a.char
    else none
  | _ => none

/-- A source without the blanks in front. -/
def skipBlanks (source : Source) : Source := source.dropWhile fun g => isBlank g.char

/-- A source from the end of its line on. -/
def skipLine (source : Source) : Source := source.dropWhile fun g => !isBreak g.char

/-- A source after the blanks, the comment and the line break that may end a line; `none` if there
is anything else on the line. -/
def endLine? (source : Source) : Option Source :=
  let source := match skipBlanks source with
    | g :: rest => if g.char = '#' then skipLine rest else g :: rest
    | [] => []
  if endsLine source then some (source.drop 1) else none

/-- Whether a character may occur in the name of an anchor, a directive or a tag handle. -/
def isNameChar (c : Char) : Bool := c.isAlphanum || c = '-' || c = '_'

/-- The longest name in front of a source, which may be empty, and the rest. -/
def takeName (source : Source) : String × Source :=
  (String.ofList ((source.takeWhile fun g => isNameChar g.char).map (·.char)),
    source.dropWhile fun g => isNameChar g.char)

end Spreadsheet.Yaml
