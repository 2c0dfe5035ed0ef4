import Spreadsheet.Decimal.Numeral
import Spreadsheet.Yaml.Source

/-! # Scalars of YAML documents
The text of a scalar in each of its forms. Plain and quoted scalars **fold** a **gap** of blanks and
line breaks between two words: within a line it is kept, a single break becomes a space, and of
several breaks all but the first are kept. Scalars in block form keep or fold whole lines. Each
reader gives the text and the rest of the source, and `none` if the scalar is malformed. -/

namespace Spreadsheet.Yaml

/-! ## Gaps -/

/-- Blanks and line breaks inside a scalar. -/
structure Gap where
  /-- The blanks before the first break. -/
  blanks : List Char
  /-- The breaks. -/
  breaks : List Char
  /-- Whether an escaped break comes first. -/
  escaped : Bool
  deriving Repr, DecidableEq

namespace Gap

/-- No gap. -/
def none : Gap := ⟨[], [], false⟩

/-- The gap after an escaped break. -/
def afterEscape : Gap := ⟨[], [], true⟩

/-- Whether a gap reaches into a new line. -/
def isBroken (g : Gap) : Bool := g.escaped || !g.breaks.isEmpty

/-- Whether there is no gap. -/
def isNone (g : Gap) : Bool := g.blanks.isEmpty && !g.isBroken

/-- A gap with one more blank or break. Blanks at the start of a line do not count. -/
def push (g : Gap) (c : Char) : Gap :=
  if isBreak c then { g with breaks := g.breaks ++ [c] }
  else if g.isBroken then g
  else { g with blanks := g.blanks ++ [c] }

/-- What a gap stands for. -/
def folded (g : Gap) : List Char :=
  if g.escaped then g.breaks
  else match g.breaks with
    | [] => g.blanks
    | ['\n'] => [' ']
    | '\n' :: more => more
    | breaks => breaks

end Gap

/-! ## Plain scalars -/

/-- Whether a character sets off items inside brackets. -/
def isFlowIndicator (c : Char) : Bool := ",[]\x7b\x7d".toList.contains c

/-- Whether a colon is followed by a character that may not follow it inside brackets. -/
def isBadColon (c : Char) (rest : Source) : Bool :=
  c = ':' && match rest with
    | next :: _ => next.char = '?' || isFlowIndicator next.char
    | [] => false

/-- A plain scalar after a gap: its text, the gap behind it and the rest. Outside brackets it goes
on in the lines that are indented up to the given column, which may not be reached with tabs. -/
def readPlain (flow : Bool) (column : Nat) (gap : Gap) :
    Source → Option (List Char × Gap × Source)
  | [] => some ([], gap, [])
  | g :: rest =>
    if isBlank g.char ∧ gap.isBroken ∧ g.column < column ∧ g.char = '\t' then none
    else if isBlank g.char ∨ isBreak g.char then readPlain flow column (gap.push g.char) rest
    else if !gap.isNone ∧ (!flow ∧ g.column < column ∨ g.char = '#') ∨
        (documentMark? (g :: rest)).isSome then
      some ([], gap, g :: rest)
    else if flow ∧ isBadColon g.char rest then none
    else if g.char = ':' ∧ endsWord rest ∨ flow ∧ isFlowIndicator g.char then
      some ([], gap, g :: rest)
    else do
      let (text, last, rest) ← readPlain flow column .none rest
      return (gap.folded ++ g.char :: text, last, rest)

/-! ## Quoted scalars -/

/-- A scalar in single quotes after the opening quote and a gap. A quote is written twice. -/
def readSingleQuoted (gap : Gap) : Source → Option (List Char × Source)
  | [] => none
  | g :: rest =>
    if isBlank g.char ∨ isBreak g.char then readSingleQuoted (gap.push g.char) rest
    else if (documentMark? (g :: rest)).isSome then none
    else if g.char = '\'' then
      match rest with
      | next :: more =>
        if next.char = '\'' then do
          let (text, rest) ← readSingleQuoted .none more
          return (gap.folded ++ '\'' :: text, rest)
        else some (gap.folded, rest)
      | [] => some (gap.folded, [])
    else do
      let (text, rest) ← readSingleQuoted .none rest
      return (gap.folded ++ g.char :: text, rest)

/-- The character that an escape of one letter stands for. -/
def unescape? : Char → Option Char
  | '0' => some '\x00'
  | 'a' => some '\x07'
  | 'b' => some '\x08'
  | 't' => some '\t'
  | '\t' => some '\t'
  | 'n' => some '\n'
  | 'v' => some '\x0B'
  | 'f' => some '\x0C'
  | 'r' => some '\r'
  | 'e' => some '\x1B'
  | ' ' => some ' '
  | '\x22' => some '\x22'
  | '/' => some '/'
  | '\\' => some '\\'
  | 'N' => some '\u0085'
  | '_' => some '\u00A0'
  | 'L' => some '\u2028'
  | 'P' => some '\u2029'
  | _ => none

/-- The character with the code that hexadecimal digits denote. -/
def ofCode? (digits : List Glyph) : Option Char := do
  let code ← Decimal.natural? 16 (digits.map (·.char))
  if code < 0xD800 ∨ 0xDFFF < code ∧ code < 0x110000 then some (Char.ofNat code) else none

/-- A scalar in double quotes after the opening quote and a gap. -/
def readDoubleQuoted (gap : Gap) : Source → Option (List Char × Source)
  | [] => none
  | g :: rest =>
    if isBlank g.char ∨ isBreak g.char then readDoubleQuoted (gap.push g.char) rest
    else if (documentMark? (g :: rest)).isSome then none
    else if g.char = '\x22' then some (gap.folded, rest)
    else if g.char = '\\' then
      match rest with
      | [] => none
      | mark :: rest =>
        if isBreak mark.char then do
          let (text, rest) ← readDoubleQuoted .afterEscape rest
          return (gap.folded ++ text, rest)
        else
          match mark.char, rest with
          | 'x', a :: b :: rest => do
            let c ← ofCode? [a, b]
            let (text, rest) ← readDoubleQuoted .none rest
            return (gap.folded ++ c :: text, rest)
          | 'u', a :: b :: c :: d :: rest => do
            let c ← ofCode? [a, b, c, d]
            let (text, rest) ← readDoubleQuoted .none rest
            return (gap.folded ++ c :: text, rest)
          | 'U', a :: b :: c :: d :: e :: f :: g :: h :: rest => do
            let c ← ofCode? [a, b, c, d, e, f, g, h]
            let (text, rest) ← readDoubleQuoted .none rest
            return (gap.folded ++ c :: text, rest)
          | letter, rest => do
            let c ← unescape? letter
            let (text, rest) ← readDoubleQuoted .none rest
            return (gap.folded ++ c :: text, rest)
    else do
      let (text, rest) ← readDoubleQuoted .none rest
      return (gap.folded ++ g.char :: text, rest)

/-! ## Scalars in block form -/

/-- What happens to the line breaks at the end of a block. -/
inductive Chomping where
  /-- None is kept. -/
  | strip
  /-- The first is kept. -/
  | clip
  /-- All are kept. -/
  | keep
  deriving Repr, DecidableEq

/-- The breaks that are kept of the first and the further breaks at the end of a block. -/
def Chomping.tail (c : Chomping) (first more : List Char) : List Char :=
  match c with
  | strip => []
  | clip => first
  | keep => first ++ more

/-- The chomping that a character asks for. -/
def Chomping.ofChar? : Char → Option Chomping
  | '+' => some keep
  | '-' => some strip
  | _ => none

/-- The digit that gives the indentation of a block, if there is one, and the rest. Zero is no
indentation. -/
def readIndentation : Source → Option (Option Nat × Source)
  | [] => some (none, [])
  | g :: rest =>
    match Decimal.digit? 10 g.char with
    | some 0 => none
    | some n => some (some n, rest)
    | none => some (none, g :: rest)

/-- The chomping that a source asks for, if it does, and the rest. -/
def readChomping : Source → Option Chomping × Source
  | [] => (none, [])
  | g :: rest =>
    match Chomping.ofChar? g.char with
    | some c => (some c, rest)
    | none => (none, g :: rest)

/-- The chomping and the indentation in the first line of a block, which come in either order, and
the source from the next line on. -/
def readBlockHeader (source : Source) : Option ((Chomping × Option Nat) × Source) := do
  let (early, source) := readChomping source
  let (indentation, source) ← readIndentation source
  let (chomping, source) := match early with
    | some c => (some c, source)
    | none => if indentation.isSome then readChomping source else (none, source)
  let source ← endLine? source
  return ((chomping.getD .clip, indentation), source)

/-- The breaks of the empty lines before the first line of a block, the greatest column that is
reached by spaces alone, and the rest. -/
def findIndentation (widest : Nat) : Source → Option (List Char × Nat × Source)
  | [] => some ([], widest, [])
  | g :: rest =>
    if g.char = ' ' then findIndentation widest rest
    else if g.char = '\t' then none
    else if isBreak g.char then do
      let (breaks, widest, rest) ← findIndentation (max widest g.column) rest
      return (g.char :: breaks, widest, rest)
    else some ([], max widest g.column, g :: rest)

/-- What joins two lines of a block: the break between them and those of empty lines. A folded
block puts a space for the break, or nothing if there are empty lines, unless one of the lines
begins with a blank. -/
def joinLines (fold : Bool) (first more : List Char) (blankBefore blankAfter : Bool) : List Char :=
  if fold && first == ['\n'] && !blankBefore && !blankAfter then
    if more.isEmpty then [' '] else more
  else first ++ more

/-- How the lines of a block are read. -/
structure BlockStyle where
  /-- Whether lines are folded. -/
  fold : Bool
  /-- What becomes of the last breaks. -/
  chomping : Chomping
  /-- The column in which the lines start. -/
  column : Nat

/-- A block from inside a line (`inside`) or from the start of a line on, and the rest. Before the
start of a line come the break that ended the last line and the breaks of empty lines; it is known
whether the last line began with a blank. -/
def readLines (style : BlockStyle) (inside : Bool) (first more : List Char) (blankBefore : Bool) :
    Source → Option (List Char × Source)
  | [] => some (style.chomping.tail first more, [])
  | g :: rest =>
    if inside then
      if isBreak g.char then readLines style false [g.char] [] blankBefore rest
      else do
        let (text, rest) ← readLines style true [] [] blankBefore rest
        return (g.char :: text, rest)
    else if g.char = ' ' ∧ g.column < style.column then
      readLines style false first more blankBefore rest
    else if g.char = '\t' ∧ g.column < style.column then none
    else if isBreak g.char then readLines style false first (more ++ [g.char]) blankBefore rest
    else if g.column = style.column then do
      let blank := isBlank g.char
      let (text, rest) ← readLines style true [] [] blank rest
      return (joinLines style.fold first more blankBefore blank ++ g.char :: text, rest)
    else some (style.chomping.tail first more, g :: rest)

/-- A scalar in block form after its indicator. Its lines are indented by the given digit from the
enclosing block, which lies at column `base`, or else like its first line, but at least to column
`floor`. -/
def readBlock (fold : Bool) (base floor : Nat) (source : Source) : Option (List Char × Source) := do
  let ((chomping, indentation), source) ← readBlockHeader source
  match indentation with
  | some n => readLines ⟨fold, chomping, base + n⟩ false [] [] false source
  | none =>
    let (breaks, widest, source) ← findIndentation 0 source
    readLines ⟨fold, chomping, max (max widest floor) 1⟩ false [] breaks false source

end Spreadsheet.Yaml
