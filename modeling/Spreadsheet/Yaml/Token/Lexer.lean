import Spreadsheet.Yaml.Scalar
import Spreadsheet.Yaml.Token

/-! # Tokens of a source
The lexer turns a source into tokens from left to right. It keeps the columns of the **open
blocks**, which end where a token stands further to the left. A token that can begin a key without
a question mark is remembered as a **candidate**, one per level of brackets; when a colon follows in
the same line and within 1024 octets, the start of the key is put in front of the candidate. A
candidate in the column of the innermost block is **required** to be a key. -/

namespace Spreadsheet.Yaml

/-- A token that may turn out to begin a key. -/
structure Candidate where
  /-- The number of tokens before it. -/
  position : Nat
  /-- Where it begins. -/
  start : Glyph
  /-- Whether it has to be a key. -/
  required : Bool
  deriving Repr, DecidableEq

/-- Whether a colon at a place comes too late for a candidate. -/
def Candidate.isStale (c : Candidate) (place : Glyph) : Bool :=
  c.start.line < place.line || c.start.index + 1024 < place.index

/-- A candidate that is gone by a place, or still there; `none` if it had to be a key. -/
def Candidate.expire (place : Glyph) : Option Candidate → Option (Option Candidate)
  | some c => if c.isStale place then if c.required then none else some none else some (some c)
  | none => some none

/-- The state of the lexer. -/
structure Lexer where
  /-- What is left to read. -/
  source : Source
  /-- The tokens so far. -/
  tokens : Array Token
  /-- The columns of the open blocks, innermost first. -/
  blocks : List Nat
  /-- The candidate of the innermost level of brackets. -/
  candidate : Option Candidate
  /-- The candidates of the levels around it. -/
  outer : List (Option Candidate)
  /-- Whether the next token may begin a key. -/
  keyAllowed : Bool

namespace Lexer

/-- The lexer in front of a source. -/
def start (source : Source) : Lexer := ⟨source, #[], [], none, [], true⟩

/-- Whether there are open brackets. -/
def inFlow (l : Lexer) : Bool := !l.outer.isEmpty

/-- The column of the innermost open block. -/
def base (l : Lexer) : Nat := l.blocks.head?.getD 0

/-- The first column that is inside the innermost open block. -/
def floor (l : Lexer) : Nat := (l.blocks.head?.map (· + 1)).getD 0

/-- Adds a token and goes on with the rest of the source. -/
def emit (l : Lexer) (t : Token) (rest : Source) : Lexer :=
  { l with tokens := l.tokens.push t, source := rest }

/-- Skips blanks, comments, line breaks and the byte order marks that start lines. A tab only counts
as a blank where no key can begin; outside brackets a key can begin in each new line. -/
def skipSpace (flow keyAllowed comment : Bool) : Source → Bool × Source
  | [] => (keyAllowed, [])
  | g :: rest =>
    if isBreak g.char then skipSpace flow (keyAllowed || !flow) false rest
    else if comment then skipSpace flow keyAllowed true rest
    else if g.char = '#' then skipSpace flow keyAllowed true rest
    else if g.isOrderMark then skipSpace flow keyAllowed false rest
    else if g.char = ' ' ∨ g.char = '\t' ∧ (flow ∨ !keyAllowed) then
      skipSpace flow keyAllowed false rest
    else (keyAllowed, g :: rest)

/-- The lexer in front of the next token. -/
def skip (l : Lexer) : Lexer :=
  let (keyAllowed, source) := skipSpace l.inFlow l.keyAllowed false l.source
  { l with keyAllowed, source }

/-- Gives up the candidates for which a place is too late. -/
def expire (l : Lexer) (place : Glyph) : Option Lexer := do
  let candidate ← Candidate.expire place l.candidate
  let outer ← l.outer.mapM (Candidate.expire place)
  return { l with candidate, outer }

/-- Gives up the candidate of this level. -/
def dropCandidate (l : Lexer) : Option Lexer :=
  match l.candidate with
  | some c => if c.required then none else some { l with candidate := none }
  | none => some l

/-- Remembers the next token as a candidate, if a key may begin here. -/
def remember (l : Lexer) (place : Glyph) : Option Lexer :=
  if l.keyAllowed then do
    let l ← l.dropCandidate
    let required := !l.inFlow && l.blocks.head? == some place.column
    return { l with candidate := some ⟨l.tokens.size, place, required⟩ }
  else some l

/-- Ends the blocks whose column is not kept. Blocks do not end inside brackets. -/
def closeBlocks (l : Lexer) (keep : Nat → Bool) : Lexer :=
  if l.inFlow then l
  else
    let ended := l.blocks.takeWhile fun column => !keep column
    { l with
      tokens := l.tokens ++ Array.replicate ended.length Token.blockEnd
      blocks := l.blocks.drop ended.length }

/-- Begins a block in a column, with its token at a position, unless one is open there. Blocks do
not begin inside brackets. -/
def openBlock (l : Lexer) (column position : Nat) (t : Token) : Lexer :=
  if l.inFlow ∨ column < l.floor then l
  else
    { l with
      tokens := l.tokens.insertIdxIfInBounds position t
      blocks := column :: l.blocks }

/-- Begins a block at the next token, if one may begin there. -/
def openBlockHere (l : Lexer) (place : Glyph) (t : Token) : Option Lexer :=
  if l.inFlow then some l
  else if l.keyAllowed then some (l.openBlock place.column l.tokens.size t)
  else none

/-- An opening bracket. -/
def openBracket (l : Lexer) (place : Glyph) (t : Token) (rest : Source) : Option Lexer := do
  let l ← l.remember place
  let l := { l with candidate := none, outer := l.candidate :: l.outer, keyAllowed := true }
  return l.emit t rest

/-- A closing bracket. -/
def closeBracket (l : Lexer) (t : Token) (rest : Source) : Option Lexer := do
  let l ← l.dropCandidate
  let l := match l.outer with
    | candidate :: outer => { l with candidate, outer }
    | [] => l
  return { l with keyAllowed := false }.emit t rest

/-- A comma. -/
def comma (l : Lexer) (rest : Source) : Option Lexer := do
  let l ← l.dropCandidate
  return { l with keyAllowed := true }.emit .comma rest

/-- The hyphen of an item. -/
def item (l : Lexer) (place : Glyph) (rest : Source) : Option Lexer := do
  let l ← l.openBlockHere place .blockSequence
  let l ← l.dropCandidate
  return { l with keyAllowed := true }.emit .item rest

/-- The question mark of a key. -/
def key (l : Lexer) (place : Glyph) (rest : Source) : Option Lexer := do
  let l ← l.openBlockHere place .blockMapping
  let l ← l.dropCandidate
  return { l with keyAllowed := !l.inFlow }.emit .key rest

/-- The colon of a value. If there is a candidate, it begins the key. -/
def value (l : Lexer) (place : Glyph) (rest : Source) : Option Lexer :=
  match l.candidate with
  | some c =>
    let l := { l with tokens := l.tokens.insertIdxIfInBounds c.position .key }
    let l := l.openBlock c.start.column c.position .blockMapping
    some ({ l with candidate := none, keyAllowed := false }.emit .value rest)
  | none => do
    let l ← l.openBlockHere place .blockMapping
    return { l with keyAllowed := !l.inFlow }.emit .value rest

/-- Whether an anchor or alias may end where a source begins. -/
def endsAnchor (rest : Source) : Bool :=
  endsWord rest || match rest with
    | g :: _ => "?:,]\x7d%@\x60".toList.contains g.char
    | [] => true

/-- An anchor or alias after its indicator. -/
def anchor (l : Lexer) (place : Glyph) (make : String → Token) (rest : Source) : Option Lexer := do
  let l ← l.remember place
  let (name, rest) := takeName rest
  if name.isEmpty || !endsAnchor rest then none
  else return { l with keyAllowed := false }.emit (make name) rest

/-- A tag after its exclamation mark. -/
def tag (l : Lexer) (place : Glyph) (rest : Source) : Option Lexer := do
  let l ← l.remember place
  let ((handle, suffix), rest) ← Tag.read rest
  let ended := endsWord rest || l.inFlow && rest.head?.any (·.char == ',')
  if ended then return { l with keyAllowed := false }.emit (.tag handle suffix) rest
  else none

/-- A scalar in block form after its indicator. -/
def block (l : Lexer) (fold : Bool) (rest : Source) : Option Lexer := do
  let l ← l.dropCandidate
  let (text, rest) ← readBlock fold l.base l.floor rest
  return { l with keyAllowed := true }.emit (.scalar false (String.ofList text)) rest

/-- A quoted scalar after its opening quote. -/
def quoted (l : Lexer) (place : Glyph) (read : Gap → Source → Option (List Char × Source))
    (rest : Source) : Option Lexer := do
  let l ← l.remember place
  let (text, rest) ← read .none rest
  return { l with keyAllowed := false }.emit (.scalar false (String.ofList text)) rest

/-- A plain scalar. A key may begin behind it if it ends in a new line. -/
def plain (l : Lexer) (place : Glyph) : Option Lexer := do
  let l ← l.remember place
  let (text, gap, rest) ← readPlain l.inFlow l.floor .none l.source
  return { l with keyAllowed := gap.isBroken }.emit (.scalar true (String.ofList text)) rest

/-- The number of at most nine digits in front of a source, and the rest. -/
def readVersionNumber (source : Source) : Option (Nat × Source) := do
  let digits := (source.map (·.char)).takeWhile Char.isDigit
  let n ← Decimal.natural? 10 digits
  if digits.length ≤ 9 then some (n, source.drop digits.length) else none

/-- The two numbers of a version directive, and the rest. -/
def readVersion (source : Source) : Option (Token × Source) := do
  let (major, rest) ← readVersionNumber (skipBlanks source)
  match rest with
  | g :: rest =>
    if g.char = '.' then do
      let (minor, rest) ← readVersionNumber rest
      return (.version major minor, rest)
    else none
  | [] => none

/-- The handle of a tag directive and what it stands for, and the rest. -/
def readTagHandle (source : Source) : Option (Token × Source) :=
  match skipBlanks source with
  | g :: rest =>
    if g.char = '!' then do
      let (name, after) := takeName rest
      let (handle, after) ← match after with
        | h :: more =>
          if h.char = '!' then some (s!"!{name}!", more)
          else if name.isEmpty then some ("!", after)
          else none
        | [] => none
      if after.head?.any fun h => isBlank h.char then do
        let (meaning, rest) ← Tag.readSuffix true (skipBlanks after)
        if endsWord rest then some (.tagHandle handle meaning, rest) else none
      else none
    else none
  | [] => none

/-- A directive after its percent sign. -/
def directive (l : Lexer) (rest : Source) : Option Lexer := do
  let (name, rest) := takeName rest
  let (t, rest) ← if !endsWord rest then none
    else if name = "YAML" then readVersion rest
    else if name = "TAG" then readTagHandle rest
    else none
  let rest ← endLine? rest
  return l.emit t rest

/-- Ends all blocks in front of a directive or a document mark. -/
def closeDocument (l : Lexer) : Option Lexer := do
  let l ← (l.closeBlocks fun _ => false).dropCandidate
  return { l with keyAllowed := false }

/-- Whether a plain scalar can begin with a character. -/
def beginsPlain (flow : Bool) (c : Char) (rest : Source) : Bool :=
  let indicators := "-?:,[]\x7b\x7d#&*!|>'\x22%@\x60".toList
  !indicators.contains c && !isBlank c ||
    c = '-' && !(rest.head?.any fun g => isBlank g.char) ||
    !flow && (c = '?' || c = ':') && !endsWord rest

/-- Reads the token that begins with a glyph. -/
def readToken (l : Lexer) (g : Glyph) (rest : Source) : Option Lexer :=
  let c := g.char
  if g.column = 0 ∧ c = '%' then do (← l.closeDocument).directive rest
  else match documentMark? (g :: rest) with
  | some mark => do
    let l ← l.closeDocument
    return l.emit (if mark = '-' then .documentStart else .documentEnd) (rest.drop 2)
  | none =>
    if c = '[' then l.openBracket g .flowSequence rest
    else if c = '{' then l.openBracket g .flowMapping rest
    else if c = ']' then l.closeBracket .flowSequenceEnd rest
    else if c = '}' then l.closeBracket .flowMappingEnd rest
    else if c = ',' then l.comma rest
    else if c = '-' ∧ endsWord rest then l.item g rest
    else if c = '?' ∧ (l.inFlow ∨ endsWord rest) then l.key g rest
    else if c = ':' ∧ (l.inFlow ∨ endsWord rest) then l.value g rest
    else if c = '*' then l.anchor g .reference rest
    else if c = '&' then l.anchor g .anchor rest
    else if c = '!' then l.tag g rest
    else if c = '|' ∧ !l.inFlow then l.block false rest
    else if c = '>' ∧ !l.inFlow then l.block true rest
    else if c = '\'' then l.quoted g readSingleQuoted rest
    else if c = '\x22' then l.quoted g readDoubleQuoted rest
    else if beginsPlain l.inFlow c rest then l.plain g
    else none

/-- Reads tokens to the end of the source. Each token takes up a glyph, so the number of glyphs
bounds the number of steps. -/
def run : Nat → Lexer → Option Lexer
  | 0, _ => none
  | n + 1, l =>
    let l := l.skip
    match l.source with
    | [] => l.closeDocument
    | g :: rest => do
      let l ← l.expire g
      let l ← (l.closeBlocks (· ≤ g.column)).readToken g rest
      run n l

end Lexer

/-- The tokens of a source; `none` if it is malformed. -/
def Token.ofSource? (source : Source) : Option (List Token) :=
  (Lexer.run (source.length + 1) (.start source)).map (·.tokens.toList)

end Spreadsheet.Yaml
