/-! # Media types
A **media type** is a type and a subtype, each a token, with parameters after semicolons. The part
of a subtype after its last plus sign is its **suffix**. Types are compared without regard to the
case of letters. -/

namespace Spreadsheet.Http

/-- A media type without its parameters, in lower case. -/
structure MediaType where
  /-- The type. -/
  type : List Char
  /-- The subtype, without its suffix. -/
  subtype : List Char
  /-- The suffix of the subtype. -/
  suffix : Option (List Char)
  deriving Repr, DecidableEq

namespace MediaType

/-- Whether a character may occur in a token. -/
def isTokenChar (c : Char) : Bool :=
  c.isAlphanum || "!#$%&'*+-.^_\x60|~".toList.contains c

/-- Whether a character may occur in quotes. -/
def isQuotedChar (c : Char) : Bool := 31 < c.toNat && c.toNat < 127

/-- Where the reader of parameters is. -/
inductive Place where
  /-- In front of a name. -/
  | name
  /-- Inside a name. -/
  | insideName
  /-- In front of a value. -/
  | value
  /-- Inside a value. -/
  | insideValue
  /-- After an opening quote. -/
  | quote
  /-- Inside quotes. -/
  | insideQuotes
  /-- After a closing quote. -/
  | afterQuotes
  deriving Repr, DecidableEq

/-- The place after a character; `none` if the character may not stand there. Quotes are not empty,
so a quote right after the opening one does not close it. -/
def Place.next? (p : Place) (c : Char) : Option Place :=
  match p with
  | name => if c = ' ' then some name else if isTokenChar c then some insideName else none
  | insideName => if isTokenChar c then some insideName else if c = '=' then some value else none
  | value => if c = '\x22' then some quote else if isTokenChar c then some insideValue else none
  | insideValue => if isTokenChar c then some insideValue else if c = ';' then some name else none
  | quote => if isQuotedChar c then some insideQuotes else none
  | insideQuotes =>
    if c = '\x22' then some afterQuotes else if isQuotedChar c then some insideQuotes else none
  | afterQuotes => if c = ';' then some name else if c = ' ' then some afterQuotes else none

/-- Whether parameters may end at a place. -/
def Place.isEnd : Place → Bool
  | name | value | insideValue | afterQuotes => true
  | insideName | quote | insideQuotes => false

/-- Whether a text after a semicolon consists of parameters. -/
def areParameters (text : List Char) : Bool :=
  (text.foldlM Place.next? Place.name).any Place.isEnd

/-- A subtype and its suffix: what stands before and after its last plus sign, unless that comes
first. -/
def splitSuffix (text : List Char) : List Char × Option (List Char) :=
  let suffix := (text.reverse.takeWhile (· ≠ '+')).reverse
  let lead := text.take (text.length - suffix.length - 1)
  if suffix.length < text.length ∧ !lead.isEmpty then (lead, some suffix) else (text, none)

/-- The media type that a text denotes. -/
def parse? (text : String) : Option MediaType :=
  let chars := text.toList
  let type := chars.takeWhile isTokenChar
  match chars.dropWhile isTokenChar with
  | '/' :: rest =>
    let subtype := rest.takeWhile isTokenChar
    let parameters := match rest.dropWhile isTokenChar with
      | [] => true
      | ';' :: more => !subtype.isEmpty && areParameters more
      | _ => false
    if type.isEmpty || !parameters then none
    else
      let (lead, suffix) := splitSuffix (subtype.map Char.toLower)
      some ⟨type.map Char.toLower, lead, suffix⟩
  | _ => none

/-- Whether bodies of a media type are JSON texts. -/
def isJson (m : MediaType) : Bool :=
  m.type = "application".toList &&
    (m.subtype = "json".toList || m.suffix = some "json".toList)

end MediaType

end Spreadsheet.Http
