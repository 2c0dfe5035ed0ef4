import Spreadsheet.Yaml.Number
import Spreadsheet.Yaml.Node
import Spreadsheet.Yaml.Token.Lexer

/-! # Values of YAML documents
A **value** is what a document says once aliases, tags and plain scalars are resolved. A plain
scalar is the null value, a truth value or a number if it is written like one, and else a text, and
so is every scalar in quotes or in block form. A node with a local tag is a **tagged** value. A
mapping has no key twice.

Resolving follows aliases into the nodes they stand for. At most 128 collections lie inside one
another, so no node is part of itself, and the number of aliases that are followed is limited to a
hundred for each place in the document. -/

namespace Spreadsheet.Yaml

/-- A value of a document. -/
inductive Value where
  /-- No value. -/
  | null
  /-- A truth value. -/
  | bool (b : Bool)
  /-- A number. -/
  | number (n : Number)
  /-- A text. -/
  | string (s : String)
  /-- A list of values. -/
  | sequence (items : List Value)
  /-- A list of keys with their values, in the order of the document. -/
  | mapping (fields : List (Value × Value))
  /-- A value with a local tag. -/
  | tagged (tag : String) (content : Value)

namespace Value

/-- What a value is, in words. -/
def describe : Value → String
  | null => "null"
  | bool _ => "a boolean"
  | number _ => "a number"
  | string _ => "a string"
  | sequence _ => "a list"
  | mapping _ => "a mapping"
  | tagged .. => "a tagged value"

mutual

/-- Whether two values are the same key. The order of the fields of a mapping does not matter. -/
def same : Value → Value → Bool
  | null, null => true
  | bool a, bool b => a == b
  | number m, number n => m.same n
  | string s, string t => s == t
  | sequence items, sequence others => sameItems items others
  | mapping fields, mapping others => fields.length == others.length && within fields others
  | tagged tag content, tagged other value => tag == other && content.same value
  | _, _ => false

/-- Whether two lists hold the same values in the same order. -/
def sameItems : List Value → List Value → Bool
  | [], [] => true
  | item :: items, other :: others => item.same other && sameItems items others
  | _, _ => false

/-- Whether each field of the first mapping is one of the second. -/
def within : List (Value × Value) → List (Value × Value) → Bool
  | [], _ => true
  | (key, value) :: fields, others =>
    (others.any fun (other, content) => key.same other && value.same content) &&
      within fields others

end

/-- Whether no key of a mapping comes twice. -/
def areDistinct : List (Value × Value) → Bool
  | [] => true
  | (key, _) :: more => (more.all fun (other, _) => !key.same other) && areDistinct more

/-- The value of a key that is a text. -/
def field? (fields : List (Value × Value)) (name : String) : Option Value :=
  fields.findSome? fun (key, value) =>
    match key with
    | string s => if s = name then some value else none
    | _ => none

/-! ## Scalars -/

/-- The truth value that a word denotes. -/
def bool? (text : String) : Option Bool :=
  if text = "true" ∨ text = "True" ∨ text = "TRUE" then some true
  else if text = "false" ∨ text = "False" ∨ text = "FALSE" then some false
  else none

/-- Whether a word denotes the null value. -/
def isNullWord (text : String) : Bool :=
  text = "null" || text = "Null" || text = "NULL" || text = "~"

/-- Whether an integer is a 64-bit word, unsigned or negative. -/
def isWord (n : Int) : Bool := -Int.ofNat (Nat.pow 2 63) ≤ n && n < Int.ofNat (Nat.pow 2 64)

/-- Whether an integer fits twice the width of a word. -/
def isWideWord (n : Int) : Bool :=
  -Int.ofNat (Nat.pow 2 127) ≤ n && n < Int.ofNat (Nat.pow 2 128)

/-- The value of a text as an integer, if it is one that fits; an integer that fits only twice the
width is an error. -/
def ofInteger? (text : String) : Option (Option Value) :=
  match Number.integer? text.toList with
  | some n =>
    if isWord n then some (some (number (.integer n)))
    else if isWideWord n then none
    else some none
  | none => some none

/-- The value of a plain scalar. -/
def ofPlain (text : String) : Option Value :=
  if text.isEmpty || isNullWord text then some null
  else match bool? text with
    | some b => some (bool b)
    | none =>
      match ofInteger? text with
      | none => none
      | some (some value) => some value
      | some none =>
        if Number.isPadded (Number.splitSign text.toList).2 then some (string text)
        else match Number.float? text.toList with
          | some x => some (number (.float x))
          | none => some (string text)

/-- The value of a scalar without a tag, or with one that counts for nothing. -/
def ofUntagged (plain : Bool) (text : String) : Option Value :=
  if plain then ofPlain text else some (string text)

/-- The value of a scalar. A local tag is kept with it, the mark alone too; the tags of the core
kinds call for a text of that kind, and other tags make the text a string. -/
def ofScalar (tag : Option Tag) (plain : Bool) (text : String) : Option Value :=
  match tag with
  | none => ofUntagged plain text
  | some tag =>
    match tag.localName? with
    | some name => (ofUntagged plain text).map (tagged name)
    | none =>
      if tag = Tag.bool then (bool? text).map bool
      else if tag = Tag.int then (ofInteger? text).join
      else if tag = Tag.float then (Number.float? text.toList).map fun x => number (.float x)
      else if tag = Tag.null then if isNullWord text then some null else none
      else ofUntagged (plain && tag.isLocal) text

/-- A collection with its tag, if that is local. -/
def ofCollection (tag : Option Tag) (value : Value) : Value :=
  match tag.bind Tag.localName? with
  | some name => tagged name value
  | none => value

/-! ## Documents -/

/-- A step of resolving, which knows how many more aliases may be followed and may fail. -/
abbrev Resolve := StateT Nat Option

/-- Counts an alias that is followed. -/
def follow : Resolve Unit := do
  match ← get with
  | 0 => failure
  | left + 1 => set left

/-- The last node with a number. -/
def target? (anchored : List (Nat × Node)) (n : Nat) : Option Node :=
  anchored.foldl (fun found (other, node) => if other = n then some node else found) none

/-- The node itself, or the one that an alias stands for. -/
def dereference (anchored : List (Nat × Node)) : Node → Resolve Node
  | .reference n => do
    follow
    match target? anchored n with
    | some node => return node
    | none => failure
  | node => return node

/-- The value of a node with at most so many collections inside one another. -/
def ofNode (anchored : List (Nat × Node)) : Nat → Node → Resolve Value
  | 0, node => do
    match ← dereference anchored node with
    | .scalar p plain text => liftM (ofScalar p.tag plain text)
    | _ => failure
  | depth + 1, node => do
    match ← dereference anchored node with
    | .scalar p plain text => liftM (ofScalar p.tag plain text)
    | .sequence p items =>
      return ofCollection p.tag (.sequence (← items.mapM (ofNode anchored depth)))
    | .mapping p fields =>
      let fields ← fields.mapM fun (key, value) => do
        let key ← ofNode anchored depth key
        let value ← ofNode anchored depth value
        return (key, value)
      if areDistinct fields then return ofCollection p.tag (.mapping fields) else failure
    | .reference _ => failure

/-- The value of a document with the given root. -/
def ofRoot? (root : Node) : Option Value :=
  (ofNode (root.anchored []) 128 root).run' (100 * root.size)

/-- The value of the only document in a text; `none` if the text is malformed. -/
def parse? (text : String) : Option Value := do
  let source ← Source.ofText? text
  let tokens ← Token.ofSource? source
  let root ← Node.ofTokens? tokens
  ofRoot? root

end Value

/-! ## Readers -/

/-- A **reader** of YAML, for all that depends on documents only through their values. -/
class Reader where
  /-- The value of the only document in a text; `none` if the text is malformed. -/
  read? : String → Option Value

/-- The reader that is used if no other one is given. -/
instance : Reader where
  read? := Value.parse?

end Spreadsheet.Yaml
