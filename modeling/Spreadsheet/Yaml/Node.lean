import Std.Data.TreeMap
import Spreadsheet.Yaml.Token

/-! # Nodes of YAML documents
A **node** is a scalar or a collection with its properties, or an alias that stands for the node
with an anchor. Anchors are **numbered**: a new anchor gets the number of names that are known
before it, and an alias the number that its name has at that place; where a name is given twice,
numbers can coincide, and the last node with a number is the one meant.

A **reading** takes tokens off the front of a document. The grammar is that of the tokens: items and
fields may be empty, an item of a sequence in brackets may be a single field, and a sequence that is
a value may stand as far to the left as its key. -/

namespace Spreadsheet.Yaml

/-- What precedes the content of a node. -/
structure Properties where
  /-- The number of its anchor. -/
  anchor : Option Nat
  /-- Its tag. -/
  tag : Option Tag
  deriving Repr, DecidableEq

/-- A node of a document. -/
inductive Node where
  /-- The node whose anchor has this number. -/
  | reference (number : Nat)
  /-- A text, and whether it is plain. -/
  | scalar (properties : Properties) (plain : Bool) (text : String)
  /-- A list of nodes. -/
  | sequence (properties : Properties) (items : List Node)
  /-- A list of keys with their values. -/
  | mapping (properties : Properties) (fields : List (Node × Node))

namespace Node

/-- The node for nothing at all. -/
def empty : Node := scalar ⟨none, none⟩ true ""

/-- The properties of a node; an alias has none. -/
def properties : Node → Properties
  | reference _ => ⟨none, none⟩
  | scalar p _ _ | sequence p _ | mapping p _ => p

mutual

/-- How many places a node takes up: one for a scalar or alias, two for a collection and those of
its content. -/
def size : Node → Nat
  | reference _ | scalar .. => 1
  | sequence _ items => 2 + sizeItems items
  | mapping _ fields => 2 + sizeFields fields

/-- How many places a list of nodes takes up. -/
def sizeItems : List Node → Nat
  | [] => 0
  | item :: more => item.size + sizeItems more

/-- How many places a list of keys with their values takes up. -/
def sizeFields : List (Node × Node) → Nat
  | [] => 0
  | (key, value) :: more => key.size + value.size + sizeFields more

end

mutual

/-- The nodes with an anchor, in the order in which they begin, in front of a list. -/
def anchored (node : Node) (rest : List (Nat × Node)) : List (Nat × Node) :=
  let inner := match node with
    | reference _ | scalar .. => rest
    | sequence _ items => anchoredItems items rest
    | mapping _ fields => anchoredFields fields rest
  match node.properties.anchor with
  | some number => (number, node) :: inner
  | none => inner

/-- The anchored nodes of a list of nodes, in front of a list. -/
def anchoredItems : List Node → List (Nat × Node) → List (Nat × Node)
  | [], rest => rest
  | item :: more, rest => item.anchored (anchoredItems more rest)

/-- The anchored nodes of a list of keys with their values, in front of a list. -/
def anchoredFields : List (Node × Node) → List (Nat × Node) → List (Nat × Node)
  | [], rest => rest
  | (key, value) :: more, rest => key.anchored (value.anchored (anchoredFields more rest))

end

end Node

/-! ## Readings -/

/-- What is left to read and what is known so far. -/
structure Reading where
  /-- The tokens that are left. -/
  tokens : List Token
  /-- The number of each anchor name. -/
  anchors : Std.TreeMap String Nat
  /-- What each tag handle stands for. -/
  handles : List (String × List UInt8)

/-- A step of a reading, which may fail. -/
abbrev Read := StateT Reading Option

namespace Read

/-- The next token; `none` at the end. -/
def peek : Read (Option Token) := return (← get).tokens.head?

/-- Drops the next token. -/
def skip : Read Unit := modify fun r => { r with tokens := r.tokens.drop 1 }

/-- Whether the next token is the given one, which is dropped then. -/
def take (t : Token) : Read Bool := do
  if (← peek) == some t then
    skip
    return true
  else return false

/-- Drops the next token, which must be the given one. -/
def expect (t : Token) : Read Unit := do
  if ← take t then return else failure

/-- A bound on the number of steps that take up tokens. -/
def bound : Read Nat := return (← get).tokens.length + 1

/-- A node, or the empty node if one of the given tokens or nothing comes next. -/
def orEmpty (ends : List Token) (node : Read Node) : Read Node := do
  match ← peek with
  | some t => if t ∈ ends then return .empty else node
  | none => node

/-- Gives a name to a new anchor: its number. -/
def define (name : String) : Read Nat := do
  let r ← get
  set { r with anchors := r.anchors.insert name r.anchors.size }
  return r.anchors.size

/-- The tag with a handle and a suffix. A tag without a handle is its suffix. -/
def tag (handle : String) (suffix : List UInt8) : Read Tag := do
  if handle.isEmpty then return ⟨suffix⟩
  else match (← get).handles.lookup handle with
    | some meaning => return ⟨meaning ++ suffix⟩
    | none => failure

/-- The anchor in front of a node. -/
def anchor? : Read (Option Nat) := do
  match ← peek with
  | some (.anchor name) =>
    skip
    return some (← define name)
  | _ => return none

/-- The tag in front of a node. -/
def tag? : Read (Option Tag) := do
  match ← peek with
  | some (.tag handle suffix) =>
    skip
    return some (← tag handle suffix)
  | _ => return none

/-- The properties in front of a node, in either order. -/
def properties : Read Properties := do
  match ← anchor? with
  | some number => return ⟨some number, ← tag?⟩
  | none =>
    match ← tag? with
    | some tag => return ⟨← anchor?, some tag⟩
    | none => return ⟨none, none⟩

variable (node : Bool → Read Node)

/-- The items of a sequence in block form up to its end. -/
def blockItems : Nat → Read (List Node)
  | 0 => failure
  | n + 1 => do
    if ← take .item then
      let first ← orEmpty [.item, .blockEnd] (node false)
      return first :: (← blockItems n)
    else
      expect .blockEnd
      return []

/-- The items of a sequence that stands as far to the left as its key. -/
def levelItems : Nat → Read (List Node)
  | 0 => failure
  | n + 1 => do
    if ← take .item then
      let first ← orEmpty [.item, .key, .value, .blockEnd] (node false)
      return first :: (← levelItems n)
    else return []

/-- The fields of a mapping in block form up to its end. -/
def blockFields : Nat → Read (List (Node × Node))
  | 0 => failure
  | n + 1 => do
    if ← take .key then
      let inner := orEmpty [.key, .value, .blockEnd] (node true)
      let key ← inner
      let value ← if ← take .value then inner else pure .empty
      return (key, value) :: (← blockFields n)
    else
      expect .blockEnd
      return []

/-- The single field that is an item of a sequence in brackets, after its key token. A token that
leaves no room for the key is dropped. -/
def lonelyField : Read Node := do
  let ends := [.value, .comma, .flowSequenceEnd]
  let key ← match ← peek with
    | some t =>
      if t ∈ ends then
        skip
        pure .empty
      else node false
    | none => failure
  let value ← if ← take .value then orEmpty [.comma, .flowSequenceEnd] (node false)
    else pure .empty
  return .mapping ⟨none, none⟩ [(key, value)]

/-- The items of a sequence in brackets up to the closing one. A comma may follow the last. -/
def flowItems (first : Bool) : Nat → Read (List Node)
  | 0 => failure
  | n + 1 => do
    if ← take .flowSequenceEnd then return []
    unless first do expect .comma
    if ← take .flowSequenceEnd then return []
    let item ← if ← take .key then lonelyField node else node false
    return item :: (← flowItems false n)

/-- The fields of a mapping in braces up to the closing one. A comma may follow the last. -/
def flowFields (first : Bool) : Nat → Read (List (Node × Node))
  | 0 => failure
  | n + 1 => do
    if ← take .flowMappingEnd then return []
    unless first do expect .comma
    if ← take .flowMappingEnd then return []
    let field ← if ← take .key then
        let key ← orEmpty [.value, .comma, .flowMappingEnd] (node false)
        let value ← if ← take .value then orEmpty [.comma, .flowMappingEnd] (node false)
          else pure .empty
        pure (key, value)
      else do
        let key ← node false
        pure (key, .empty)
    return field :: (← flowFields false n)

end Read

/-- The content of a node with given properties. Collections in block form stand only outside
brackets (`block`), and a sequence on the level of its key only as a key or value (`level`).
Properties alone make an empty node. -/
def Read.content (node : Bool → Bool → Read Node) (block level : Bool) (p : Properties) :
    Read Node := do
  match ← peek with
  | some (.scalar plain text) =>
    skip
    return .scalar p plain text
  | some .flowSequence =>
    skip
    return .sequence p (← flowItems (node false) true (← bound))
  | some .flowMapping =>
    skip
    return .mapping p (← flowFields (node false) true (← bound))
  | some .blockSequence =>
    if block then
      skip
      return .sequence p (← blockItems (node true) (← bound))
    else failure
  | some .blockMapping =>
    if block then
      skip
      return .mapping p (← blockFields (node true) (← bound))
    else failure
  | some .item =>
    if level then return .sequence p (← levelItems (node true) (← bound))
    else bare
  | _ => bare
where
  /-- A node that has properties only. -/
  bare : Read Node :=
    if p.anchor.isSome || p.tag.isSome then return .scalar p true "" else failure

/-- A node at the front of the tokens. Each level of nesting takes up a token, so the number of
tokens bounds the depth. -/
def Read.node : Nat → Bool → Bool → Read Node
  | 0, _, _ => failure
  | n + 1, block, level => do
    match ← peek with
    | some (.reference name) =>
      skip
      match (← get).anchors[name]? with
      | some number => return .reference number
      | none => failure
    | _ => content (node n) block level (← properties)

/-- The directives in front of a document. There is at most one version, which must be 1.1 or 1.2,
and one meaning per handle. -/
def Read.directives (versioned : Bool) : Nat → Read Bool
  | 0 => return versioned
  | n + 1 => do
    match ← peek with
    | some (.version major minor) =>
      if versioned || major ≠ 1 || minor ≠ 1 && minor ≠ 2 then failure
      else
        skip
        discard (directives true n)
        return true
    | some (.tagHandle handle meaning) =>
      let r ← get
      if (r.handles.lookup handle).isSome then failure
      else
        set { r with handles := (handle, meaning) :: r.handles, tokens := r.tokens.drop 1 }
        discard (directives versioned n)
        return true
    | _ => return false

/-- The handles that need no directive. -/
def standardHandles : List (String × List UInt8) :=
  [("!", [Tag.mark]), ("!!", Tag.octetsOf Tag.core)]

/-- The only document of the tokens. An empty one has the empty node; after directives its start is
marked, and any number of marks may end it. -/
def Read.document : Read Node := do
  let directed ← directives false (← bound)
  modify fun r => { r with handles := r.handles ++ standardHandles }
  let marked ← take .documentStart
  if directed && !marked then failure
  let root ← match ← peek with
    | none => pure .empty
    | some .documentEnd => if marked then pure .empty else failure
    | some _ => node ((← get).tokens.length + 1) true false
  let r ← get
  if (r.tokens.dropWhile (· == .documentEnd)).isEmpty then return root else failure

/-- The node of the only document that tokens make up. -/
def Node.ofTokens? (tokens : List Token) : Option Node :=
  Read.document.run' ⟨tokens, ∅, []⟩

end Spreadsheet.Yaml
