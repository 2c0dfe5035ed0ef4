import Spreadsheet.Yaml.Tag

/-! # Tokens of YAML documents
A **token** is an indicator, a property or a scalar of a document. Where a block collection starts
and where it ends is only seen from indentation; there are tokens for these places too, and one for
the place where a key starts. -/

namespace Spreadsheet.Yaml

/-- A token. -/
inductive Token where
  /-- A directive that names the version of the language. -/
  | version (major minor : Nat)
  /-- A directive that says what a tag handle stands for. -/
  | tagHandle (handle : String) (meaning : List UInt8)
  /-- A mark with hyphens. -/
  | documentStart
  /-- A mark with full stops. -/
  | documentEnd
  /-- The start of a sequence in block form. -/
  | blockSequence
  /-- The start of a mapping in block form. -/
  | blockMapping
  /-- The end of a collection in block form. -/
  | blockEnd
  /-- The opening bracket of a sequence. -/
  | flowSequence
  /-- The closing bracket of a sequence. -/
  | flowSequenceEnd
  /-- The opening brace of a mapping. -/
  | flowMapping
  /-- The closing brace of a mapping. -/
  | flowMappingEnd
  /-- The hyphen before an item. -/
  | item
  /-- The comma between items. -/
  | comma
  /-- The start of a key. -/
  | key
  /-- The start of the value of a key. -/
  | value
  /-- A reference to an anchor. -/
  | reference (name : String)
  /-- An anchor. -/
  | anchor (name : String)
  /-- A tag, with its handle and its suffix. -/
  | tag (handle : String) (suffix : List UInt8)
  /-- The text of a scalar, and whether it is plain: neither in quotes nor in block form. -/
  | scalar (plain : Bool) (text : String)
  deriving Repr, DecidableEq

end Spreadsheet.Yaml
