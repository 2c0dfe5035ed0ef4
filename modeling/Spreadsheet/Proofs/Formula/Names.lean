import Spreadsheet.Proofs.Formula.Chains

/-! # The keys that a text names
The **operands** of a text are its gaps without the blanks around them, and those of letters and
then digits are the keys it **names**. Its formula refers to the keys that the text names, from left
to right and as often as they stand there: a chain refers to what its leaves refer to, leaf after
leaf, and a leaf to its operand or to nothing. -/

namespace Spreadsheet

instance (text : List Char) : Decidable (Key.LettersThenDigits text) :=
  decidable_of_iff _ Key.isKey_iff_lettersThenDigits

namespace Formula

variable {leaf : Formula} {steps : List (Operation × Formula)} {first : List Char}
  {more : List (Operation × List Char)} {text : String}

/-- The gaps of a text, without the blanks around them. -/
def operands (first : List Char) (more : List (Operation × List Char)) : List (List Char) :=
  (first :: more.map (·.2)).map Text.trim

/-- The cell keys among the operands of a text, in the order in which they stand there. -/
def namedKeys (first : List Char) (more : List (Operation × List Char)) : List String :=
  ((operands first more).filter fun operand => Key.LettersThenDigits operand).map String.ofList

/-- A chain refers to what its leaves refer to, from left to right. -/
theorem references_chain :
    (chain leaf steps).references = leaf.references ++ steps.flatMap (·.2.references) := by
  induction steps using List.reverseRecOn with
  | nil => exact (List.append_nil _).symm
  | append_singleton steps step ih =>
    rw [chain_concat, references, ih, List.flatMap_append, List.flatMap_singleton,
      List.append_assoc]

/-- A leaf refers to its operand if that is a cell key, and to nothing otherwise. -/
theorem references_ofOperand (operand : List Char) : (ofOperand operand).references =
    if Key.LettersThenDigits operand then [String.ofList operand] else [] := by
  rw [ofOperand]
  by_cases hkey : Key.LettersThenDigits operand
  · rw [if_pos hkey, if_pos (Key.isKey_iff_lettersThenDigits.2 hkey), references]
  · rw [if_neg hkey, if_neg (Key.isKey_iff_lettersThenDigits.not.2 hkey)]
    split <;> rfl

/-- The leaves of gaps refer to the cell keys among their operands. -/
theorem flatMap_references_ofPiece (gaps : List (List Char)) :
    (gaps.flatMap fun gap => (ofPiece gap).references) =
      ((gaps.map Text.trim).filter fun operand => Key.LettersThenDigits operand).map
        String.ofList := by
  induction gaps with
  | nil => rfl
  | cons gap gaps ih =>
    rw [List.flatMap_cons, ih, ofPiece, references_ofOperand, List.map_cons, List.filter_cons]
    by_cases hkey : Key.LettersThenDigits (Text.trim gap)
    · rw [if_pos hkey, if_pos (decide_eq_true hkey), List.map_cons, List.singleton_append]
    · rw [if_neg hkey, if_neg (by simpa using hkey), List.nil_append]

/-- **The formula of a text refers to the keys that the text names.** -/
theorem Gaps.references_parse (h : Gaps text.toList first more) :
    (parse text).references = namedKeys first more := by
  rw [namedKeys, operands, ← flatMap_references_ofPiece, parse_eq_chain, references_chain,
    h.cut_eq, List.flatMap_cons, List.flatMap_map, List.flatMap_map]

/-- A key that is named twice, an alias, a key in small letters and one after a missing operand. -/
example : (parse " B2 * B2 + AA1-b1//C03").references = ["B2", "B2", "AA1", "C03"] := by decide

end Formula

end Spreadsheet
