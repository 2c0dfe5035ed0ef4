import Spreadsheet.Formula.Parse
import Spreadsheet.Proofs.Decimal.Numerals

/-! # What operands stand for
The **grammar** of operands, apart from the functions that read them. An operand that is letters `A`
to `Z` and then digits is a reference. Of the others, a **numeral** is a literal: the word
`Infinity`, a radix numeral below `2 ^ 64` after `0x`, `0o` or `0b`, or an unsigned decimal numeral
that does not start like these. Every other operand is unknown. -/

namespace Spreadsheet

/-- The text is one or more letters `A` to `Z` and then one or more digits. -/
def Key.LettersThenDigits (text : List Char) : Prop :=
  ∃ letters digits, text = letters ++ digits ∧ letters ≠ [] ∧ digits ≠ [] ∧
    (∀ c ∈ letters, 'A' ≤ c ∧ c ≤ 'Z') ∧ ∀ c ∈ digits, '0' ≤ c ∧ c ≤ '9'

/-- A text without capital letters is no cell key. -/
theorem Key.not_lettersThenDigits {text : List Char} (h : ∀ c ∈ text, ¬ ('A' ≤ c ∧ c ≤ 'Z')) :
    ¬ LettersThenDigits text := by
  rintro ⟨letters, digits, rfl, hne, -, hletters, -⟩
  obtain ⟨c, hc⟩ := List.exists_mem_of_ne_nil letters hne
  exact h c (List.mem_append_left digits hc) (hletters c hc)

/-- **A cell key** is letters and then digits. -/
theorem Key.isKey_iff_lettersThenDigits {text : List Char} :
    isKey text = true ↔ LettersThenDigits text := by
  have hdigit : ∀ c : Char, c.isDigit = true ↔ '0' ≤ c ∧ c ≤ '9' := fun c => by
    rw [Char.isDigit, Bool.and_eq_true, decide_eq_true_eq, decide_eq_true_eq]
    exact Iff.rfl
  constructor
  · intro h
    obtain ⟨letters, digits, hparts⟩ := isKey_iff.1 h
    obtain ⟨happend, hletters, hdigits, hallLetters, hallDigits⟩ := append_of_parts? hparts
    exact ⟨letters, digits, happend.symm, hletters, hdigits,
      fun c hc => isLetter_iff.1 (hallLetters c hc), fun c hc => (hdigit c).1 (hallDigits c hc)⟩
  · rintro ⟨letters, digits, rfl, hletters, hdigits, hallLetters, hallDigits⟩
    exact isKey_iff.2 ⟨letters, digits, parts?_append hletters hdigits
      (fun c hc => isLetter_iff.2 (hallLetters c hc)) fun c hc => (hdigit c).2 (hallDigits c hc)⟩

namespace Formula

open Decimal

/-- No character of the text is an operation symbol. -/
def SymbolFree (text : List Char) : Prop := ∀ c ∈ text, Operation.ofSymbol? c = none

/-- The text starts with a zero and the letter of a radix. -/
def StartsWithRadix (text : List Char) : Prop :=
  ∃ mark digits radix, text = '0' :: mark :: digits ∧ radix? mark = some radix

/-- The operands that are numbers, and which. -/
inductive Numeral : List Char → Float → Prop
  /-- The word for the infinite number. -/
  | infinity : Numeral "Infinity".toList infinity
  /-- Digits of a radix. -/
  | radix {mark : Char} {digits : List Char} {radix n : Nat} :
    radix? mark = some radix → Denotes radix digits n → n < Nat.pow 2 64 →
      Numeral ('0' :: mark :: digits) (Float.ofNat n)
  /-- A decimal numeral. -/
  | decimal {text : List Char} {x : Float} :
    ¬ StartsWithRadix text → Unsigned text x → Numeral text x

/-- The leaf that an operand stands for. -/
inductive StandsFor (operand : List Char) : Formula → Prop
  /-- A cell key is a reference to the cell. -/
  | reference : Key.LettersThenDigits operand → StandsFor operand (reference (.ofList operand))
  /-- A numeral is a literal. -/
  | literal {x : Float} :
    ¬ Key.LettersThenDigits operand → Numeral operand x → StandsFor operand (literal x)
  /-- What is neither is unknown. -/
  | unknown :
    ¬ Key.LettersThenDigits operand → (∀ x, ¬ Numeral operand x) →
      StandsFor operand (unknown (.ofList operand))

variable {operand : List Char} {x : Float}

/-- A text that starts with a radix is read with it. -/
theorem number?_of_radix {mark : Char} {digits : List Char} {radix : Nat}
    (h : radix? mark = some radix) :
    number? ('0' :: mark :: digits) = (word? radix digits).map Float.ofNat := by
  have hword : '0' :: mark :: digits ≠ "Infinity".toList := by simp
  unfold number?
  rw [if_neg hword]
  simp only [h]

/-- A text that does not is read as a decimal numeral, the word `Infinity` apart. -/
theorem number?_of_not_radix (hword : operand ≠ "Infinity".toList)
    (h : ¬ StartsWithRadix operand) : number? operand = unsigned? operand := by
  unfold number?
  rw [if_neg hword]
  split
  · split
    · rename_i radix hradix
      exact absurd ⟨_, _, radix, rfl, hradix⟩ h
    · rfl
  · rfl

theorem SymbolFree.plus_not_mem (h : SymbolFree operand) : '+' ∉ operand :=
  fun hmem => nomatch h '+' hmem

theorem SymbolFree.minus_not_mem (h : SymbolFree operand) : '-' ∉ operand :=
  fun hmem => nomatch h '-' hmem

/-- The word for the infinite number is no decimal numeral. -/
theorem not_unsigned_infinity : ¬ Unsigned "Infinity".toList x :=
  fun h => nomatch h.unsigned?.symm.trans (show unsigned? "Infinity".toList = none by decide)

/-- The reader of numbers accepts the numerals. -/
theorem Numeral.number? (h : Numeral operand x) : number? operand = some x := by
  cases h with
  | infinity => exact if_pos rfl
  | radix hradix hdigits hlt =>
    rw [number?_of_radix hradix, word?_eq_some_iff.2 ⟨hdigits, hlt⟩, Option.map_some]
  | decimal hradix hdecimal =>
    rw [number?_of_not_radix (fun h => not_unsigned_infinity (h ▸ hdecimal)) hradix,
      hdecimal.unsigned?]

/-- **The reader of numbers** accepts exactly the numerals, in a text without operation symbols. -/
theorem number?_eq_some_iff (hfree : SymbolFree operand) :
    number? operand = some x ↔ Numeral operand x := by
  refine ⟨fun h => ?_, Numeral.number?⟩
  by_cases hword : operand = "Infinity".toList
  · subst hword
    obtain rfl : infinity = x := Option.some.inj ((if_pos rfl).symm.trans h)
    exact .infinity
  · by_cases hradix : StartsWithRadix operand
    · obtain ⟨mark, digits, radix, rfl, hmark⟩ := hradix
      rw [number?_of_radix hmark] at h
      obtain ⟨n, hn, rfl⟩ := Option.map_eq_some_iff.1 h
      obtain ⟨hdigits, hlt⟩ := word?_eq_some_iff.1 hn
      exact .radix hmark hdigits hlt
    · rw [number?_of_not_radix hword hradix] at h
      exact .decimal hradix (unsigned_of_unsigned? hfree.plus_not_mem hfree.minus_not_mem h)

/-- **An operand stands for exactly one leaf**, the one that it is read as. -/
theorem standsFor_iff (hfree : SymbolFree operand) {leaf : Formula} :
    StandsFor operand leaf ↔ leaf = ofOperand operand := by
  have hexists : StandsFor operand (ofOperand operand) := by
    unfold ofOperand
    split
    · rename_i hkey
      exact .reference (Key.isKey_iff_lettersThenDigits.1 hkey)
    · rename_i hkey
      have hkey := fun h => hkey (Key.isKey_iff_lettersThenDigits.2 h)
      split
      · rename_i value hvalue
        exact .literal hkey ((number?_eq_some_iff hfree).1 hvalue)
      · rename_i hnone
        refine .unknown hkey fun x hx => ?_
        exact nomatch hnone.symm.trans hx.number?
  constructor
  · intro h
    cases h with
    | reference hkey => rw [ofOperand, if_pos (Key.isKey_iff_lettersThenDigits.2 hkey)]
    | literal hkey hx =>
      rw [ofOperand, if_neg fun h => hkey (Key.isKey_iff_lettersThenDigits.1 h), hx.number?]
    | unknown hkey hnone =>
      rw [ofOperand, if_neg fun h => hkey (Key.isKey_iff_lettersThenDigits.1 h)]
      cases hnumber : number? operand with
      | none => rfl
      | some x => exact absurd ((number?_eq_some_iff hfree).1 hnumber) (hnone x)
  · rintro rfl
    exact hexists

/-- A leaf is no operation. -/
theorem StandsFor.isOperation_eq {leaf : Formula} (h : StandsFor operand leaf) :
    leaf.isOperation = false := by
  cases h <;> rfl

end Formula

end Spreadsheet
