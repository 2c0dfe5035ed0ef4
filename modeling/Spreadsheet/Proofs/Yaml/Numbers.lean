import Spreadsheet.Proofs.Decimal.Exponents
import Spreadsheet.Proofs.Formula.Signs
import Spreadsheet.Yaml.Number

/-! # Numbers of documents as formulas
A number of a document stands for a formula through its text. The text of an integer that is not
negative, of zero and of a float from `1e-5` on is read as the same number. All other finite numbers
have a sign in their text, in front of their digits or of their power of ten, and so their formula
is NaN. -/

namespace Spreadsheet.Yaml.Number

open Decimal Float.Model UnpackedFloat

variable {n : Number} {x : Float} {k : Nat}

/-- The number in double precision. -/
def value : Number → Float
  | integer n => .ofInt n
  | float x => x

/-- The number is neither infinite nor NaN. -/
def IsFinite : Number → Prop
  | integer _ => True
  | float x => x.isFinite

/-- The text of the number is an unsigned numeral: an integer that is not negative, zero without a
sign, or a float that is large enough to have no negative power of ten. -/
def IsReadable : Number → Prop
  | integer n => 0 ≤ n
  | float x => x = 0 ∨ 1e-5 ≤ x

instance : (n : Number) → Decidable n.IsFinite
  | integer _ => isTrue trivial
  | float x => inferInstanceAs (Decidable x.isFinite)

instance : (n : Number) → Decidable n.IsReadable
  | integer n => inferInstanceAs (Decidable (0 ≤ n))
  | float x => inferInstanceAs (Decidable (x = 0 ∨ 1e-5 ≤ x))

/-! ## Unpacked doubles -/

/-- A finite double from `1e-5` on is positive and not zero. -/
theorem exists_unpack_of_le (hfinite : x.isFinite) (hle : 1e-5 ≤ x) :
    ∃ m e hpos, x.toModel.unpack = .finite .positive m e hpos := by
  have hcompare : ((1e-5 : Float).toModel.unpack.le x.toModel.unpack) = true :=
    decide_eq_true_iff.1 hle
  rcases isFinite_iff.1 hfinite with ⟨sign, h⟩ | ⟨sign, m, e, hpos, h⟩
  · rw [h] at hcompare
    cases sign <;> exact nomatch hcompare
  · cases sign with
    | positive => exact ⟨m, e, hpos, h⟩
    | negative =>
      rw [h] at hcompare
      exact nomatch hcompare

/-! ## Texts -/

theorem toList_text_natCast (k : Nat) : (integer k).text.toList = digits k := rfl

theorem toList_text_negSucc (k : Nat) :
    (integer (.negSucc k)).text.toList = '-' :: digits (k + 1) := by
  change ("-" ++ Nat.repr (k + 1)).toList = _
  rw [String.toList_append]
  rfl

/-- The text of a finite double is a decimal in the layout, with a sign in front if it is
negative. -/
theorem exists_text_eq (h : x.isFinite) : ∃ negative d,
    (float x).text = Layout.signed negative (yamlDouble.ofDecimal d) := by
  rcases isFinite_iff.1 h with ⟨sign, h⟩ | ⟨sign, m, e, hpos, h⟩
  · refine ⟨sign == .negative, ⟨0, 0⟩, ?_⟩
    rw [text, Value.ofDouble, h]
    rfl
  · exact ⟨_, _, yamlDouble_eq_ofDecimal h⟩

/-- The text of a finite number has no capital letters. -/
theorem not_capital_of_mem_text (hfinite : n.IsFinite) {c : Char} (hc : c ∈ n.text.toList) :
    ¬ ('A' ≤ c ∧ c ≤ 'Z') := by
  have hsigned : ∀ {text : List Char},
      (∀ c ∈ text, c.isDigit ∨ c = '.' ∨ c = 'e' ∨ c = '-') → c ∈ text → ¬ ('A' ≤ c ∧ c ≤ 'Z') := by
    intro text htext hc
    rcases htext c hc with h | rfl | rfl | rfl
    · exact (Formula.plain_of_isDigit_or (.inl h)).2.2.2
    · decide
    · decide
    · decide
  cases n with
  | integer n =>
    cases n with
    | ofNat k => exact hsigned (fun c hc => .inl (isDigit_of_mem_digits hc)) hc
    | negSucc k =>
      rw [toList_text_negSucc] at hc
      refine hsigned (fun c hc => ?_) hc
      rcases List.mem_cons.1 hc with rfl | hc
      · exact .inr (.inr (.inr rfl))
      · exact .inl (isDigit_of_mem_digits hc)
  | float x =>
    obtain ⟨negative, d, htext⟩ := exists_text_eq hfinite
    rw [htext, Layout.signed, String.toList_ofList] at hc
    refine hsigned (fun c hc => ?_) hc
    split at hc
    · rcases List.mem_cons.1 hc with rfl | hc
      · exact .inr (.inr (.inr rfl))
      · exact of_mem_yamlDouble_ofDecimal hc
    · exact of_mem_yamlDouble_ofDecimal hc

/-! ## Formulas -/

/-- The formula of a finite number names no cell. -/
theorem references_parse_text (hfinite : n.IsFinite) : (Formula.parse n.text).references = [] :=
  Formula.references_parse fun _ => not_capital_of_mem_text hfinite

/-- **A readable number is read back.** -/
theorem parse_text_of_isReadable (hfinite : n.IsFinite) (h : n.IsReadable) :
    Formula.parse n.text = .literal n.value := by
  cases n with
  | integer n =>
    obtain ⟨k, rfl⟩ := Int.eq_ofNat_of_zero_le h
    have hunsigned := Unsigned.whole (denotes_zeros_append_digits 0 k) .absent
    rw [List.replicate_zero, List.nil_append, List.append_nil, ← toList_text_natCast] at hunsigned
    exact Formula.parse_of_unsigned (fun c hc => .inl (isDigit_of_mem_digits hc)) hunsigned
  | float x =>
    rcases h with rfl | hle
    · decide +kernel
    · obtain ⟨m, e, hpos, hunpack⟩ := exists_unpack_of_le hfinite hle
      obtain ⟨hunsigned, hplain⟩ := unsigned_yamlDouble hunpack hle
      exact Formula.parse_of_unsigned hplain hunsigned

/-- The text of a finite number that is not readable has a sign, in front or in its power of ten. -/
theorem exists_sign_of_not_isReadable (hfinite : n.IsFinite) (h : ¬ n.IsReadable) :
    (∃ rest, n.text.toList = '-' :: rest) ∨
      ∃ mantissa power : List Char, n.text.toList = mantissa ++ 'e' :: '-' :: power ∧
        ∀ c ∈ mantissa, c.isDigit ∨ c = '.' := by
  cases n with
  | integer n =>
    cases n with
    | ofNat k => exact absurd (Int.natCast_nonneg k) h
    | negSucc k => exact .inl ⟨_, toList_text_negSucc k⟩
  | float x =>
    obtain ⟨hzero, hsmall⟩ := not_or.1 h
    rcases isFinite_iff.1 hfinite with ⟨sign, hunpack⟩ | ⟨sign, m, e, hpos, hunpack⟩
    · cases sign with
      | positive => exact absurd (eq_of_unpack hunpack) hzero
      | negative =>
        rw [eq_of_unpack hunpack]
        exact .inl ⟨"0.0".toList, by decide +kernel⟩
    · cases sign with
      | positive =>
        obtain ⟨mantissa, power, htext, hmantissa, -⟩ := yamlDouble_of_lt hunpack hsmall
        exact .inr ⟨mantissa, power, htext, hmantissa⟩
      | negative =>
        rw [text, yamlDouble_eq_ofDecimal hunpack, Layout.signed, String.toList_ofList]
        exact .inl ⟨_, rfl⟩

/-- **The formula of a number with a sign is NaN.** -/
theorem eval_parse_text_of_not_isReadable (hfinite : n.IsFinite) (h : ¬ n.IsReadable)
    (g : Grid Float32) : (Formula.parse n.text).eval g = nan := by
  have hminus : Operation.ofSymbol? '-' = some .sub := rfl
  rcases exists_sign_of_not_isReadable hfinite h with ⟨rest, htext⟩ | ⟨mantissa, power, htext, hm⟩
  · have hfirst : (Formula.cut n.text.toList).1 = [] := by
      rw [htext, Formula.cut_of_symbol hminus]
    have hunknown : Formula.ofPiece [] = .unknown "" := by decide
    exact Formula.eval_parse_eq_nan hfirst hunknown g
  · obtain ⟨hfree, operand, hunknown⟩ := Formula.ofPiece_of_dangling hm
    have hfirst : (Formula.cut n.text.toList).1 = mantissa ++ ['e'] := by
      rw [htext, List.append_cons, Formula.cut_append hfree, Formula.cut_of_symbol hminus,
        List.append_nil]
    exact Formula.eval_parse_eq_nan hfirst hunknown g

/-- The value of the formula of a finite number, over any grid. -/
theorem eval_parse_text (hfinite : n.IsFinite) (g : Grid Float32) :
    (Formula.parse n.text).eval g = if n.IsReadable then n.value else nan := by
  split
  · rename_i h
    rw [parse_text_of_isReadable hfinite h, Formula.eval]
  · rename_i h
    exact eval_parse_text_of_not_isReadable hfinite h g

end Spreadsheet.Yaml.Number
