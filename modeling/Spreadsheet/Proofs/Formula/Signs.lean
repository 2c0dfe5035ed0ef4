import Spreadsheet.Proofs.Formula.Display
import Spreadsheet.Proofs.Formula.Faults
import Spreadsheet.Proofs.Formula.Names

/-! # Signs in numbers
A formula has no signs: a minus is always an operation, also in front of a number and in a power of
ten. So a text is read as a number if it is an unsigned numeral, and one with a sign is NaN: what
stands in front of the sign is nothing, or a mantissa and the letter of a power, and either is an
unknown operand. A text without capital letters names no cell. -/

namespace Spreadsheet

open Decimal

namespace Decimal

variable {text power : List Char} {c : Char} {x : Float} {e : Nat}

/-- A power that is there ends in a digit. -/
theorem Power.isDigit_of_getLast? (h : Power power e) (hc : power.getLast? = some c) :
    c.isDigit := by
  cases h with
  | absent => exact nomatch hc
  | @mark mark digits _ _ hdigits =>
    rw [List.getLast?_cons, List.getLast?_eq_some_getLast hdigits.ne_nil] at hc
    obtain rfl := Option.some.inj hc
    exact hdigits.isDigit_of_mem (List.getLast_mem hdigits.ne_nil)

/-- An unsigned numeral ends in a digit or a point. -/
theorem Unsigned.isDigit_or_of_getLast? (h : Unsigned text x) (hc : text.getLast? = some c) :
    c.isDigit ∨ c = '.' := by
  cases h with
  | whole hdigits hpower =>
    rw [List.getLast?_append, Option.or_eq_some_iff] at hc
    rcases hc with hc | ⟨-, hc⟩
    · exact .inl (hpower.isDigit_of_getLast? hc)
    · exact .inl (hdigits.isDigit_of_mem (List.mem_of_getLast? hc))
  | @pointed digits fraction power _ _ hdigits hpower =>
    rw [List.getLast?_append, List.getLast?_cons, Option.some_or, Option.some.injEq] at hc
    cases hlast : (fraction ++ power).getLast? with
    | none =>
      rw [hlast] at hc
      exact .inr hc.symm
    | some last =>
      rw [hlast] at hc
      obtain rfl : last = c := hc
      rw [List.getLast?_append, Option.or_eq_some_iff] at hlast
      rcases hlast with hlast | ⟨-, hlast⟩
      · exact .inl (hpower.isDigit_of_getLast? hlast)
      · exact .inl (hdigits.isDigit_of_mem (List.mem_append_right _ (List.mem_of_getLast? hlast)))

end Decimal

namespace Formula

variable {f leaf : Formula} {steps : List (Operation × Formula)} {text : String} {x : Float}

/-! ## Leaves of chains -/

/-- The first leaf of a chain is one of its leaves. -/
theorem mem_leaves_chain (h : leaf ∈ f.leaves) : leaf ∈ (chain f steps).leaves := by
  induction steps using List.reverseRecOn with
  | nil => exact h
  | append_singleton steps step ih =>
    rw [chain_concat, leaves]
    exact List.mem_append_left _ ih

/-! ## Texts without capital letters -/

/-- The characters of a gap are some of the text. -/
theorem Gaps.mem {first gap : List Char} {more : List (Operation × List Char)} {c : Char}
    (h : Gaps text.toList first more) (hgap : gap ∈ first :: more.map (·.2)) (hc : c ∈ gap) :
    c ∈ text.toList := by
  rw [← h.join_eq, join, List.mem_append, List.mem_flatMap]
  rcases List.mem_cons.1 hgap with rfl | hgap
  · exact .inl hc
  · obtain ⟨step, hstep, rfl⟩ := List.mem_map.1 hgap
    exact .inr ⟨step, hstep, List.mem_cons_of_mem _ hc⟩

/-- **A text without capital letters** names no cell. -/
theorem references_parse (h : ∀ c ∈ text.toList, ¬ ('A' ≤ c ∧ c ≤ 'Z')) :
    (parse text).references = [] := by
  have hgaps := gaps_cut text.toList
  rw [hgaps.references_parse, namedKeys, List.map_eq_nil_iff, List.filter_eq_nil_iff]
  intro operand hoperand
  obtain ⟨gap, hgap, rfl⟩ := List.mem_map.1 hoperand
  rw [decide_eq_true_eq]
  exact Key.not_lettersThenDigits fun c hc => h c (hgaps.mem hgap (Text.mem_of_mem_trim hc))

/-! ## Numbers with and without signs -/

/-- An unsigned numeral is read as its number. -/
theorem parse_of_unsigned (hplain : ∀ c ∈ text.toList, c.isDigit ∨ c = '.' ∨ c = 'e')
    (h : Unsigned text.toList x) : parse text = literal x := by
  obtain ⟨hfree, hleaf⟩ := ofPiece_of_unsigned hplain h
  have hgaps : Gaps text.toList text.toList [] := ⟨List.append_nil _, hfree, nofun⟩
  rw [parse_eq_chain, hgaps.cut_eq, hleaf]
  rfl

/-- A mantissa and the letter of a power, with nothing behind it, are no operand. -/
theorem ofPiece_of_dangling {mantissa : List Char} (h : ∀ c ∈ mantissa, c.isDigit ∨ c = '.') :
    SymbolFree (mantissa ++ ['e']) ∧ ∃ operand, ofPiece (mantissa ++ ['e']) = unknown operand := by
  have hplain : ∀ c ∈ mantissa ++ ['e'], c.isDigit ∨ c = '.' ∨ c = 'e' := by
    intro c hc
    rcases List.mem_append.1 hc with hc | hc
    · exact (h c hc).imp_right .inl
    · exact .inr (.inr (List.mem_singleton.1 hc))
  obtain ⟨hfree, hstands, hkey, hradix⟩ := symbolFree_of_plain hplain
  refine ⟨hfree, ?_⟩
  generalize ofPiece (mantissa ++ ['e']) = leaf at hstands
  cases hstands with
  | reference h => exact absurd h hkey
  | literal _ hnumeral =>
    generalize htext : mantissa ++ ['e'] = w at hnumeral hplain hradix
    cases hnumeral with
    | infinity => exact absurd (hplain 'I' (by decide)) (by decide)
    | radix hmark => exact absurd ⟨_, _, _, rfl, hmark⟩ hradix
    | decimal _ hdecimal =>
      -- the letter of a power is not the end of a numeral
      have hlast : w.getLast? = some 'e' := htext ▸ List.getLast?_concat
      exact absurd (hdecimal.isDigit_or_of_getLast? hlast) (by decide)
  | unknown => exact ⟨_, rfl⟩

/-- **A formula that starts with an unknown operand is NaN.** -/
theorem eval_parse_eq_nan {first : List Char} {operand : String}
    (hfirst : (cut text.toList).1 = first) (hunknown : ofPiece first = unknown operand)
    (g : Grid Float32) : (parse text).eval g = nan := by
  rw [parse_eq_chain, hfirst, hunknown]
  exact eval_eq_nan (mem_leaves_chain (List.mem_singleton_self _)) rfl

end Formula

end Spreadsheet
