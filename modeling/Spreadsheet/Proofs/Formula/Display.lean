import Spreadsheet.Proofs.Decimal.RoundTrip
import Spreadsheet.Proofs.Formula.Chains

/-! # Reading the text of a formula
The text of a chain is the texts of its leaves with the operation symbols between them, so cutting it
gives these texts back, with blanks around them. A key, an unknown operand and a finite literal that
was read from a text are read again as the same leaf. The text of an **infinite literal** is `inf`,
which is not a numeral: reading the text of a formula gives the formula back exactly when it has no
infinite literal. -/

namespace Spreadsheet.Formula

open Decimal

/-! ## Texts of leaves -/

/-- The formula with every infinite literal replaced by the unknown operand that its text is. -/
def withoutInfinity : Formula → Formula
  | literal x => if x = infinity then unknown "inf" else literal x
  | operation op left right => operation op left.withoutInfinity right.withoutInfinity
  | reference key => reference key
  | unknown text => unknown text

variable {w : List Char} {x : Float} {leaf : Formula} {steps : List (Operation × Formula)}

/-- What a numeral denotes is not negative. -/
theorem Numeral.nonnegative (h : Numeral w x) : Nonnegative x.toModel.unpack := by
  cases h with
  | infinity => exact Nonnegative.infinity.unpack_pack
  | radix => exact nonnegative_toDouble _ (0 : Nat)
  | decimal _ h => cases h <;> exact nonnegative_toDouble _ _

/-- Digits, points and the letter of a power are neither blank nor operation symbols, and announce no
radix. -/
theorem plain_of_isDigit_or {c : Char} (h : c.isDigit ∨ c = '.' ∨ c = 'e') :
    Text.isBlank c = false ∧ Operation.ofSymbol? c = none ∧ radix? c = none ∧
      ¬ ('A' ≤ c ∧ c ≤ 'Z') := by
  rcases h with h | rfl | rfl
  · obtain ⟨hlow, hhigh⟩ := toNat_of_isDigit h
    rw [← Char.ofNat_toNat c]
    generalize c.toNat = n at hlow hhigh
    interval_cases n <;> decide
  · decide
  · decide

/-- A text of digits, points and letters of a power is one operand, and no cell key. -/
theorem symbolFree_of_plain (hplain : ∀ c ∈ w, c.isDigit ∨ c = '.' ∨ c = 'e') :
    SymbolFree w ∧ StandsFor w (ofPiece w) ∧ ¬ Key.LettersThenDigits w ∧ ¬ StartsWithRadix w := by
  have hfree : SymbolFree w := fun c hc => (plain_of_isDigit_or (hplain c hc)).2.1
  have htrim : Text.trim w = w :=
    Text.trim_of_forall fun c hc => (plain_of_isDigit_or (hplain c hc)).1
  refine ⟨hfree, (standsFor_iff hfree).2 (by rw [ofPiece, htrim]),
    Key.not_lettersThenDigits fun c hc => (plain_of_isDigit_or (hplain c hc)).2.2.2, ?_⟩
  rintro ⟨mark, digits, radix, rfl, hmark⟩
  exact nomatch (plain_of_isDigit_or (hplain mark (by simp))).2.2.1.symm.trans hmark

/-- **Such a text** that is an unsigned numeral is read as its number. -/
theorem ofPiece_of_unsigned (hplain : ∀ c ∈ w, c.isDigit ∨ c = '.' ∨ c = 'e')
    (h : Unsigned w x) : SymbolFree w ∧ ofPiece w = literal x := by
  obtain ⟨hfree, hstands, hkey, hradix⟩ := symbolFree_of_plain hplain
  refine ⟨hfree, ?_⟩
  rw [(standsFor_iff hfree).1 hstands]
  exact ((standsFor_iff hfree).1 (.literal hkey (.decimal hradix h))).symm

/-- The text of the infinite literal is an unknown operand. -/
theorem ofPiece_text_infinity :
    SymbolFree (literal infinity).text.toList ∧
      ofPiece (literal infinity).text.toList = unknown "inf" := by
  have htext : (literal infinity).text.toList = ['i', 'n', 'f'] := by decide +kernel
  rw [htext]
  have hfree : SymbolFree ['i', 'n', 'f'] := List.forall_mem_cons.2
    ⟨rfl, List.forall_mem_cons.2 ⟨rfl, List.forall_mem_singleton.2 rfl⟩⟩
  exact ⟨hfree, by decide +kernel⟩

/-- **The text of a leaf is read back as the leaf**, unless the leaf is infinite. -/
theorem ofPiece_text (hfree : SymbolFree w) (htrim : Text.trim w = w) (h : StandsFor w leaf) :
    SymbolFree leaf.text.toList ∧ ofPiece leaf.text.toList = leaf.withoutInfinity := by
  have hself : ofPiece w = leaf := by
    rw [ofPiece, htrim]
    exact ((standsFor_iff hfree).1 h).symm
  cases h with
  | reference => exact ⟨by rwa [text, String.toList_ofList], by rwa [text, String.toList_ofList]⟩
  | unknown => exact ⟨by rwa [text, String.toList_ofList], by rwa [text, String.toList_ofList]⟩
  | @literal x _ hx =>
    by_cases hinfinite : x = infinity
    · rw [hinfinite, withoutInfinity, if_pos rfl]
      exact ofPiece_text_infinity
    · rw [withoutInfinity, if_neg hinfinite]
      exact ofPiece_of_unsigned
        (fun c hc => (isDigit_or_of_mem_plain hx.nonnegative hinfinite hc).imp_right .inl)
        (unsigned_plain hx.nonnegative hinfinite)

/-! ## Texts of chains -/

/-- The text of operations and the leaves on their right, after the text of a formula. -/
def stepTexts (steps : List (Operation × Formula)) : List Char :=
  steps.flatMap fun (op, right) => ' ' :: op.symbol :: ' ' :: right.text.toList

/-- The text of a chain is the texts of its leaves with the operation symbols between them. -/
theorem toList_text_chain (hsteps : ∀ step ∈ steps, step.2.isOperation = false) :
    (chain leaf steps).text.toList = leaf.text.toList ++ stepTexts steps := by
  induction steps using List.reverseRecOn with
  | nil => exact (List.append_nil _).symm
  | append_singleton steps step ih =>
    obtain ⟨op, right⟩ := step
    have hright : right.isOperation = false := hsteps (op, right) (by simp)
    rw [chain_concat, text, if_neg (by simp [hright]), stepTexts, List.flatMap_append,
      ← stepTexts, ← List.append_assoc, ← ih fun step h => hsteps step (List.mem_append_left _ h)]
    simp

/-- Cutting such a text gives the texts of the leaves back, with blanks around them. -/
theorem cut_append_stepTexts (hfree : SymbolFree w)
    (hsteps : ∀ step ∈ steps, SymbolFree step.2.text.toList) :
    ofPiece (cut (w ++ stepTexts steps)).1 = ofPiece w ∧
      ((cut (w ++ stepTexts steps)).2.map fun gap => (gap.1, ofPiece gap.2)) =
        steps.map fun step => (step.1, ofPiece step.2.text.toList) := by
  induction steps generalizing w with
  | nil =>
    rw [stepTexts, List.flatMap_nil, cut_append hfree, cut, List.append_nil]
    exact ⟨rfl, rfl⟩
  | cons step steps ih =>
    obtain ⟨op, right⟩ := step
    have hblank : Operation.ofSymbol? ' ' = none := rfl
    have hright : SymbolFree (' ' :: right.text.toList) :=
      List.forall_mem_cons.2 ⟨hblank, hsteps (op, right) List.mem_cons_self⟩
    obtain ⟨hfirst, hmore⟩ := ih hright fun step h => hsteps step (List.mem_cons_of_mem _ h)
    have htext : w ++ stepTexts ((op, right) :: steps) =
        w ++ ' ' :: op.symbol :: (' ' :: right.text.toList ++ stepTexts steps) := rfl
    rw [htext, cut_append hfree, cut_of_not_symbol hblank,
      cut_of_symbol (Operation.ofSymbol?_symbol op)]
    refine ⟨?_, ?_⟩
    · rw [ofPiece, Text.trim_concat_of_isBlank _ rfl, ofPiece]
    · rw [List.map_cons, List.map_cons, hfirst, hmore, ofPiece, Text.trim_cons_of_isBlank _ rfl,
        ofPiece]

theorem withoutInfinity_chain :
    (chain leaf steps).withoutInfinity =
      chain leaf.withoutInfinity (steps.map fun step => (step.1, step.2.withoutInfinity)) := by
  induction steps using List.reverseRecOn with
  | nil => rfl
  | append_singleton steps step ih =>
    rw [chain_concat, withoutInfinity, ih, List.map_append, List.map_singleton, chain_concat]

/-- **The text of a formula that was read from a text** is read as the same formula with its
infinite literals replaced. -/
theorem parse_text_parse (text : String) :
    parse (parse text).text = (parse text).withoutInfinity := by
  have hgaps := gaps_cut text.toList
  have hleaf : ∀ {gap : List Char}, SymbolFree gap → SymbolFree (ofPiece gap).text.toList ∧
      ofPiece (ofPiece gap).text.toList = (ofPiece gap).withoutInfinity := fun hfree =>
    ofPiece_text (fun c hc => hfree c (Text.mem_of_mem_trim hc)) (Text.trim_trim _)
      (standsFor_ofPiece hfree)
  obtain ⟨hfirst, hread⟩ := hleaf hgaps.free
  have hsteps : ∀ step ∈ (cut text.toList).2.map fun gap => (gap.1, ofPiece gap.2),
      step.2.isOperation = false ∧ SymbolFree step.2.text.toList ∧
        ofPiece step.2.text.toList = step.2.withoutInfinity := by
    intro step hstep
    obtain ⟨gap, hgap, rfl⟩ := List.mem_map.1 hstep
    have hfree := hgaps.free_of_mem gap hgap
    exact ⟨(standsFor_ofPiece hfree).isOperation_eq, hleaf hfree⟩
  obtain ⟨hpiece, hpieces⟩ := cut_append_stepTexts hfirst fun step h => (hsteps step h).2.1
  rw [parse_eq_chain text, withoutInfinity_chain, parse_eq_chain,
    toList_text_chain fun step h => (hsteps step h).1, hpiece, hread, hpieces]
  refine congrArg _ (List.map_congr_left fun step h => ?_)
  rw [(hsteps step h).2.2]

/-- A formula is left as it is exactly when it has no infinite literal. -/
theorem withoutInfinity_eq_self_iff (f : Formula) :
    f.withoutInfinity = f ↔ infinity ∉ f.literals := by
  induction f with
  | literal x =>
    rw [withoutInfinity, literals, List.mem_singleton]
    split
    · rename_i h
      exact ⟨(fun heq => nomatch heq), fun hne => absurd h.symm hne⟩
    · rename_i h
      exact ⟨fun _ heq => h heq.symm, fun _ => rfl⟩
  | reference key => exact ⟨fun _ => List.not_mem_nil, fun _ => rfl⟩
  | unknown text => exact ⟨fun _ => List.not_mem_nil, fun _ => rfl⟩
  | operation op left right ihl ihr =>
    rw [withoutInfinity, literals, List.mem_append, not_or, ← ihl, ← ihr, operation.injEq]
    exact ⟨fun h => h.2, fun h => ⟨rfl, h⟩⟩

/-- **Which formulas survive being shown and read again.** Whatever text a formula was read from, the
text of the formula is read as the same formula exactly when none of its literals is infinite; else
these become unknown operands, and nothing else changes. -/
theorem shown_and_read_again (text : String) :
    parse (parse text).text = (parse text).withoutInfinity ∧
      (parse (parse text).text = parse text ↔ infinity ∉ (parse text).literals) := by
  refine ⟨parse_text_parse text, ?_⟩
  rw [parse_text_parse, withoutInfinity_eq_self_iff]

/-- The infinite literal is shown as `inf`, which is not a number. -/
theorem infinity_lost_when_shown :
    parse "Infinity" = literal infinity ∧ (parse "Infinity").text = "inf" ∧
      parse (parse "Infinity").text = unknown "inf" ∧
      ¬ ∀ text, parse (parse text).text = parse text := by
  have hparse : parse "Infinity" = literal infinity := by decide +kernel
  have htext : (parse "Infinity").text = "inf" := by decide +kernel
  have hagain : parse (parse "Infinity").text = unknown "inf" := by
    rw [htext]
    decide +kernel
  exact ⟨hparse, htext, hagain, fun h => nomatch hagain.symm.trans ((h "Infinity").trans hparse)⟩

end Spreadsheet.Formula
