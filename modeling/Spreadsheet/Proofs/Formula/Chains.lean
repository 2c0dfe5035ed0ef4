import Mathlib.Data.List.Forall2
import Spreadsheet.Proofs.Formula.Operands

/-! # Formulas are read from left to right
The operation symbols of a text, wherever they stand, have **gaps** in front of, between and behind
them, which are free of symbols; there is one way to take a text apart like this. The formula of the
text is a **chain**: it starts with the leaf of the first gap, and each symbol puts what came before
it on its left and the leaf of the gap after it on its right. So no operation stands on the right of
another one, and the value of a chain is the left fold of the values of its leaves. -/

namespace Spreadsheet.Formula

/-! ## Gaps -/

/-- The text of a gap, and each operation symbol with the gap after it. -/
def join (first : List Char) (more : List (Operation × List Char)) : List Char :=
  first ++ more.flatMap fun (op, gap) => op.symbol :: gap

/-- The gaps of a text, with the operations whose symbols stand between them. -/
structure Gaps (text first : List Char) (more : List (Operation × List Char)) : Prop where
  /-- They make up the text. -/
  join_eq : join first more = text
  /-- No symbol stands in the first gap. -/
  free : SymbolFree first
  /-- No symbol stands in a later gap. -/
  free_of_mem : ∀ gap ∈ more, SymbolFree gap.2

variable {text first : List Char} {more : List (Operation × List Char)}

theorem join_cons (op : Operation) (gap : List Char) :
    join first ((op, gap) :: more) = first ++ op.symbol :: join gap more := by
  rw [join, join, List.flatMap_cons, List.cons_append]

/-- A symbol is a cut. -/
theorem cut_of_symbol {c : Char} {op : Operation} (h : Operation.ofSymbol? c = some op)
    (rest : List Char) : cut (c :: rest) = ([], (op, (cut rest).1) :: (cut rest).2) := by
  rw [cut, h]

/-- A character that is no symbol belongs to the first gap. -/
theorem cut_of_not_symbol {c : Char} (h : Operation.ofSymbol? c = none) (rest : List Char) :
    cut (c :: rest) = (c :: (cut rest).1, (cut rest).2) := by
  rw [cut, h]

/-- The cuts of a text lie between its gaps. -/
theorem gaps_cut (text : List Char) : Gaps text (cut text).1 (cut text).2 := by
  induction text with
  | nil => exact ⟨rfl, fun _ => nofun, nofun⟩
  | cons c rest ih =>
    obtain ⟨hjoin, hfirst, hmore⟩ := ih
    cases hc : Operation.ofSymbol? c with
    | some op =>
      rw [cut_of_symbol hc]
      refine ⟨?_, fun _ => nofun, fun gap hgap => ?_⟩
      · rw [join_cons, hjoin, List.nil_append, Operation.symbol_of_ofSymbol? hc]
      · rcases List.mem_cons.1 hgap with rfl | hgap
        · exact hfirst
        · exact hmore gap hgap
    | none =>
      rw [cut_of_not_symbol hc]
      refine ⟨congrArg (c :: ·) hjoin, fun d hd => ?_, hmore⟩
      rcases List.mem_cons.1 hd with rfl | hd
      · exact hc
      · exact hfirst d hd

theorem cut_append (hfree : SymbolFree first) (rest : List Char) :
    cut (first ++ rest) = (first ++ (cut rest).1, (cut rest).2) := by
  induction first with
  | nil => rfl
  | cons c first ih =>
    rw [List.cons_append, cut_of_not_symbol (hfree c List.mem_cons_self),
      ih fun d hd => hfree d (List.mem_cons_of_mem _ hd)]
    rfl

/-- **There is one way to take a text apart**, at its cuts. -/
theorem Gaps.cut_eq (h : Gaps text first more) : cut text = (first, more) := by
  obtain ⟨rfl, hfirst, hmore⟩ := h
  induction more generalizing first with
  | nil =>
    rw [join, cut_append hfirst, List.flatMap_nil, cut, List.append_nil]
  | cons step more ih =>
    obtain ⟨op, gap⟩ := step
    rw [join_cons, cut_append hfirst, cut_of_symbol (Operation.ofSymbol?_symbol op),
      ih (hmore _ List.mem_cons_self) fun gap' h => hmore gap' (List.mem_cons_of_mem _ h),
      List.append_nil]

/-! ## Chains -/

/-- The formula that starts with a leaf and goes on with operations, each with the leaf on its
right. -/
def chain (leaf : Formula) (steps : List (Operation × Formula)) : Formula :=
  steps.foldl (fun left (op, right) => operation op left right) leaf

/-- No operation of the formula has an operation on its right. -/
def IsLeftNested : Formula → Prop
  | operation _ left right => left.IsLeftNested ∧ right.isOperation = false
  | _ => True

variable {leaf : Formula} {steps : List (Operation × Formula)}

theorem chain_concat (op : Operation) (right : Formula) :
    chain leaf (steps ++ [(op, right)]) = operation op (chain leaf steps) right := by
  rw [chain, List.foldl_append]
  rfl

/-- A chain of leaves has no operation on the right of another one. -/
theorem isLeftNested_chain (hleaf : leaf.isOperation = false)
    (hsteps : ∀ step ∈ steps, step.2.isOperation = false) : (chain leaf steps).IsLeftNested := by
  induction steps using List.reverseRecOn with
  | nil => cases leaf <;> first | exact trivial | exact nomatch hleaf
  | append_singleton steps step ih =>
    rw [chain_concat]
    exact ⟨ih fun step h => hsteps step (List.mem_append_left _ h), hsteps step (by simp)⟩

/-- A chain of leaves has one operation per step. -/
theorem operationCount_chain (hleaf : leaf.isOperation = false)
    (hsteps : ∀ step ∈ steps, step.2.isOperation = false) :
    (chain leaf steps).operationCount = steps.length := by
  have hzero : ∀ {f : Formula}, f.isOperation = false → f.operationCount = 0 := by
    intro f hf
    cases f <;> first | rfl | exact nomatch hf
  induction steps using List.reverseRecOn with
  | nil => exact hzero hleaf
  | append_singleton steps step ih =>
    rw [chain_concat, operationCount, ih fun step h => hsteps step (List.mem_append_left _ h),
      hzero (hsteps step (by simp)), List.length_append, List.length_singleton, Nat.add_zero]

/-- **The value of a chain** is the left fold of the values of its leaves. -/
theorem eval_chain (g : Grid Float32) :
    (chain leaf steps).eval g =
      steps.foldl (fun value (op, right) => op.apply value (right.eval g)) (leaf.eval g) := by
  induction steps generalizing leaf with
  | nil => rfl
  | cons step steps ih => exact ih

/-- The formula of a text is the chain of its gaps. -/
theorem parse_eq_chain (text : String) :
    parse text = chain (ofPiece (cut text.toList).1)
      ((cut text.toList).2.map fun gap => (gap.1, ofPiece gap.2)) := by
  rw [parse, chain, List.foldl_map]

/-- A gap stands for a leaf once the blanks around it are dropped. -/
theorem standsFor_ofPiece {gap : List Char} (hfree : SymbolFree gap) :
    StandsFor (Text.trim gap) (ofPiece gap) :=
  (standsFor_iff fun c hc => hfree c (Text.mem_of_mem_trim hc)).2 rfl

/-- **A text is read and evaluated strictly from left to right.** Whatever the text, it has exactly
one sequence of gaps, between the operation symbols in the order in which they occur; its formula is
the chain of the leaves that the gaps without the blanks around them stand for, and over every grid
the value of the formula is the left fold of the values of these leaves. -/
theorem read_from_left_to_right (text : String) :
    ∃ first more, Gaps text.toList first more ∧
      (∀ first' more', Gaps text.toList first' more' → first' = first ∧ more' = more) ∧
      more.map (·.1) = text.toList.filterMap Operation.ofSymbol? ∧
      ∃ leaf steps, StandsFor (Text.trim first) leaf ∧
        List.Forall₂ (fun gap step => gap.1 = step.1 ∧ StandsFor (Text.trim gap.2) step.2)
          more steps ∧
        parse text = chain leaf steps ∧
        (parse text).IsLeftNested ∧
        (parse text).operationCount = more.length ∧
        (parse text).leafCount = more.length + 1 ∧
        ∀ g, (parse text).eval g =
          steps.foldl (fun value (op, right) => op.apply value (right.eval g)) (leaf.eval g) := by
  have hgaps := gaps_cut text.toList
  have hleaf := standsFor_ofPiece hgaps.free
  have hsteps : ∀ step ∈ (cut text.toList).2.map fun gap => (gap.1, ofPiece gap.2),
      step.2.isOperation = false := by
    intro step hstep
    obtain ⟨gap, hgap, rfl⟩ := List.mem_map.1 hstep
    exact (standsFor_ofPiece (hgaps.free_of_mem gap hgap)).isOperation_eq
  have hcount : (parse text).operationCount = (cut text.toList).2.length := by
    rw [parse_eq_chain, operationCount_chain hleaf.isOperation_eq hsteps, List.length_map]
  refine ⟨_, _, hgaps, fun first' more' h => Prod.mk.inj (h.cut_eq.symm), map_fst_cut _, _, _,
    hleaf, ?_, parse_eq_chain text, ?_, hcount, ?_, fun g => ?_⟩
  · refine List.forall₂_map_right_iff.2 (List.forall₂_same.2 ?_)
    exact fun gap hgap => ⟨rfl, standsFor_ofPiece (hgaps.free_of_mem gap hgap)⟩
  · rw [parse_eq_chain]
    exact isLeftNested_chain hleaf.isOperation_eq hsteps
  · rw [leafCount_eq, hcount]
  · rw [parse_eq_chain, eval_chain]

/-- A sign in a power is an operation, and a missing operand is unknown. -/
example : parse " 1e-3 * A1 /" =
    operation .div (operation .mul (operation .sub (unknown "1e") (literal 3)) (reference "A1"))
      (unknown "") := by decide

end Spreadsheet.Formula
