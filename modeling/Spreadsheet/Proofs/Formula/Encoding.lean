import Spreadsheet.Formula.Encoding
import Spreadsheet.Proofs.Json.Texts

/-! # Published formulas read back
The JSON text of a formula is read back as a formula of the same shape, with the same operations,
keys and unknown operands, whatever characters are in them. Only a literal can change: it becomes
what the reader of numbers gives for its text. The literals must be finite, since others have no
text, and the formula must not be **nested** deeper than the reader goes. -/

namespace Spreadsheet.Formula

open Json

variable {f g : Formula} {depth : Nat}

/-- How many formulas lie inside one another. -/
def nesting : Formula → Nat
  | operation _ left right => max left.nesting right.nesting + 1
  | _ => 1

/-- A formula is the same as another one but for its literals, which are what the reader of numbers
gives for the texts of the other's. -/
inductive ReadsBackAs : Formula → Formula → Prop
  | literal {x y : Float}
    (h : readNumber (Decimal.jsonDouble.render (.ofDouble x)).toList = some (.double y, [])) :
    ReadsBackAs (literal x) (literal y)
  | reference (key : String) : ReadsBackAs (reference key) (reference key)
  | unknown (text : String) : ReadsBackAs (unknown text) (unknown text)
  | operation (op : Operation) {left right left' right' : Formula}
    (hleft : ReadsBackAs left left') (hright : ReadsBackAs right right') :
    ReadsBackAs (operation op left right) (operation op left' right')

/-- **The value of a formula stands for the formula.** -/
theorem ofJson?_toJson (g : Formula) (inner : Bool) : ofJson? inner g.toJson = some g := by
  induction g generalizing inner with
  | literal x => rfl
  | reference key => rfl
  | unknown text => rfl
  | operation op left right ihl ihr =>
    rw [toJson, ofJson?]
    simp only [partsOfFields, ihl, ihr]
    cases op <;> rfl

/-- A leaf is read back as one with the same type whose value is what its own is read back as. -/
theorem isReadBack_leaf {value result : Json} (type : String) (h : IsReadBack depth value result) :
    IsReadBack (depth + 1) (.object [("type", .string type), ("value", value)])
      (.object [("type", .string type), ("value", result)]) :=
  isReadBack_object (.cons ⟨rfl, isReadBack_string depth type⟩ (.cons ⟨rfl, h⟩ .nil))

/-- **The text of a formula is read back**, within the depth of the reader. -/
theorem exists_isReadBack_toJson (hfinite : ∀ x ∈ f.literals, x.isFinite)
    (hnesting : f.nesting ≤ depth) :
    ∃ g, f.ReadsBackAs g ∧ IsReadBack depth f.toJson g.toJson := by
  -- each node is an object and takes up one level of the depth
  induction f generalizing depth with
  | literal x =>
    obtain ⟨depth, rfl⟩ := Nat.exists_eq_succ_of_ne_zero (Nat.ne_of_gt hnesting)
    obtain ⟨y, hy, hback⟩ := exists_isReadBack_double depth (hfinite x List.mem_cons_self)
    exact ⟨literal y, .literal hy, isReadBack_leaf "literal" hback⟩
  | reference key =>
    obtain ⟨depth, rfl⟩ := Nat.exists_eq_succ_of_ne_zero (Nat.ne_of_gt hnesting)
    exact ⟨_, .reference key, isReadBack_leaf "reference" (isReadBack_string depth key)⟩
  | unknown text =>
    obtain ⟨depth, rfl⟩ := Nat.exists_eq_succ_of_ne_zero (Nat.ne_of_gt hnesting)
    exact ⟨_, .unknown text, isReadBack_leaf "unknown" (isReadBack_string depth text)⟩
  | operation op left right ihl ihr =>
    rw [nesting] at hnesting
    obtain ⟨depth, rfl⟩ : ∃ inner, depth = inner + 1 := ⟨depth - 1, by omega⟩
    have hinner : left.nesting ≤ depth ∧ right.nesting ≤ depth := by omega
    obtain ⟨left', hleft, hbackl⟩ :=
      ihl (fun x hx => hfinite x (List.mem_append_left _ hx)) hinner.1
    obtain ⟨right', hright, hbackr⟩ :=
      ihr (fun x hx => hfinite x (List.mem_append_right _ hx)) hinner.2
    refine ⟨_, .operation op hleft hright, isReadBack_object ?_⟩
    exact .cons ⟨rfl, isReadBack_string depth "operator"⟩
      (.cons ⟨rfl, isReadBack_string depth op.symbol.toString⟩
        (.cons ⟨rfl, hbackl⟩ (.cons ⟨rfl, hbackr⟩ .nil)))

/-- **A published formula is read back.** The JSON text of a formula with finite literals and at
most 127 formulas inside one another is read as a formula of the same shape with the same
operations, keys and unknown operands, in which each literal is what the reader of numbers gives for
its text. -/
theorem published_formula_reads_back (hfinite : ∀ x ∈ f.literals, x.isFinite)
    (hnesting : f.nesting ≤ 127) : ∃ g, ofJsonText f.toJson.text = .ok g ∧ f.ReadsBackAs g := by
  obtain ⟨g, hg, hback⟩ := exists_isReadBack_toJson hfinite hnesting
  refine ⟨g, ?_, hg⟩
  have hparse : Json.parse? f.toJson.text = some g.toJson := by
    rw [Json.parse?, Json.text, String.toList_ofList, hback [] (.inl rfl)]
    rfl
  rw [ofJsonText, hparse, Option.bind_some, ofJson?_toJson]

/-- A quotient of a tenth and an operand with a quotation mark, a backslash and a line break. -/
theorem odd_quotient_reads_back :
    let f := operation .div (literal 0.1) (unknown "\"\\\n")
    (∀ x ∈ f.literals, x.isFinite) ∧ f.nesting ≤ 127 ∧
      ∃ g, ofJsonText f.toJson.text = .ok g ∧ f.ReadsBackAs g := by
  intro f
  have hfinite : ∀ x ∈ f.literals, x.isFinite := by
    decide +kernel
  exact ⟨hfinite, by decide, published_formula_reads_back hfinite (by decide)⟩

end Spreadsheet.Formula
