import Spreadsheet.Formula.Basic

/-! # Faults in formulas
NaN marks a **fault**. An operation with a faulty operand is faulty, so a fault of one **leaf** is a
fault of the whole formula, at whatever depth and on whichever side the leaf is. An unknown leaf is
always at fault, and a reference is where the grid holds NaN or has no such cell. Narrowing and
widening keep a fault. -/

namespace Spreadsheet

open Float.Model

/-! ## Numbers -/

/-- An operation on NaN gives NaN. -/
theorem Operation.apply_nan_left (op : Operation) (y : Float) : op.apply nan y = nan := by
  cases op <;> rfl

/-- An operation by NaN gives NaN. -/
theorem Operation.apply_nan_right (op : Operation) (x : Float) : op.apply x nan = nan := by
  have hadd : ∀ u : UnpackedFloat, u.add .binary64 .notANumber = .notANumber := by
    intro u
    cases u <;> rfl
  have hsub : ∀ u : UnpackedFloat, u.sub .binary64 .notANumber = .notANumber := by
    intro u
    cases u <;> rfl
  have hmul : ∀ u : UnpackedFloat, u.mul .binary64 .notANumber = .notANumber := by
    intro u
    cases u <;> rfl
  have hdiv : ∀ u : UnpackedFloat, u.div .binary64 .notANumber = .notANumber := by
    intro u
    cases u <;> rfl
  cases op with
  | add => exact congrArg (fun u => Float.ofModel (pack u)) (hadd x.toModel.unpack)
  | sub => exact congrArg (fun u => Float.ofModel (pack u)) (hsub x.toModel.unpack)
  | mul => exact congrArg (fun u => Float.ofModel (pack u)) (hmul x.toModel.unpack)
  | div => exact congrArg (fun u => Float.ofModel (pack u)) (hdiv x.toModel.unpack)

/-- A NaN is narrowed to one that is widened to NaN. -/
theorem widen_narrow_nan : widen (narrow nan) = nan := by decide +kernel

/-! ## Leaves -/

namespace Formula

variable {f leaf : Formula} {g : Grid Float32} {key text : String}

/-- The operands of a formula, from left to right. -/
def leaves : Formula → List Formula
  | operation _ left right => left.leaves ++ right.leaves
  | leaf => [leaf]

/-- Some operand is unknown if and only if an unknown text is one of the leaves. -/
theorem hasUnknown_iff : f.hasUnknown ↔ ∃ text, unknown text ∈ f.leaves := by
  induction f with
  | literal | reference | unknown => simp [hasUnknown, leaves]
  | operation op left right ihl ihr =>
    simp only [hasUnknown, leaves, Bool.or_eq_true, ihl, ihr, List.mem_append, exists_or]

/-- A formula reads the keys that are among its leaves. -/
theorem mem_references_iff : key ∈ f.references ↔ reference key ∈ f.leaves := by
  induction f with
  | literal | reference | unknown => simp [references, leaves]
  | operation op left right ihl ihr =>
    simp only [references, leaves, List.mem_append, ihl, ihr]

/-- **A fault of one leaf is a fault of the formula.** -/
theorem eval_eq_nan (hleaf : leaf ∈ f.leaves) (hnan : leaf.eval g = nan) : f.eval g = nan := by
  induction f with
  | literal | reference | unknown =>
    obtain rfl := List.mem_singleton.1 hleaf
    exact hnan
  | operation op left right ihl ihr =>
    rw [eval]
    rcases List.mem_append.1 hleaf with hleft | hright
    · rw [ihl hleft, Operation.apply_nan_left]
    · rw [ihr hright, Operation.apply_nan_right]

end Formula

end Spreadsheet
