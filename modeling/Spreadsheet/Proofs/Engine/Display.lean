import Spreadsheet.Proofs.Recalculation.Scheduled
import Spreadsheet.Engine.Basic

/-! # The shown texts follow the values
A shown text is written whenever a value is, into the same slot. So after evaluations in a row a
slot that one of them wrote shows the value stored there, and every other slot shows what it showed
before. -/

namespace Spreadsheet

namespace Engine

variable {g : Graph} {values : Grid Float32} {shown : Grid String} {order : List String}
  {key : String} {i : Nat}

/-- Displaying an evaluation changes at most the slot that it wrote. -/
theorem cells_display_evaluate_of_ne (h : key ∈ g.table → values.dimensions.slot? key ≠ some i) :
    (display shown (g.evaluate values key).1).cells[i]? = shown.cells[i]? := by
  cases hformula : g.table[key]? with
  | none => rw [Graph.evaluate_of_eq_none hformula, display]
  | some formula =>
    rw [Graph.evaluate_of_eq_some hformula]
    have hne := h (Graph.mem_table_of_eq_some hformula)
    cases hslot : values.dimensions.slot? key with
    | none => simp only [display, Grid.set, Grid.index?_eq_slot?, hslot]
    | some j =>
      simp only [display, Grid.set, Grid.index?_eq_slot?, hslot, Grid.cells_setIndex]
      rw [if_neg fun hij => hne (hslot.trans (congrArg some hij))]

/-- Displaying an evaluation shows the value that it wrote. -/
theorem cells_display_evaluate_self (hdim : shown.dimensions = values.dimensions)
    (hmem : key ∈ g.table) (hslot : values.dimensions.slot? key = some i) :
    (display shown (g.evaluate values key).1).cells[i]? =
      (g.evaluate values key).2.cells[i]?.map cellText := by
  obtain ⟨formula, hformula⟩ := KeyMap.mem_iff.1 hmem
  have hindex : shown.index? key = some i := by rw [Grid.index?_eq_slot?, hdim, hslot]
  have hi : i < shown.cells.size := Grid.index?_lt_size hindex
  rw [Graph.evaluate_of_eq_some hformula, Grid.cells_set, if_pos hslot]
  simp only [display, Grid.set, Grid.index?_eq_slot?, hslot, Grid.cells_setIndex, if_pos hi,
    if_true, Option.map_some]

theorem dimensions_display (shown : Grid String) (e : Evaluation) :
    (display shown e).dimensions = shown.dimensions := dimensions_foldl_display [e] shown

/-- A slot that no evaluation writes shows what it showed before. -/
theorem cells_foldl_display_of_ne
    (h : ∀ key ∈ order, key ∈ g.table → values.dimensions.slot? key ≠ some i) :
    ((g.evaluateAll values order).1.foldl display shown).cells[i]? = shown.cells[i]? := by
  induction order generalizing values shown with
  | nil => rfl
  | cons head rest ih =>
    rw [Graph.evaluateAll_cons, List.foldl_cons, ih,
      cells_display_evaluate_of_ne (h head List.mem_cons_self)]
    intro key hkey
    rw [Graph.dimensions_evaluate]
    exact h key (List.mem_cons_of_mem head hkey)

/-- **A slot that an evaluation writes shows the value stored there.** -/
theorem cells_foldl_display (hdim : shown.dimensions = values.dimensions) (hkey : key ∈ order)
    (hmem : key ∈ g.table) (hslot : values.dimensions.slot? key = some i) :
    ((g.evaluateAll values order).1.foldl display shown).cells[i]? =
      (g.evaluateAll values order).2.cells[i]?.map cellText := by
  induction order generalizing values shown key with
  | nil => exact absurd hkey List.not_mem_nil
  | cons head rest ih =>
    rw [Graph.evaluateAll_cons, List.foldl_cons]
    have hdim' : (display shown (g.evaluate values head).1).dimensions =
        (g.evaluate values head).2.dimensions := by
      rw [dimensions_display, Graph.dimensions_evaluate, hdim]
    by_cases hrest : ∃ later ∈ rest, later ∈ g.table ∧ values.dimensions.slot? later = some i
    · -- the last evaluation that writes the slot decides both what it holds and what it shows
      obtain ⟨later, hlater, hlatermem, hlaterslot⟩ := hrest
      exact ih hdim' hlater hlatermem (by rwa [Graph.dimensions_evaluate])
    · have hfree : ∀ later ∈ rest, later ∈ g.table →
          (g.evaluate values head).2.dimensions.slot? later ≠ some i := by
        intro later hlater hlatermem hlaterslot
        rw [Graph.dimensions_evaluate] at hlaterslot
        exact hrest ⟨later, hlater, hlatermem, hlaterslot⟩
      rcases List.mem_cons.1 hkey with rfl | hkey
      · rw [cells_foldl_display_of_ne hfree, Graph.cells_evaluateAll hfree,
          cells_display_evaluate_self hdim hmem hslot]
      · exact absurd ⟨key, hkey, hmem, hslot⟩ hrest

end Engine

end Spreadsheet
