import Spreadsheet.Proofs.Recalculation.Scheduled

/-! # Evaluating again
What an evaluation reads was written by an earlier one of the same list, or it was there before. In
the second case the list must not write it later on, or the evaluation would read something else
when the list is evaluated again. If no cell of a list reads what the list writes first at that
cell or after it, evaluating the list again gives the same evaluations and leaves the same grid. So
it is in particular where inputs are evaluated first and no key that is read shares its slot with
another cell that has a formula. -/

namespace Spreadsheet

/-- Where a write goes depends on the dimensions only. -/
theorem Grid.write_set_congr {α : Type} {a b : Grid α} (hdim : a.dimensions = b.dimensions)
    (key : String) (x y : α) : (a.set key x).2 = (b.set key y).2 := by
  rw [set, set, index?_eq_slot?, index?_eq_slot?, hdim]
  split <;> rfl

namespace Graph

variable {g : Graph} {values again : Grid Float32} {d : Dimensions} {key : String}
  {before rest order : List String} {formula : Formula}

/-- Where an evaluation goes depends on the formulas that there are and on the dimensions only. -/
theorem write_evaluate_congr (hdim : again.dimensions = values.dimensions) (key : String) :
    (g.evaluate again key).1.write = (g.evaluate values key).1.write := by
  cases hformula : g.table[key]? with
  | none => rw [evaluate_of_eq_none hformula, evaluate_of_eq_none hformula]
  | some formula =>
    rw [evaluate_of_eq_some hformula, evaluate_of_eq_some hformula]
    exact Grid.write_set_congr hdim key _ _

/-- In a list each evaluation goes where it would go as the first one. -/
theorem write_of_mem_evaluateAll {e : Evaluation} (he : e ∈ (g.evaluateAll values order).1) :
    e.write = (g.evaluate values e.key).1.write := by
  obtain ⟨before, after, -, heq⟩ := exists_turn he
  rw [← write_evaluate_congr (dimensions_evaluateAll g values before), ← heq]

theorem map_write_evaluateAll (g : Graph) (values : Grid Float32) (order : List String) :
    (g.evaluateAll values order).1.map (fun e => (e.key, e.write)) =
      order.map fun key => (key, (g.evaluate values key).1.write) := by
  have hkeys : order.map (fun key => (key, (g.evaluate values key).1.write)) =
      ((g.evaluateAll values order).1.map (·.key)).map
        fun key => (key, (g.evaluate values key).1.write) := by
    rw [map_key_evaluateAll]
  rw [hkeys, List.map_map]
  exact List.map_congr_left fun e he => Prod.ext rfl (write_of_mem_evaluateAll he)

theorem map_write_evaluateAll_congr (hdim : again.dimensions = values.dimensions)
    (order : List String) :
    (g.evaluateAll again order).1.map (fun e => (e.key, e.write)) =
      (g.evaluateAll values order).1.map fun e => (e.key, e.write) := by
  simp only [map_write_evaluateAll, write_evaluate_congr hdim]

/-! ## Reading after writing -/

/-- Each slot that a cell of a list reads is written before it, if the list writes it at all. -/
def ReadsAfterWrites (g : Graph) (d : Dimensions) (order : List String) : Prop :=
  ∀ before reader later, order = before ++ reader :: later → ∀ source, g.Reads reader source →
    ∀ writer ∈ reader :: later, d.SameSlot writer source →
      ∃ earlier ∈ before, d.SameSlot earlier source

/-- Where inputs are evaluated first, it is enough that no other cell writes what is read. -/
theorem EvaluatesInputsFirst.readsAfterWrites (hinputs : g.EvaluatesInputsFirst order)
    (hmem : ∀ key ∈ order, key ∈ g.table)
    (hunshared : ∀ reader source, g.Reads reader source → g.Unshared d source) :
    g.ReadsAfterWrites d order := by
  rintro before reader later rfl source hread writer hwriter hslot
  -- the only cell that may write the slot is the source itself, which has had its turn
  have hlist : writer ∈ before ++ reader :: later := List.mem_append_right before hwriter
  obtain rfl := hunshared reader source hread writer (hmem writer hlist) hslot
  obtain ⟨-, hlater, -⟩ := List.pairwise_append.1 hinputs.1
  rcases List.mem_cons.1 hwriter with rfl | hwriter
  · exact absurd hread (hinputs.2 writer hlist)
  · exact absurd hread ((List.pairwise_cons.1 hlater).1 writer hwriter)

/-! ## The same list again -/

/-- Two grids between which the rest of a list makes no difference: they agree on what the list has
written so far, and all else is in one of them as the rest leaves it in the other. -/
structure Alike (g : Graph) (before rest : List String) (values again : Grid Float32) : Prop where
  /-- The dimensions are the same. -/
  dimensions_eq : again.dimensions = values.dimensions
  /-- What was written so far is the same. -/
  written : ∀ i, (∃ key ∈ before, values.dimensions.slot? key = some i) →
    again.cells[i]? = values.cells[i]?
  /-- All else is as the rest leaves it. -/
  unwritten : ∀ i, (∀ key ∈ before, values.dimensions.slot? key ≠ some i) →
    again.cells[i]? = (g.evaluateAll values rest).2.cells[i]?

/-- At the end of the list nothing is left to make a difference. -/
theorem Alike.eq (h : g.Alike before [] values again) : again = values :=
  Grid.eq_of_cells h.dimensions_eq fun i => by
    by_cases hi : ∃ key ∈ before, values.dimensions.slot? key = some i
    · exact h.written i hi
    · exact h.unwritten i fun key hkey hslot => hi ⟨key, hkey, hslot⟩

/-- The next cell has the same value over both grids. -/
theorem Alike.eval_eq (h : g.Alike before (key :: rest) values again)
    (hreads : g.ReadsAfterWrites values.dimensions (before ++ key :: rest))
    (hformula : g.table[key]? = some formula) : formula.eval again = formula.eval values := by
  refine Formula.eval_congr fun source hsource => Grid.get?_congr h.dimensions_eq fun i hslot => ?_
  by_cases hi : ∃ key ∈ before, values.dimensions.slot? key = some i
  · exact h.written i hi
  · -- the slot was not written, so the rest, which is what reads it, leaves it alone
    have hfree : ∀ writer ∈ key :: rest, writer ∈ g.table →
        values.dimensions.slot? writer ≠ some i := by
      intro writer hwriter _ hwriterslot
      obtain ⟨earlier, hearlier, j, hearlierslot, hsourceslot⟩ := hreads before key rest rfl
        source ⟨formula, hformula, hsource⟩ writer hwriter ⟨i, hwriterslot, hslot⟩
      obtain rfl := Option.some.inj (hslot.symm.trans hsourceslot)
      exact hi ⟨earlier, hearlier, hearlierslot⟩
    rw [h.unwritten i fun key hkey hslot => hi ⟨key, hkey, hslot⟩, cells_evaluateAll hfree]

/-- **One evaluation** keeps two grids alike. -/
theorem Alike.evaluate (h : g.Alike before (key :: rest) values again)
    (hformula : g.table[key]? = some formula) (heval : formula.eval again = formula.eval values) :
    g.Alike (before ++ [key]) rest (g.evaluate values key).2 (g.evaluate again key).2 where
  dimensions_eq := by rw [dimensions_evaluate, dimensions_evaluate, h.dimensions_eq]
  written i hi := by
    rw [dimensions_evaluate] at hi
    rw [evaluate_of_eq_some hformula, evaluate_of_eq_some hformula, Grid.cells_set,
      Grid.cells_set, h.dimensions_eq, heval]
    split
    · rfl
    · rename_i hkey
      obtain ⟨writer, hwriter, hslot⟩ := hi
      rcases List.mem_append.1 hwriter with hwriter | hwriter
      · exact h.written i ⟨writer, hwriter, hslot⟩
      · exact absurd (List.mem_singleton.1 hwriter ▸ hslot) hkey
  unwritten i hfree := by
    rw [dimensions_evaluate] at hfree
    have hkey : values.dimensions.slot? key ≠ some i :=
      hfree key (List.mem_append_right before (List.mem_singleton_self key))
    rw [cells_evaluate fun _ => h.dimensions_eq ▸ hkey]
    exact h.unwritten i fun other hother => hfree other (List.mem_append_left [key] hother)

/-- **The rest of a list** has the same evaluations over grids that are alike, and the same end. -/
theorem Alike.evaluateAll_eq (h : g.Alike before rest values again)
    (hmem : ∀ key ∈ rest, key ∈ g.table)
    (hreads : g.ReadsAfterWrites values.dimensions (before ++ rest)) :
    g.evaluateAll again rest = g.evaluateAll values rest := by
  induction rest generalizing before values again with
  | nil => rw [h.eq]
  | cons key rest ih =>
    obtain ⟨formula, hformula⟩ := KeyMap.mem_iff.1 (hmem key List.mem_cons_self)
    have heval := h.eval_eq hreads hformula
    have hhead : (g.evaluate again key).1 = (g.evaluate values key).1 := by
      have hwrite := write_evaluate_congr (g := g) h.dimensions_eq key
      rw [evaluate_of_eq_some hformula, evaluate_of_eq_some hformula] at hwrite ⊢
      exact (Evaluation.mk.injEq ..).mpr ⟨rfl, heval, hwrite⟩
    have hrest := ih (h.evaluate hformula heval)
      (fun other hother => hmem other (List.mem_cons_of_mem key hother))
      (by rwa [dimensions_evaluate, List.append_assoc, List.singleton_append])
    rw [evaluateAll_cons, evaluateAll_cons, hhead, hrest]

/-- **Evaluating again changes nothing**: the evaluations are the same, and so is the grid. -/
theorem evaluateAll_evaluateAll (hmem : ∀ key ∈ order, key ∈ g.table)
    (hreads : g.ReadsAfterWrites values.dimensions order) :
    g.evaluateAll (g.evaluateAll values order).2 order = g.evaluateAll values order :=
  have halike : g.Alike [] order values (g.evaluateAll values order).2 := {
    dimensions_eq := dimensions_evaluateAll g values order
    written := fun _ ⟨_, hkey, _⟩ => absurd hkey List.not_mem_nil
    unwritten := fun _ _ => rfl }
  halike.evaluateAll_eq hmem hreads

end Graph

end Spreadsheet
