import Spreadsheet.Proofs.Recalculation.Depth
import Spreadsheet.Proofs.Recalculation.Settling

/-! # Scheduled recalculation settles
Evaluating cells one after another writes only the slots of those that have a formula. If each cell
is evaluated once, after all cells of the list that it reads, then an undisturbed cell is settled
from its **turn** on, and the value reported for it is the one its formula has at the end. A key
without a formula has at its turn what the grid holds for it at first or in the end. So a
recalculation resettles the affected cells. -/

namespace Spreadsheet

namespace Graph

variable {g : Graph} {values : Grid Float32} {order roots : List String} {key : String} {i : Nat}

/-! ## One evaluation -/

theorem evaluate_of_eq_some {formula : Formula} (h : g.table[key]? = some formula)
    (values : Grid Float32) :
    g.evaluate values key =
      (⟨key, formula.eval values, (values.set key (narrow (formula.eval values))).2⟩,
        (values.set key (narrow (formula.eval values))).1) := by
  simp only [evaluate, compute?, h, Option.map_some]

theorem evaluate_of_eq_none (h : g.table[key]? = none) (values : Grid Float32) :
    g.evaluate values key = (⟨key, held values key, .missing⟩, values) := by
  simp only [evaluate, compute?, h, Option.map_none]

/-- An evaluation writes at most the slot of its cell, and only if that has a formula. -/
theorem cells_evaluate (h : key ∈ g.table → values.dimensions.slot? key ≠ some i) :
    (g.evaluate values key).2.cells[i]? = values.cells[i]? := by
  cases hformula : g.table[key]? with
  | none => rw [evaluate_of_eq_none hformula]
  | some formula =>
    rw [evaluate_of_eq_some hformula, Grid.cells_set,
      if_neg (h (mem_table_of_eq_some hformula))]

theorem evaluateAll_cons (g : Graph) (values : Grid Float32) (key : String) (rest : List String) :
    g.evaluateAll values (key :: rest) =
      ((g.evaluate values key).1 :: (g.evaluateAll (g.evaluate values key).2 rest).1,
        (g.evaluateAll (g.evaluate values key).2 rest).2) := rfl

/-! ## Evaluations in a row -/

/-- Two lists one after the other are evaluated one after the other. -/
theorem evaluateAll_append (g : Graph) (values : Grid Float32) (earlier later : List String) :
    g.evaluateAll values (earlier ++ later) =
      ((g.evaluateAll values earlier).1 ++
        (g.evaluateAll (g.evaluateAll values earlier).2 later).1,
        (g.evaluateAll (g.evaluateAll values earlier).2 later).2) := by
  induction earlier generalizing values with
  | nil => rfl
  | cons head rest ih =>
    rw [List.cons_append, evaluateAll_cons, evaluateAll_cons, ih]
    rfl

/-- Evaluations write at most the slots of those cells that have a formula. -/
theorem cells_evaluateAll
    (h : ∀ key ∈ order, key ∈ g.table → values.dimensions.slot? key ≠ some i) :
    (g.evaluateAll values order).2.cells[i]? = values.cells[i]? := by
  induction order generalizing values with
  | nil => rfl
  | cons head rest ih =>
    rw [evaluateAll_cons, ih, cells_evaluate (h head List.mem_cons_self)]
    intro key hkey
    rw [dimensions_evaluate]
    exact h key (List.mem_cons_of_mem head hkey)

/-- What the grid holds for a key is kept unless an evaluated cell with a formula shares its
slot. -/
theorem get?_evaluateAll
    (h : ∀ writer ∈ order, writer ∈ g.table → ¬ values.dimensions.SameSlot writer key) :
    (g.evaluateAll values order).2.get? key = values.get? key :=
  Grid.get?_congr (dimensions_evaluateAll g values order) fun i hslot =>
    cells_evaluateAll fun writer hwriter hmem heq => h writer hwriter hmem ⟨i, heq, hslot⟩

/-- No cell of a list is evaluated before one that it reads, and none reads itself. -/
def EvaluatesInputsFirst (g : Graph) (order : List String) : Prop :=
  order.Pairwise (fun earlier later => ¬ g.Reads earlier later) ∧ ∀ key ∈ order, ¬ g.Reads key key

/-- Each evaluation of a list is that of one of its cells, over the grid that the cells before it
leave. -/
theorem exists_turn {e : Evaluation} (he : e ∈ (g.evaluateAll values order).1) :
    ∃ before after, order = before ++ e.key :: after ∧
      e = (g.evaluate (g.evaluateAll values before).2 e.key).1 := by
  induction order generalizing values with
  | nil => exact absurd he List.not_mem_nil
  | cons head rest ih =>
    rw [evaluateAll_cons] at he
    rcases List.mem_cons.1 he with rfl | he
    · exact ⟨[], rest, by simp⟩
    · obtain ⟨before, after, hrest, heq⟩ := ih he
      exact ⟨head :: before, after, by rw [hrest, List.cons_append], heq⟩

/-- **The value at its turn is the value at the end.** If inputs are evaluated first, what an
undisturbed cell of the list reads is not written from its turn on. -/
theorem EvaluatesInputsFirst.eval_eq {before after : List String} {formula : Formula}
    (hinputs : g.EvaluatesInputsFirst (before ++ key :: after))
    (hund : g.Undisturbed values.dimensions key) (hformula : g.table[key]? = some formula) :
    formula.eval (g.evaluateAll values (before ++ key :: after)).2 =
      formula.eval (g.evaluateAll values before).2 := by
  obtain ⟨hpairs, hself⟩ := hinputs
  rw [evaluateAll_append]
  refine Formula.eval_congr fun source hsource => get?_evaluateAll ?_
  have hread : g.Reads key source := ⟨formula, hformula, hsource⟩
  intro writer hwriter hmem hslot
  rw [dimensions_evaluateAll] at hslot
  obtain rfl := hund.2 source hread writer hmem hslot
  rcases List.mem_cons.1 hwriter with rfl | hlater
  · exact hself writer (List.mem_append_right before List.mem_cons_self) hread
  · exact (List.pairwise_cons.1 (List.pairwise_append.1 hpairs).2.1).1 writer hlater hread

/-- **A cell is settled from its turn on.** If inputs are evaluated first, and each cell once, an
undisturbed cell of the list ends up settled, and its evaluation has the value of its formula over
the final grid. -/
theorem evaluateAll_settles {formula : Formula} (hnodup : order.Nodup)
    (hinputs : g.EvaluatesInputsFirst order) (hkey : key ∈ order)
    (hund : g.Undisturbed values.dimensions key) (hformula : g.table[key]? = some formula) :
    (∀ i, values.dimensions.slot? key = some i →
      (g.evaluateAll values order).2.cells[i]? =
        some (narrow (formula.eval (g.evaluateAll values order).2))) ∧
    ∀ e ∈ (g.evaluateAll values order).1, e.key = key →
      e.value = formula.eval (g.evaluateAll values order).2 := by
  constructor
  · intro i hslot
    obtain ⟨before, after, rfl⟩ := List.append_of_mem hkey
    have hturn : (g.evaluateAll values before).2.dimensions.slot? key = some i := by
      rwa [dimensions_evaluateAll]
    rw [hinputs.eval_eq hund hformula, evaluateAll_append, evaluateAll_cons,
      evaluate_of_eq_some hformula, cells_evaluateAll, Grid.cells_set, if_pos hturn]
    -- no later cell writes the slot, for that would be the cell itself
    intro writer hlater hmem heq
    rw [Grid.dimensions_set, dimensions_evaluateAll] at heq
    obtain rfl := hund.1 writer hmem ⟨i, heq, hslot⟩
    exact (List.nodup_cons.1 (List.nodup_append.1 hnodup).2.1).1 hlater
  · rintro e he rfl
    obtain ⟨before, after, rfl, heq⟩ := exists_turn he
    have hvalue := congrArg Evaluation.value heq
    rw [evaluate_of_eq_some hformula] at hvalue
    rw [hinputs.eval_eq hund hformula, hvalue]

/-- Evaluating cells once each, inputs first, resettles them. -/
theorem resettles_evaluateAll (values : Grid Float32) (hnodup : order.Nodup)
    (hinputs : g.EvaluatesInputsFirst order) :
    g.Resettles (· ∈ order) values (g.evaluateAll values order).2 where
  dimensions_eq := dimensions_evaluateAll g values order
  untouched _ h := cells_evaluateAll h
  settled key hkey hund formula hformula i hslot := by
    rw [dimensions_evaluateAll] at hslot
    exact (evaluateAll_settles hnodup hinputs hkey hund hformula).1 i hslot

/-- A key without a formula has at its turn what the grid holds for it then. -/
theorem value_of_turn {e : Evaluation} {turn : Grid Float32} (hkey : e.key ∉ g.table)
    (heq : e = (g.evaluate turn e.key).1) : e.value = held turn e.key := by
  have hvalue := congrArg Evaluation.value heq
  rwa [evaluate_of_eq_none (Std.ExtTreeMap.getElem?_eq_none hkey)] at hvalue

/-- The evaluation of a key without a formula has what the grid held for it at first, unless a cell
of the list shares its slot. -/
theorem value_of_mem_evaluateAll {e : Evaluation} (he : e ∈ (g.evaluateAll values order).1)
    (hkey : e.key ∉ g.table) (hfree : ∀ writer ∈ order, writer ∈ g.table →
      ¬ values.dimensions.SameSlot writer e.key) : e.value = held values e.key := by
  obtain ⟨before, after, rfl, heq⟩ := exists_turn he
  rw [value_of_turn hkey heq, held, get?_evaluateAll, held]
  exact fun writer hwriter => hfree writer (List.mem_append_left _ hwriter)

/-- **A key without a formula** has what the grid holds for it at first or in the end: where cells
are separate, at most one of them writes its slot. -/
theorem Separate.value_eq_or {e : Evaluation} (hseparate : g.Separate values.dimensions)
    (hnodup : order.Nodup) (he : e ∈ (g.evaluateAll values order).1) (hkey : e.key ∉ g.table) :
    e.value = held values e.key ∨ e.value = held (g.evaluateAll values order).2 e.key := by
  obtain ⟨before, after, rfl, heq⟩ := exists_turn he
  rw [value_of_turn hkey heq]
  by_cases hwritten :
      ∃ writer ∈ before, writer ∈ g.table ∧ values.dimensions.SameSlot writer e.key
  · right
    obtain ⟨writer, hwriter, hmem, hslot⟩ := hwritten
    have hkept : (g.evaluateAll (g.evaluateAll values before).2 (e.key :: after)).2.get? e.key =
        (g.evaluateAll values before).2.get? e.key := by
      refine get?_evaluateAll fun later hlater hmem' hslot' => ?_
      rw [dimensions_evaluateAll] at hslot'
      obtain rfl := hseparate writer hmem later (.inl hmem') (hslot.trans hslot'.symm)
      exact (List.nodup_append.1 hnodup).2.2 writer hwriter writer hlater rfl
    rw [evaluateAll_append, held, held, hkept]
  · left
    rw [held, get?_evaluateAll, held]
    exact fun writer hwriter hmem hslot => hwritten ⟨writer, hwriter, hmem, hslot⟩

/-! ## Recalculation -/

/-- The dependents of a key are the cells whose formulas name it, in whatever order. -/
def ListsReaders (g : Graph) : Prop :=
  ∀ source reader, g.dependents.Leads source reader ↔ g.Reads reader source

theorem Coherent.listsReaders (h : g.Coherent) : g.ListsReaders :=
  fun _ _ => h.leads_dependents_iff

/-- A schedule evaluates inputs first. -/
theorem ListsReaders.evaluatesInputsFirst {s : Schedule} (hreaders : g.ListsReaders)
    (hs : g.schedule roots = .ok s) : g.EvaluatesInputsFirst s.order := by
  obtain ⟨hperm, horder⟩ := order_of_schedule hs
  refine ⟨horder.imp fun h hread => ?_, fun key hkey hread => ?_⟩
  · exact h ((hreaders _ _).2 hread)
  · exact not_onCycle_of_schedule hs key (hperm.mem_iff.1 hkey) (.single ((hreaders _ _).2 hread))

/-- Dependents are acyclic where dependencies are. -/
theorem Balanced.acyclic_dependents (h : g.Balanced) (hacyclic : g.dependencies.Acyclic) :
    g.dependents.Acyclic := fun key hcycle =>
  hacyclic key ((Edges.onCycle_of_transposed h.leads_iff).1 hcycle)

end Graph

end Spreadsheet
