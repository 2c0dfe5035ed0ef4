import Spreadsheet.Proofs.Recalculation.Streaming

/-! # Grids at rest
A grid is **at rest** if all cells are settled: each slot holds the value of every formula that
writes it, over the grid as it is. These are the grids that no evaluation of a cell changes, and so
no recalculation, propagation or abandoned stream does either: whatever is written, at once or after
a layer, once or again and again, under one key or another, is there already. Nothing is assumed of
the edges, so also cells that read each other in a circle can be at rest, though they might never
come to rest by themselves. -/

namespace Spreadsheet

namespace Grid

variable {α : Type} {g : Grid α} {i : Nat} {a : α} {key : String} {writes : List (Nat × α)}

/-- Writing the entry that is there changes nothing. -/
theorem setIndex_eq_self (h : g.cells[i]? = some a) : g.setIndex i a = g := by
  refine eq_of_cells rfl fun j => ?_
  rw [cells_setIndex]
  split
  · rename_i heq
    subst heq
    rw [if_pos (Array.getElem?_eq_some_iff.1 h).1, h]
  · rfl

/-- A write through a key changes nothing exactly if what it writes is there already. -/
theorem fst_set_eq_self_iff :
    (g.set key a).1 = g ↔ ∀ i, g.dimensions.slot? key = some i → g.cells[i]? = some a := by
  constructor
  · intro h i hslot
    rw [← h, cells_set, if_pos hslot]
  · intro h
    rw [set, index?_eq_slot?]
    cases hslot : g.dimensions.slot? key with
    | none => rfl
    | some i => exact setIndex_eq_self (h i hslot)

/-- Writes of entries that are there change nothing. -/
theorem setAll_eq_self (h : ∀ write ∈ writes, g.cells[write.1]? = some write.2) :
    g.setAll writes = g := by
  induction writes with
  | nil => rfl
  | cons write writes ih =>
    rw [setAll_cons, setIndex_eq_self (h write List.mem_cons_self)]
    exact ih fun other hother => h other (List.mem_cons_of_mem write hother)

end Grid

namespace Graph

variable {g : Graph} {values : Grid Float32} {key : String} {es : List Evaluation}

/-- All cells are settled. -/
def AtRest (g : Graph) (values : Grid Float32) : Prop := ∀ key, g.SettledAt values key

theorem atRest_iff : g.AtRest values ↔ ∀ pair ∈ g.table.toList,
    ∀ i ∈ values.dimensions.slot? pair.1,
      values.cells[i]? = some (narrow (pair.2.eval values)) := by
  simp only [AtRest, SettledAt, Prod.forall, Std.ExtTreeMap.mem_toList_iff_getElem?_eq_some,
    Option.mem_def]

instance (g : Graph) (values : Grid Float32) : Decidable (g.AtRest values) :=
  decidable_of_iff _ atRest_iff.symm

/-- A cell is settled exactly if its evaluation leaves the grid as it is. -/
theorem settledAt_iff : g.SettledAt values key ↔ (g.evaluate values key).2 = values := by
  rw [SettledAt]
  cases hformula : g.table[key]? with
  | none =>
    rw [evaluate_of_eq_none hformula]
    exact iff_of_true nofun rfl
  | some formula =>
    rw [evaluate_of_eq_some hformula, Grid.fst_set_eq_self_iff]
    simp

/-- **A grid is at rest exactly if no evaluation changes it.** -/
theorem atRest_iff_forall_evaluate :
    g.AtRest values ↔ ∀ key, (g.evaluate values key).2 = values :=
  forall_congr' fun _ => settledAt_iff

/-- Each evaluation is the one that is made over the grid, so that of a cell with a formula has the
value of the formula. -/
def MadeOver (g : Graph) (values : Grid Float32) (es : List Evaluation) : Prop :=
  ∀ e ∈ es, e = (g.evaluate values e.key).1 ∧
    ∀ formula, g.table[e.key]? = some formula → e.value = formula.eval values

theorem madeOver_iff : g.MadeOver values es ↔ ∀ e ∈ es, e = (g.evaluate values e.key).1 := by
  refine forall₂_congr fun e _ => and_iff_left_of_imp fun heq formula hformula => ?_
  have hvalue := congrArg Evaluation.value heq
  rwa [evaluate_of_eq_some hformula] at hvalue

/-- Cells in a row are evaluated over a grid at rest as if each was the only one. -/
theorem AtRest.evaluateAll (h : g.AtRest values) (order : List String) :
    g.evaluateAll values order = (order.map fun key => (g.evaluate values key).1, values) := by
  induction order with
  | nil => rfl
  | cons key rest ih =>
    rw [evaluateAll_cons, atRest_iff_forall_evaluate.1 h key, ih, List.map_cons]

/-- The value of a cell over a grid at rest is in its slot already. -/
theorem AtRest.cells_of_compute? (h : g.AtRest values) {i : Nat} {value : Float}
    (hslot : values.dimensions.slot? key = some i)
    (hvalue : g.compute? values key = some value) : values.cells[i]? = some (narrow value) := by
  obtain ⟨formula, hformula, rfl⟩ := Option.map_eq_some_iff.1 hvalue
  exact h key formula hformula i hslot

end Graph

namespace Propagation

variable {g : Graph} {values : Grid Float32} {items : List (Nat × Evaluation)} {p : Propagation}

/-- **Where a stream over a grid at rest stands**: the grid is as it was, and so it is with the
pending writes made. -/
structure Resting (g : Graph) (values : Grid Float32) (items : List (Nat × Evaluation))
    (p : Propagation) : Prop where
  /-- The graph is the one of the stream. -/
  graph_eq : p.graph = g
  /-- The grid is the first one. -/
  values_eq : p.values = values
  /-- What is pending is there already. -/
  pending_held : ∀ write ∈ p.pending, values.cells[write.1]? = some write.2
  /-- All items were evaluated over the first grid. -/
  evaluated : g.MadeOver values (items.map (·.2))

namespace Resting

theorem settled_eq (h : Resting g values items p) : p.settled = values := by
  rw [settled, h.values_eq]
  exact Grid.setAll_eq_self h.pending_held

theorem visit (hrest : g.AtRest values) (h : Resting g values items p) (key : String)
    (rest : List String) :
    Resting g values (items ++ [(p.layer, (p.visit key rest).1)]) (p.visit key rest).2 where
  graph_eq := h.graph_eq
  values_eq := h.values_eq
  pending_held write hwrite := by
    rcases List.mem_append.1 hwrite with hwrite | hwrite
    · exact h.pending_held write hwrite
    · -- the grid is the first one, so the new write is of an entry that is there
      obtain ⟨hslot, value, hvalue, hnarrow⟩ :=
        write_evaluateFrozen_eq_some.1 (Option.mem_toList.1 hwrite)
      rw [h.values_eq] at hslot
      rw [h.graph_eq, h.values_eq] at hvalue
      rw [← hnarrow]
      exact hrest.cells_of_compute? hslot hvalue
  evaluated := by
    rw [List.map_append, List.map_singleton, fst_visit, h.graph_eq, h.values_eq,
      Graph.madeOver_iff]
    intro e he
    rcases List.mem_append.1 he with he | he
    · exact Graph.madeOver_iff.1 h.evaluated e he
    · rw [List.mem_singleton.1 he, Graph.key_evaluate]

theorem advance (h : Resting g values items p) : Resting g values items p.advance where
  graph_eq := h.graph_eq
  values_eq := h.settled_eq
  pending_held _ hwrite := absurd hwrite List.not_mem_nil
  evaluated := h.evaluated

/-- **A stream over a grid at rest** leaves it as it is after any number of items. -/
theorem take (hrest : g.AtRest values) (roots : List String) (n : Nat) :
    Resting g values ((Propagation.start g values roots).take n).1
      ((Propagation.start g values roots).take n).2 := by
  have hstart : Resting g values [] (Propagation.start g values roots) :=
    ⟨rfl, rfl, fun _ h => absurd h List.not_mem_nil, fun _ h => absurd h List.not_mem_nil⟩
  exact take_induction (motive := Resting g values)
    (fun items p key rest h _ => h.visit hrest key rest) (fun items p h _ => h.advance) [] hstart n

end Resting

end Propagation

namespace Graph

variable {g : Graph} {values : Grid Float32}

/-- **Nothing moves a grid at rest.** Let the slot of each cell with a formula hold the value of
that formula over the grid, narrowed. Then whatever the edges and the roots are, a recalculation
that is not refused, a propagation that comes to an end and a stream that is abandoned after any
number of items leave the grid as it is, and all their evaluations are those that are made over it,
in which a cell with a formula has the value of the formula. -/
theorem unchanged_at_rest (hrest : g.AtRest values) (roots : List String) :
    (∀ es final, g.recalculate values roots = .ok (es, final) →
      final = values ∧ g.MadeOver values es) ∧
    (∀ es final, g.propagate values roots = some (es, final) →
      final = values ∧ g.MadeOver values es) ∧
    ∀ n, let taken := (Propagation.start g values roots).take n
      taken.2.settled = values ∧ taken.2.values = values ∧
        g.MadeOver values (taken.1.map (·.2)) := by
  refine ⟨fun es final h => ?_, fun es final h => ?_, fun n => ?_⟩
  · rw [recalculate] at h
    cases hs : g.schedule roots with
    | error cause =>
      rw [hs] at h
      exact nomatch h
    | ok s =>
      rw [hs, Except.map, hrest.evaluateAll] at h
      obtain ⟨rfl, rfl⟩ := Prod.mk.inj (Except.ok.inj h)
      refine ⟨rfl, madeOver_iff.2 fun e he => ?_⟩
      obtain ⟨key, -, rfl⟩ := List.mem_map.1 he
      rw [key_evaluate]
  · -- a propagation that ends is the stream, taken past its end
    obtain ⟨hes, hfinal⟩ := (propagates_of_finish? h).take (k := 0) (Nat.lt_succ_self es.length)
    have htaken := Propagation.Resting.take hrest roots (es.length + 1)
    exact ⟨hfinal.symm.trans htaken.settled_eq, hes ▸ htaken.evaluated⟩
  · have htaken := Propagation.Resting.take hrest roots n
    exact ⟨htaken.settled_eq, htaken.values_eq, htaken.evaluated⟩

/-- Two cells that read each other, one of them under a second key too, and two that read them, one
of these outside the grid: the circle is evaluated on and on, keys that nobody reads are evaluated
once, and the grid stays as it is. -/
theorem circle_at_rest :
    let g := ofFormulas (.ofList
      [("A1", "B1"), ("AA1", "B1 * 1"), ("B1", "A1"), ("C1", "A1 / 2"), ("D1", "A1")])
    let values : Grid Float32 := ⟨⟨3, 1, by decide, by decide⟩, #[3, 3, 1.5], rfl, by decide⟩
    g.AtRest values ∧ g.propagate values ["A1"] = none ∧
      (∀ n, ((Propagation.start g values ["A1", "AA1"]).take n).2.settled = values) ∧
      ∃ es, g.recalculate values ["AA1", "C1"] = .ok (es, values) ∧
        es.map (·.value) = [3, 1.5] := by
  intro g values
  have hrest : g.AtRest values := by decide +kernel
  have hschedule : g.schedule ["AA1", "C1"] = .ok ⟨[["AA1", "C1"]]⟩ :=
    schedule_of_targets_eq_nil (by decide) (by decide) (by decide +kernel)
  obtain ⟨hrecalculate, -, -⟩ := unchanged_at_rest hrest ["AA1", "C1"]
  obtain ⟨-, -, hstream⟩ := unchanged_at_rest hrest ["A1", "AA1"]
  obtain ⟨es, final, hall⟩ : ∃ es final, g.evaluateAll values ["AA1", "C1"] = (es, final) :=
    ⟨_, _, rfl⟩
  have hrun : g.recalculate values ["AA1", "C1"] = .ok (es, final) := by
    rw [recalculate, hschedule, ← hall]
    rfl
  have hvalues : (g.evaluateAll values ["AA1", "C1"]).1.map (·.value) = [3, 1.5] := by
    decide +kernel
  rw [hall] at hvalues
  exact ⟨hrest, by decide +kernel, fun n => (hstream n).1, es,
    (hrecalculate es final hrun).1 ▸ hrun, hvalues⟩

end Graph

end Spreadsheet
