import Spreadsheet.Proofs.Engine.Rows
import Spreadsheet.Proofs.Engine.Settled
import Spreadsheet.Proofs.Formula.Faults

/-! # Faults reach everything downstream
A cell is **tainted** if its formula has an unknown operand, names a key outside the grid or names a
tainted cell. In a sound engine whose cells are separate the formula of a tainted cell is NaN over
the grid, along however long a chain of references and also through cells outside the grid; so a
tainted cell in the grid holds NaN and shows it, and a report gives NaN for each tainted cell that
it names. Whether a cell is tainted is a matter of the formulas as they are: an edit that repairs or
breaks a cell changes it for all that rest on the cell. -/

namespace Spreadsheet

namespace Graph

/-- A cell whose formula rests on a fault. -/
inductive Tainted (g : Graph) (d : Dimensions) : String → Prop where
  /-- The formula has an unknown operand. -/
  | unknown {key text : String} {formula : Formula} (hformula : g.table[key]? = some formula)
    (htext : .unknown text ∈ formula.leaves) : Tainted g d key
  /-- The formula names a key outside the grid. -/
  | outside {key source : String} (hread : g.Reads key source) (hsource : d.slot? source = none) :
    Tainted g d key
  /-- The formula names a tainted cell. -/
  | downstream {key source : String} (hread : g.Reads key source) (hsource : Tainted g d source) :
    Tainted g d key

variable {g : Graph} {d : Dimensions} {values : Grid Float32} {key source : String}

/-- A cell that names a key for which the grid holds no number has none either. -/
theorem compute?_eq_nan_of_reads (hread : g.Reads key source) (hsource : held values source = nan) :
    g.compute? values key = some nan := by
  obtain ⟨formula, hformula, hmem⟩ := hread
  rw [compute?, hformula, Option.map_some]
  exact congrArg some (Formula.eval_eq_nan (Formula.mem_references_iff.1 hmem) hsource)

theorem held_of_slot?_eq_none (h : values.dimensions.slot? key = none) : held values key = nan := by
  rw [held, Grid.get?_eq, h, Option.bind_none, Option.map_none, Option.getD_none]

end Graph

namespace Engine

variable {fresh e edited : Engine} {batch : Batch} {report : Report} {d : Dimensions}
  {key : String}

/-- **The formula of a tainted cell is NaN** over the grid of a sound engine whose cells are
separate. -/
theorem Sound.compute?_of_tainted (hsound : Sound fresh e)
    (hseparate : e.graph.Separate e.dimensions) (h : e.graph.Tainted e.dimensions key) :
    e.graph.compute? e.values key = some nan := by
  induction h with
  | unknown hformula htext =>
    rw [Graph.compute?, hformula, Option.map_some]
    exact congrArg some (Formula.eval_eq_nan htext rfl)
  | outside hread hsource =>
    exact Graph.compute?_eq_nan_of_reads hread (Graph.held_of_slot?_eq_none hsource)
  | @downstream key source hread _ ih =>
    refine Graph.compute?_eq_nan_of_reads hread ?_
    -- the tainted cell holds its fault if it has a slot, and cannot be read if it has none
    cases hslot : e.values.dimensions.slot? source with
    | none => exact Graph.held_of_slot?_eq_none hslot
    | some i =>
      have hindex : (e.values.index? source).isSome := by
        rw [Grid.index?_eq_slot?, hslot]
        rfl
      rw [Graph.held, hsound.get?_eq hseparate ih hindex]
      exact widen_narrow_nan

/-- A tainted cell in the grid holds NaN and shows it. -/
theorem Sound.cells_of_tainted {i : Nat} (hsound : Sound fresh e)
    (hseparate : e.graph.Separate e.dimensions) (h : e.graph.Tainted e.dimensions key)
    (hslot : e.dimensions.slot? key = some i) :
    e.values.cells[i]? = some (narrow nan) ∧
      ∃ row, e.snapshot.rows[i / e.dimensions.width]? = some row ∧
        row[i % e.dimensions.width + 1]? = some "NaN" := by
  have hvalue := hsound.compute?_of_tainted hseparate h
  have hget : e.values.get? key = some (narrow nan) :=
    hsound.get?_eq hseparate hvalue (Option.isSome_iff_exists.2 ⟨i, hslot⟩)
  have hcells : e.values.cells[i]? = some (narrow nan) := by
    rwa [Grid.get?_eq, show e.values.dimensions.slot? key = some i from hslot] at hget
  have hkey : key ∈ e.graph.table := by
    obtain ⟨formula, hformula, -⟩ := Option.map_eq_some_iff.1 hvalue
    exact Graph.mem_table_of_eq_some hformula
  obtain ⟨-, hrow, hcolumn⟩ := Dimensions.slot?_lt hslot
  obtain ⟨p, hposition, hindex⟩ := Option.bind_eq_some_iff.1 hslot
  rw [Dimensions.position_eq_of_index? hindex] at hposition
  obtain ⟨hrows, -⟩ := e.getElem?_rows hrow
  refine ⟨hcells, _, hrows, ?_⟩
  obtain ⟨value, hvalue, hshown⟩ := hsound.shown_of_position? hrow hcolumn hkey hposition
  rw [Nat.div_add_mod' i, hcells] at hvalue
  rw [List.getElem?_cons_succ, hshown, ← Option.some.inj hvalue]
  decide +kernel

/-- **Faults reach everything downstream.** After any events, where no cell with a formula shares
its slot with another one or with another key that a formula names, every tainted cell in the grid
holds NaN and its entry in the rows is `NaN`. And an accepted batch after which this is so reports
NaN for every evaluated cell, inside the grid or not, that is tainted by the formulas after it. -/
theorem tainted_cells_hold_nan (hnew : Engine.new d = .ok fresh) (events : List Event) :
    let e := fresh.after events
    (e.graph.Separate d → ∀ key, e.graph.Tainted d key → ∀ i, d.slot? key = some i →
      e.values.cells[i]? = some (narrow nan) ∧
        ∃ row, e.snapshot.rows[i / d.width]? = some row ∧ row[i % d.width + 1]? = some "NaN") ∧
    ∀ batch report edited, e.apply batch = .ok (report, edited) → edited.graph.Separate d →
      ∀ key value, (key, value) ∈ report.evaluated → edited.graph.Tainted d key → value = nan := by
  intro e
  have hsound : Sound fresh e := sound_after hnew events
  obtain rfl : e.dimensions = d := hsound.dimensions_eq hnew
  refine ⟨fun hseparate key htainted i => hsound.cells_of_tainted hseparate htainted, ?_⟩
  intro batch report edited happly hseparate key value hmem htainted
  obtain ⟨s, h⟩ := accepts_of_apply happly
  have hdim : edited.dimensions = e.dimensions := h.dimensions_eq
  have hnan := (hsound.of_accepts h).compute?_of_tainted (hdim.symm ▸ hseparate)
    (hdim.symm ▸ htainted)
  exact Option.some.inj ((hsound.evaluated_eq h hseparate hmem).symm.trans hnan)

/-- The successor of an unknown operand's cell is tainted, so it holds and shows NaN, and a new
formula that still names the cell is reported as NaN. -/
theorem successor_of_unknown_holds_nan :
    let d : Dimensions := ⟨2, 1, by decide, by decide⟩
    let first : Batch := .ofList [("A1", "oops"), ("B1", "A1 + 1")]
    let second : Batch := .ofList [("B1", "2 * A1")]
    ∃ fresh report edited, Engine.new d = .ok fresh ∧
      (fresh.after [.edit first]).graph.Separate d ∧
      (fresh.after [.edit first]).graph.Tainted d "B1" ∧
      (fresh.after [.edit first]).values.cells[1]? = some (narrow nan) ∧
      (∃ row, (fresh.after [.edit first]).snapshot.rows[0]? = some row ∧ row[2]? = some "NaN") ∧
      (fresh.after [.edit first]).apply second = .ok (report, edited) ∧
      edited.graph.Separate d ∧ edited.graph.Tainted d "B1" ∧ ("B1", nan) ∈ report.evaluated := by
  intro d first second
  obtain ⟨fresh, hnew⟩ := exists_new (d := d) (by decide)
  let rank (key : String) : Nat := if key = "A1" then 0 else 1
  have hsound := sound_after hnew [.edit first]
  have htexts : (fresh.after [.edit first]).texts = first :=
    texts_submit_new hnew (by decide +kernel) (Edges.acyclic_of_rank rank (by decide +kernel))
  obtain ⟨report, edited, happly⟩ :
      ∃ report edited, (fresh.after [.edit first]).apply second = .ok (report, edited) := by
    refine hsound.exists_apply (by decide +kernel) ?_
    rw [htexts]
    exact Edges.acyclic_of_rank rank (by decide +kernel)
  obtain ⟨s, h⟩ := accepts_of_apply happly
  have hedited := hsound.of_accepts h
  have htexts' : edited.texts = first ∪ second := by rw [h.texts_eq, htexts]
  -- before and after the second batch `A1` has an unknown operand and `B1` names it
  have htainted : ∀ {texts : Batch} {e : Engine}, Sound fresh e → e.texts = texts →
      (Graph.ofFormulas texts).table["A1"]? = some (.unknown "oops") →
      (∃ formula ∈ (Graph.ofFormulas texts).table["B1"]?, "A1" ∈ formula.references) →
      e.graph.Tainted d "B1" := by
    rintro texts e hsound htexts hunknown ⟨formula, hformula, hmem⟩
    rw [← hsound.table_of_texts htexts] at hunknown hformula
    exact .downstream ⟨formula, hformula, hmem⟩ (.unknown hunknown List.mem_cons_self)
  have htainted₁ := htainted hsound htexts (by decide +kernel)
    ⟨.operation .add (.reference "A1") (.literal 1), by decide +kernel, by decide⟩
  have htainted₂ := htainted hedited htexts' (by decide +kernel)
    ⟨.operation .mul (.literal 2) (.reference "A1"), by decide +kernel, by decide⟩
  have hseparate : (fresh.after [.edit first]).graph.Separate d := by
    refine hsound.separate ?_
    rw [htexts]
    decide +kernel
  have hseparate' : edited.graph.Separate d := by
    refine hedited.separate ?_
    rw [htexts']
    decide +kernel
  obtain ⟨hcells, hreports⟩ := tainted_cells_hold_nan hnew [.edit first]
  obtain ⟨hvalue, row, hrow, hentry⟩ := hcells hseparate "B1" htainted₁ 1 (by decide +kernel)
  rw [show 1 / d.width = 0 by decide] at hrow
  have hevaluated : "B1" ∈ report.evaluated.map (·.1) := by
    rw [h.map_fst_evaluated]
    exact (Graph.mem_order h.schedule_eq).2 ⟨"B1", by decide +kernel, .refl⟩
  obtain ⟨⟨key, value⟩, hmem, rfl⟩ := List.mem_map.1 hevaluated
  obtain rfl := hreports second report edited happly hseparate' _ value hmem htainted₂
  exact ⟨fresh, report, edited, hnew, hseparate, htainted₁, hvalue, ⟨row, hrow, hentry⟩,
    happly, hseparate', htainted₂, hmem⟩

end Engine

end Spreadsheet
