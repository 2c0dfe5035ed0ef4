import Spreadsheet.Proofs.Engine.History
import Spreadsheet.Proofs.Engine.Events
import Spreadsheet.Proofs.Engine.Rows
import Spreadsheet.Proofs.Recalculation.Repeated

/-! # The same batch again
A batch that was accepted is accepted again: its formulas are in the graph already, so the merge
changes nothing, down to the order of the readers, and the same cells are evaluated in the same
order with the same diagnostics. The values are the same too if no evaluated cell reads a slot that
the batch writes first at this cell or after it. Circles are found among keys and not among slots,
so another spelling of a cell can be read before the cell is written, even by the cell itself, and
then each application feeds on the one before. -/

namespace Spreadsheet

namespace Engine

variable {fresh e edited settled : Engine} {batch : Batch} {report again : Report} {s : Schedule}
  {d : Dimensions}

/-- The diagnostic of an evaluation can be read off its key and where it was written. -/
theorem filterMap_outOfBounds? (evaluations : List Evaluation) :
    evaluations.filterMap outOfBounds? =
      (evaluations.map fun e => (e.key, e.write)).filterMap fun (key, write) =>
        if write = .outOfBounds then some (.outOfBounds key) else none := by
  rw [List.filterMap_map]
  rfl

/-- An accepted batch is accepted again, under the same schedule and without an effect on the texts
and the graph. -/
theorem Sound.exists_accepts_again (hsound : Sound fresh e)
    (h : e.Accepts batch s report edited) :
    ∃ again settled, edited.apply batch = .ok (again, settled) ∧
      edited.Accepts batch s again settled ∧ settled.texts = edited.texts ∧
      settled.graph = edited.graph := by
  have hfaithful : Assembly.Faithful ⟨e.texts ∪ batch, edited.graph⟩ :=
    h.texts_eq ▸ hsound.faithful_of_accepts h
  obtain ⟨again, settled, happly⟩ :=
    Engine.exists_apply h.nonempty hfaithful.merge_again h.schedule_eq
  obtain ⟨s', hagain⟩ := accepts_of_apply happly
  have hgraph : settled.graph = edited.graph :=
    Except.ok.inj (hagain.merge_eq.symm.trans hfaithful.merge_again)
  -- a schedule rests on the graph and the keys of the batch alone
  obtain rfl : s' = s := by
    have hschedule := hagain.schedule_eq
    rw [hgraph] at hschedule
    exact Except.ok.inj (hschedule.symm.trans h.schedule_eq)
  refine ⟨again, settled, happly, hagain, ?_, hgraph⟩
  rw [hagain.texts_eq, h.texts_eq, Assembly.union_union_self]

/-- Over the same graph a batch has the same diagnostics again. -/
theorem Accepts.diagnostics_again (h : e.Accepts batch s report edited)
    (hagain : edited.Accepts batch s again settled) (hgraph : settled.graph = edited.graph) :
    again.diagnostics = report.diagnostics := by
  have hkeys : ∀ key text, edited.keyDiagnostics key text = e.keyDiagnostics key text := by
    intro key text
    simp only [keyDiagnostics, Grid.index?_eq_slot?, h.dimensions_eq]
  rw [hagain.diagnostics_eq, h.diagnostics_eq, hgraph, filterMap_outOfBounds?,
    filterMap_outOfBounds?, Graph.map_write_evaluateAll_congr h.dimensions_eq]
  simp only [hkeys]

/-- Where no cell reads what the batch writes at the cell or after it, the evaluations are the same
again, and they leave the same values. -/
theorem Sound.evaluateAll_again (hsound : Sound fresh e) (h : e.Accepts batch s report edited)
    (hreads : edited.graph.ReadsAfterWrites e.values.dimensions s.order) :
    edited.graph.evaluateAll edited.values s.order =
      edited.graph.evaluateAll e.values s.order := by
  rw [h.values_eq]
  exact Graph.evaluateAll_evaluateAll (fun key => hsound.mem_table_of_mem_order h) hreads

/-- **An accepted batch again.** After any events, a batch that was accepted is accepted a second
time. The texts and the graph are the same then, and the report names the same cells in the same
order, the same diagnostics and the same depth. If each slot that an evaluated cell reads is
written before it, provided the batch writes it at all, then the values, the snapshot and the whole
report are the same too. So it is wherever no key that a formula names shares its slot with another
cell that has a formula. -/
theorem accepted_batch_again (hnew : Engine.new d = .ok fresh) (events : List Event)
    (happly : (fresh.after events).apply batch = .ok (report, edited)) :
    ∃ again settled, edited.apply batch = .ok (again, settled) ∧
      settled.texts = edited.texts ∧ settled.graph = edited.graph ∧
      again.evaluated.map (·.1) = report.evaluated.map (·.1) ∧
      again.diagnostics = report.diagnostics ∧ again.maxDepth = report.maxDepth ∧
      (edited.graph.ReadsAfterWrites d (report.evaluated.map (·.1)) →
        settled.values = edited.values ∧ settled.snapshot = edited.snapshot ∧ again = report) ∧
      ((∀ reader source, edited.graph.Reads reader source → edited.graph.Unshared d source) →
        edited.graph.ReadsAfterWrites d (report.evaluated.map (·.1))) := by
  have hsound : Sound fresh (fresh.after events) := sound_after hnew events
  obtain ⟨s, h⟩ := accepts_of_apply happly
  obtain ⟨again, settled, happly', hagain, htexts, hgraph⟩ := hsound.exists_accepts_again h
  have hdiagnostics := h.diagnostics_again hagain hgraph
  have hdepth : again.maxDepth = report.maxDepth := by rw [hagain.maxDepth_eq, h.maxDepth_eq]
  rw [h.map_fst_evaluated, ← hsound.dimensions_eq hnew]
  refine ⟨again, settled, happly', htexts, hgraph, hagain.map_fst_evaluated, hdiagnostics, hdepth,
    fun hreads => ?_,
    (hsound.evaluatesInputsFirst h).readsAfterWrites fun key => hsound.mem_table_of_mem_order h⟩
  have hrun := hsound.evaluateAll_again h hreads
  have hvalues : settled.values = edited.values := by
    rw [hagain.values_eq, hgraph, hrun, ← h.values_eq]
  -- what is shown is determined by the formulas and the values, so no write need be followed
  have hedited : Sound fresh edited := hsound.of_accepts h
  have hshown : settled.shown = edited.shown :=
    (hedited.of_accepts hagain).shown_eq hedited (congrArg Graph.table hgraph) hvalues
  refine ⟨hvalues, by rw [snapshot, snapshot, htexts, hgraph, hshown], ?_⟩
  have hevaluated : again.evaluated = report.evaluated := by
    rw [hagain.evaluated_eq, h.evaluated_eq, hgraph, hrun]
  exact (Report.mk.injEq ..).mpr ⟨hevaluated, hdiagnostics, hdepth⟩

/-- A number and its successor are the same after the batch that sets the number came in again. -/
theorem successor_same_after_batch_again :
    let d : Dimensions := ⟨2, 1, by decide, by decide⟩
    let events : List Event := [.edit (.ofList [("A1", "1"), ("B1", "A1 + 1")])]
    let batch : Batch := .ofList [("A1", "2")]
    ∃ fresh report edited settled, Engine.new d = .ok fresh ∧
      (fresh.after events).apply batch = .ok (report, edited) ∧
      edited.apply batch = .ok (report, settled) ∧ settled.texts = edited.texts ∧
      settled.graph = edited.graph ∧ settled.values = edited.values ∧
      settled.snapshot = edited.snapshot := by
  intro d events batch
  obtain ⟨fresh, hnew⟩ := exists_new (d := d) (by decide)
  let first : Batch := .ofList [("A1", "1"), ("B1", "A1 + 1")]
  let rank (key : String) : Nat := if key = "A1" then 0 else 1
  have hsound : Sound fresh (fresh.after events) := sound_after hnew events
  have htexts : (fresh.after events).texts = first :=
    texts_submit_new hnew (by decide +kernel) (Edges.acyclic_of_rank rank (by decide +kernel))
  obtain ⟨report, edited, happly⟩ :
      ∃ report edited, (fresh.after events).apply batch = .ok (report, edited) := by
    refine hsound.exists_apply (by decide +kernel) ?_
    rw [htexts]
    exact Edges.acyclic_of_rank rank (by decide +kernel)
  obtain ⟨s, h⟩ := accepts_of_apply happly
  have hseparate : edited.graph.Separate d := by
    refine (hsound.of_accepts h).separate ?_
    rw [h.texts_eq, htexts]
    decide +kernel
  obtain ⟨again, settled, happly', hsame, hgraph, -, -, -, hsettled, hreads⟩ :=
    accepted_batch_again hnew events happly
  obtain ⟨hvalues, hsnapshot, rfl⟩ := hsettled (hreads fun reader source hread =>
    (hseparate.undisturbed (Graph.mem_table_of_reads hread)).2 source hread)
  exact ⟨fresh, again, edited, settled, hnew, happly, happly', hsame, hgraph, hvalues, hsnapshot⟩

/-- **A cell can feed on its own slot** under another spelling: here `A1` is one more than `AA1`,
which lies in the slot of `A1`. The batch closes no circle of keys, and each time that it comes in
the value grows by one. -/
theorem value_over_own_slot_grows :
    let d : Dimensions := ⟨1, 1, by decide, by decide⟩
    let batch : Batch := .ofList [("A1", "AA1 + 1")]
    ∃ fresh report edited again settled, Engine.new d = .ok fresh ∧
      (fresh.after []).apply batch = .ok (report, edited) ∧
      edited.apply batch = .ok (again, settled) ∧
      edited.values.get? "A1" = some (narrow 1) ∧ settled.values.get? "A1" = some (narrow 2) ∧
      settled.values ≠ edited.values ∧ again.evaluated ≠ report.evaluated := by
  intro d batch
  let blank : Grid Float32 := ⟨d, #[0], rfl, by decide⟩
  let g : Graph := .overlay .empty (.ofFormulas batch)
  obtain ⟨fresh, hnew⟩ := exists_new (d := d) (by decide)
  have hsound : Sound fresh fresh := sound_new hnew
  obtain ⟨hdim, -, hempty⟩ := fields_of_new hnew
  have hblank : fresh.values = blank :=
    Grid.eq_of_cells hdim fun i => congrArg (·[i]?) (cells_of_new hnew).1
  obtain ⟨report, edited, happly⟩ : ∃ report edited, fresh.apply batch = .ok (report, edited) := by
    refine hsound.exists_apply (by decide +kernel) ?_
    rw [union_texts_of_new hnew]
    exact Edges.acyclic_of_rank (fun key => if key = "A1" then 1 else 0) (by decide +kernel)
  obtain ⟨s, h⟩ := accepts_of_apply happly
  obtain ⟨again, settled, happly', hagain, -, hgraph'⟩ := hsound.exists_accepts_again h
  -- both times `A1` is evaluated, over the blank grid first and then over what that left
  have hgraph : edited.graph = g := by rw [Graph.eq_overlay_of_merge h.merge_eq, hempty]
  have horder : s.order = ["A1"] := by
    have hschedule := h.schedule_eq
    rw [hgraph, show batch.keys = ["A1"] by decide +kernel,
      Graph.schedule_of_targets_eq_nil (by decide) (by decide) (by decide +kernel)] at hschedule
    rw [← Except.ok.inj hschedule]
    rfl
  have hfirst : edited.values = (g.evaluateAll blank ["A1"]).2 := by
    rw [h.values_eq, hgraph, horder, hblank]
  have hsecond : settled.values = (g.evaluateAll (g.evaluateAll blank ["A1"]).2 ["A1"]).2 := by
    rw [hagain.values_eq, hgraph', hgraph, horder, hfirst]
  have hone : edited.values.get? "A1" = some (narrow 1) := hfirst ▸ (by decide +kernel)
  have htwo : settled.values.get? "A1" = some (narrow 2) := hsecond ▸ (by decide +kernel)
  have hgrown : narrow 1 ≠ narrow 2 := by decide +kernel
  refine ⟨fresh, report, edited, again, settled, hnew, happly, happly', hone, htwo,
    fun heq => hgrown ?_, ?_⟩
  · exact Option.some.inj (hone.symm.trans (heq ▸ htwo))
  · rw [hagain.evaluated_eq, h.evaluated_eq, hgraph', hgraph, horder, hfirst, hblank]
    decide +kernel

end Engine

end Spreadsheet
