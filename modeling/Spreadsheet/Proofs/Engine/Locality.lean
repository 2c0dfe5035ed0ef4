import Spreadsheet.Proofs.Engine.Rows

/-! # What an accepted batch leaves alone
An accepted batch acts on the keys that it defines and on the cells that rest on them, and its
**frame** is all the rest. A key outside the batch keeps its text, its formula and its
dependencies. A list of dependents gains and loses keys of the batch only, and the other readers
stay as they are listed, even where the list goes away and comes back while keys are merged one by
one. Values and rows change only where an evaluated cell lies, whatever other spellings there are
of it. -/

namespace Spreadsheet

namespace Engine

variable {fresh e edited : Engine} {batch : Batch} {report : Report} {s : Schedule}
  {d : Dimensions} {key : String} {i r : Nat}

/-- A key outside an accepted batch keeps its text. -/
theorem Accepts.text_eq (h : e.Accepts batch s report edited) (hkey : key ∉ batch) :
    edited.texts[key]? = e.texts[key]? := by
  rw [h.texts_eq, Std.ExtTreeMap.getElem?_union_of_not_mem_right hkey]

/-- A key outside an accepted batch keeps its formula. -/
theorem Accepts.formula_eq_of_not_mem (h : e.Accepts batch s report edited) (hkey : key ∉ batch) :
    edited.graph.table[key]? = e.graph.table[key]? := by
  rw [h.table_eq, Std.ExtTreeMap.getElem?_union_of_not_mem_right
    (Graph.mem_table_ofFormulas.not.2 hkey)]

/-- A key outside an accepted batch keeps its dependencies. -/
theorem Accepts.dependencies_eq_of_not_mem (h : e.Accepts batch s report edited)
    (hkey : key ∉ batch) : edited.graph.dependencies[key]? = e.graph.dependencies[key]? := by
  have hdefined : key ∉ (Graph.ofFormulas batch).defined := by
    rwa [(Graph.coherent_ofFormulas batch).mem_defined, Graph.mem_table_ofFormulas]
  rw [Graph.eq_overlay_of_merge h.merge_eq, Graph.getElem?_dependencies_overlay, if_neg hdefined]

/-- The readers of a key that are outside an accepted batch stay in the same order. -/
theorem Sound.filter_dependents_eq (hsound : Sound fresh e) (h : e.Accepts batch s report edited)
    (key : String) :
    (edited.graph.dependents.targets key).filter (· ∉ batch) =
      (e.graph.dependents.targets key).filter (· ∉ batch) := by
  have hincoming := Graph.coherent_ofFormulas batch
  rw [Graph.eq_overlay_of_merge h.merge_eq]
  refine hsound.faithful.coherent.filter_targets_overlay hincoming.toBalanced ?_ key
  intro cell hcell
  rw [hincoming.mem_defined, Graph.mem_table_ofFormulas] at hcell
  simpa using hcell

/-- A slot that no scheduled key addresses keeps its value. -/
theorem Accepts.cells_eq (h : e.Accepts batch s report edited)
    (hfree : ∀ key ∈ s.order, e.dimensions.slot? key ≠ some i) :
    edited.values.cells[i]? = e.values.cells[i]? := by
  rw [h.values_eq]
  exact Graph.cells_evaluateAll fun key hkey _ => hfree key hkey

/-- A slot that no scheduled key addresses keeps its text. -/
theorem Accepts.shown_cells_eq (h : e.Accepts batch s report edited)
    (hfree : ∀ key ∈ s.order, e.dimensions.slot? key ≠ some i) :
    edited.shown.cells[i]? = e.shown.cells[i]? := by
  rw [h.shown_eq]
  exact cells_foldl_display_of_ne fun key hkey _ => hfree key hkey

/-- A row keeps its number and the entries that no scheduled key addresses. -/
theorem Accepts.row_eq (h : e.Accepts batch s report edited) {row : List String}
    (hrow : e.snapshot.rows[r]? = some row) :
    ∃ row', edited.snapshot.rows[r]? = some row' ∧ row'.length = row.length ∧
      ∀ j, (∀ c, j = c + 1 → ∀ key ∈ s.order, Key.position? key ≠ some ⟨c, r⟩) →
        row'[j]? = row[j]? := by
  have hr : r < e.dimensions.height := by
    have hlt := (List.getElem?_eq_some_iff.1 hrow).1
    rwa [snapshot, length_labelledRows, e.dimensions_eq] at hlt
  have hdim : edited.dimensions = e.dimensions := h.dimensions_eq
  obtain ⟨hold, hlength⟩ := e.getElem?_rows hr
  obtain ⟨hnew, hlength'⟩ := edited.getElem?_rows (hdim ▸ hr)
  rw [hdim] at hlength'
  obtain rfl := Option.some.inj (hold.symm.trans hrow)
  refine ⟨_, hnew, by rw [List.length_cons, List.length_cons, hlength, hlength'], ?_⟩
  rintro (_ | c) hfree
  · rfl
  · rw [List.getElem?_cons_succ, List.getElem?_cons_succ]
    by_cases hc : c < e.dimensions.width
    · have hshown : e.shown.dimensions = e.dimensions := e.dimensions_eq
      have hshown' : edited.shown.dimensions = e.dimensions := edited.dimensions_eq.trans hdim
      rw [Grid.getElem?_row (hshown' ▸ hr) (hshown' ▸ hc),
        Grid.getElem?_row (hshown ▸ hr) (hshown ▸ hc), hshown, hshown']
      exact h.shown_cells_eq fun key hkey hslot =>
        hfree c rfl key hkey ((Dimensions.slot?_eq_some_iff hr hc).1 hslot)
    · rw [List.getElem?_eq_none (hlength'.trans_le (Nat.le_of_not_lt hc)),
        List.getElem?_eq_none (hlength.trans_le (Nat.le_of_not_lt hc))]

/-- **An accepted batch is local.** After any events, an accepted batch leaves the text, the
formula and the dependencies of every key that is not one of its own; among the readers of any key
those that are not its own stay, in the same order. The evaluated keys are those of the batch and
what they reach along the new dependents, each once. A stored value, and an entry of the rows, is
as before unless some evaluated key addresses it. -/
theorem accepted_batch_is_local (hnew : Engine.new d = .ok fresh) (events : List Event)
    (happly : (fresh.after events).apply batch = .ok (report, edited)) :
    let e := fresh.after events
    let evaluated := report.evaluated.map (·.1)
    (∀ key ∉ batch, edited.texts[key]? = e.texts[key]? ∧
      edited.graph.table[key]? = e.graph.table[key]? ∧
      edited.graph.dependencies[key]? = e.graph.dependencies[key]?) ∧
    (∀ key, (edited.graph.dependents.targets key).filter (· ∉ batch) =
      (e.graph.dependents.targets key).filter (· ∉ batch)) ∧
    evaluated.Nodup ∧
    (∀ key, key ∈ evaluated ↔ ∃ root ∈ batch, edited.graph.dependents.Reaches root key) ∧
    (∀ i : Nat, (∀ key ∈ evaluated, d.slot? key ≠ some i) →
      edited.values.cells[i]? = e.values.cells[i]?) ∧
    edited.snapshot.rows.length = e.snapshot.rows.length ∧
    ∀ r row, e.snapshot.rows[r]? = some row →
      ∃ row', edited.snapshot.rows[r]? = some row' ∧ row'.length = row.length ∧
        ∀ j, (∀ c, j = c + 1 → ∀ key ∈ evaluated, Key.position? key ≠ some ⟨c, r⟩) →
          row'[j]? = row[j]? := by
  intro e evaluated
  have hsound : Sound fresh e := sound_after hnew events
  have hdim : e.dimensions = d := hsound.dimensions_eq hnew
  obtain ⟨s, h⟩ := accepts_of_apply happly
  obtain hevaluated : evaluated = s.order := h.map_fst_evaluated
  rw [hevaluated]
  refine ⟨fun key hkey => ⟨h.text_eq hkey, h.formula_eq_of_not_mem hkey,
      h.dependencies_eq_of_not_mem hkey⟩, hsound.filter_dependents_eq h,
    Graph.nodup_order h.schedule_eq, fun key => ?_, fun i hfree => ?_, ?_,
    fun r row => h.row_eq⟩
  · rw [Graph.mem_order h.schedule_eq]
    simp only [Std.ExtTreeMap.mem_keys]
  · exact h.cells_eq (hdim ▸ hfree)
  · rw [snapshot, snapshot, length_labelledRows, length_labelledRows, e.dimensions_eq,
      edited.dimensions_eq, h.dimensions_eq]

/-- A new text for the successor of a number is no matter of the number: it keeps its text and its
value, and the successor is the one cell that is evaluated. -/
theorem edit_of_successor_is_local :
    let d : Dimensions := ⟨2, 1, by decide, by decide⟩
    let first : Batch := .ofList [("A1", "1"), ("B1", "A1 + 1")]
    let second : Batch := .ofList [("B1", "A1 + 2")]
    ∃ fresh report edited, Engine.new d = .ok fresh ∧
      (fresh.after [.edit first]).apply second = .ok (report, edited) ∧
      edited.texts["A1"]? = some "1" ∧
      (∀ key, key ∈ report.evaluated.map (·.1) ↔ key = "B1") ∧
      edited.values.cells[0]? = (fresh.after [.edit first]).values.cells[0]? := by
  intro d first second
  obtain ⟨fresh, hnew⟩ := exists_new (d := d) (by decide)
  let rank (key : String) : Nat := if key = "A1" then 0 else 1
  have hsound := sound_after hnew [.edit first]
  have htexts : (fresh.after [.edit first]).texts = first :=
    texts_submit_new hnew (by decide +kernel) (Edges.acyclic_of_rank rank (by decide +kernel))
  obtain ⟨report, edited, happly⟩ :
      ∃ report edited, (fresh.after [.edit first]).apply second = .ok (report, edited) := by
    refine hsound.exists_apply (by decide +kernel) ?_
    rw [htexts]
    exact Edges.acyclic_of_rank rank (by decide +kernel)
  obtain ⟨s, h⟩ := accepts_of_apply happly
  have hedited := hsound.of_accepts h
  -- no formula names the successor, so nothing else is reached from it
  have hunread : ∀ reader, ¬ edited.graph.Reads reader "B1" := by
    rintro reader ⟨formula, hformula, hmem⟩
    have hfree : ∀ pair ∈ (Graph.ofFormulas (first ∪ second)).table.toList,
        "B1" ∉ pair.2.references := by decide +kernel
    rw [hedited.table_of_texts (h.texts_eq.trans (by rw [htexts]))] at hformula
    exact hfree _ (Std.ExtTreeMap.mem_toList_iff_getElem?_eq_some.2 hformula) hmem
  obtain ⟨hkeys, -, -, hevaluated, hcells, -⟩ := accepted_batch_is_local hnew [.edit first] happly
  have honly : ∀ key, key ∈ report.evaluated.map (·.1) ↔ key = "B1" := by
    intro key
    rw [hevaluated]
    constructor
    · rintro ⟨root, hroot, hreach⟩
      obtain rfl : root = "B1" := by
        have hkeys : ∀ root ∈ second.keys, root = "B1" := by decide +kernel
        exact hkeys root (Std.ExtTreeMap.mem_keys.2 hroot)
      refine (Relation.ReflTransGen.cases_head hreach).elim Eq.symm ?_
      rintro ⟨reader, hlead, -⟩
      exact absurd (hedited.faithful.coherent.leads_dependents_iff.1 hlead) (hunread reader)
    · rintro rfl
      exact ⟨"B1", by decide +kernel, .refl⟩
  refine ⟨fresh, report, edited, hnew, happly, ?_, honly, hcells 0 fun key hkey => ?_⟩
  · rw [(hkeys "A1" (by decide +kernel)).1, htexts]
    decide +kernel
  · rw [(honly key).1 hkey]
    decide +kernel

end Engine

end Spreadsheet
