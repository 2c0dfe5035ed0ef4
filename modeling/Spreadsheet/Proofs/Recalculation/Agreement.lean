import Spreadsheet.Proofs.Graph.Rebuild
import Spreadsheet.Proofs.Recalculation.Layered
import Spreadsheet.Proofs.Recalculation.Scheduled

/-! # Both strategies settle alike
A propagation evaluates a cell once for each walk from the roots and may pass through wrong values,
but it settles like a recalculation: the **last** time a cell is evaluated, no cell that it reads is
written any more, for such a write would bring the cell back in the next layer. A settled grid is
unique, so both strategies end with the same grid, and with the same last value of each cell that
has a formula. Only a root without a formula can tell them apart, if it shares the slot of an
evaluated cell: a propagation has for it what the grid held at first, a recalculation what the grid
holds at its turn. -/

namespace Spreadsheet

/-! ## Last values -/

/-- The value of the last evaluation of a cell, if it is evaluated. -/
def lastValue? (evaluations : List Evaluation) (key : String) : Option Float :=
  (evaluations.filter (·.key = key)).getLast?.map (·.value)

section lastValue

variable {evaluations : List Evaluation} {key : String} {value : Float}

/-- The last evaluation is in the later list, if one is there. -/
theorem lastValue?_append (earlier later : List Evaluation) (key : String) :
    lastValue? (earlier ++ later) key = (lastValue? later key).or (lastValue? earlier key) := by
  rw [lastValue?, List.filter_append, List.getLast?_append, Option.map_or]
  rfl

/-- A cell that is not evaluated has no last value. -/
theorem lastValue?_eq_none (h : key ∉ evaluations.map (·.key)) :
    lastValue? evaluations key = none := by
  have hfilter : evaluations.filter (·.key = key) = [] := by
    refine List.filter_eq_nil_iff.2 fun e he hekey => h ?_
    exact of_decide_eq_true hekey ▸ List.mem_map_of_mem he
  rw [lastValue?, hfilter]
  rfl

/-- If all evaluations of a cell have one value, it is the last one. -/
theorem lastValue?_eq_some (hkey : key ∈ evaluations.map (·.key))
    (h : ∀ e ∈ evaluations, e.key = key → e.value = value) :
    lastValue? evaluations key = some value := by
  obtain ⟨e, he, hekey⟩ := List.mem_map.1 hkey
  have hmem : e ∈ evaluations.filter (·.key = key) :=
    List.mem_filter.2 ⟨he, decide_eq_true hekey⟩
  have hlast := List.getLast_mem (List.ne_nil_of_mem hmem)
  obtain ⟨hlast, hlastkey⟩ := List.mem_filter.1 hlast
  rw [lastValue?, List.getLast?_eq_some_getLast (List.ne_nil_of_mem hmem), Option.map_some,
    h _ hlast (of_decide_eq_true hlastkey)]

end lastValue

namespace Graph

variable {g : Graph} {values final : Grid Float32} {frontier order roots : List String}
  {es : List Evaluation} {key : String} {formula : Formula} {i : Nat}

/-! ## What a propagation leaves -/

/-- A propagation evaluates the cells that the frontier reaches. -/
theorem Propagates.mem_map_key (h : g.Propagates values frontier es final) :
    key ∈ es.map (·.key) ↔ ∃ root ∈ frontier, g.dependents.Reaches root key := by
  induction h with
  | done => simp
  | layer _ _ ih =>
    rw [List.map_append, List.mem_append, map_key_layerEvaluations, ih]
    -- a walk ends in this layer or goes on from a cell of the next one
    constructor
    · rintro (hkey | ⟨reader, hreader, hreach⟩)
      · exact ⟨key, hkey, .refl⟩
      · obtain ⟨source, hsource, hlead⟩ := List.mem_flatMap.1 hreader
        exact ⟨source, hsource, .head hlead hreach⟩
    · rintro ⟨root, hroot, hreach⟩
      rcases hreach.cases_head with rfl | ⟨reader, hlead, hreach⟩
      · exact .inl hroot
      · exact .inr ⟨reader, List.mem_flatMap.2 ⟨root, hroot, hlead⟩, hreach⟩

theorem Propagates.dimensions_eq (h : g.Propagates values frontier es final) :
    final.dimensions = values.dimensions := by
  induction h with
  | done => rfl
  | layer _ _ ih => rw [ih, dimensions_afterLayer]

/-- A propagation writes at most the slots of those cells that have a formula. -/
theorem Propagates.untouched (h : g.Propagates values frontier es final)
    (hfree : ∀ key ∈ es.map (·.key), key ∈ g.table → values.dimensions.slot? key ≠ some i) :
    final.cells[i]? = values.cells[i]? := by
  induction h with
  | done => rfl
  | layer _ _ ih =>
    simp only [List.map_append, List.mem_append, map_key_layerEvaluations] at hfree
    rw [ih, cells_afterLayer fun key hkey => hfree key (.inl hkey)]
    intro key hkey
    rw [dimensions_afterLayer]
    exact hfree key (.inr hkey)

/-- What the grid holds for a key is kept unless an evaluated cell with a formula shares its
slot. -/
theorem Propagates.get?_eq (h : g.Propagates values frontier es final)
    (hfree : ∀ writer ∈ es.map (·.key), writer ∈ g.table →
      ¬ values.dimensions.SameSlot writer key) : final.get? key = values.get? key :=
  Grid.get?_congr h.dimensions_eq fun i hslot =>
    h.untouched fun writer hwriter hmem heq => hfree writer hwriter hmem ⟨i, heq, hslot⟩

/-- **A cell is settled from its last layer on.** An undisturbed cell with a formula that is
evaluated at all ends up settled, and its last evaluation has the value of its formula over the
final grid. -/
theorem Propagates.settles (hcoherent : g.Coherent) (h : g.Propagates values frontier es final)
    (hkey : key ∈ es.map (·.key)) (hund : g.Undisturbed values.dimensions key)
    (hformula : g.table[key]? = some formula) :
    (∀ i, values.dimensions.slot? key = some i →
      final.cells[i]? = some (narrow (formula.eval final))) ∧
    lastValue? es key = some (formula.eval final) := by
  induction h with
  | done => exact absurd hkey List.not_mem_nil
  | @layer values frontier es final hfrontier rest ih =>
    have hdim := dimensions_afterLayer g values frontier
    by_cases hlater : key ∈ es.map (·.key)
    -- a later layer brings the cell up again and settles it
    · obtain ⟨hcells, hlast⟩ := ih hlater (hdim ▸ hund)
      refine ⟨fun i hslot => hcells i (hdim ▸ hslot), ?_⟩
      rw [lastValue?_append, hlast, Option.some_or]
    · have hfrontierkey : key ∈ frontier := by
        rw [List.map_append, List.mem_append, map_key_layerEvaluations] at hkey
        exact hkey.resolve_right hlater
      -- a write to an input in this layer or later would bring the cell back
      have heval : formula.eval final = formula.eval values := by
        refine Formula.eval_congr fun source hsource =>
          (Propagates.layer hfrontier rest).get?_eq fun writer hwriter hmem hslot => hlater ?_
        have hread : g.Reads key source := ⟨formula, hformula, hsource⟩
        obtain rfl := hund.2 source hread writer hmem hslot
        have hlead : g.dependents.Leads writer key := hcoherent.leads_dependents_iff.2 hread
        rw [List.map_append, List.mem_append, map_key_layerEvaluations] at hwriter
        rcases hwriter with hwriter | hwriter
        · exact rest.mem_map_key.2 ⟨key, List.mem_flatMap.2 ⟨writer, hwriter, hlead⟩, .refl⟩
        · obtain ⟨root, hroot, hreach⟩ := rest.mem_map_key.1 hwriter
          exact rest.mem_map_key.2 ⟨root, hroot, hreach.tail hlead⟩
      rw [heval]
      constructor
      · intro i hslot
        rw [rest.untouched, cells_afterLayer_of_mem hfrontierkey hformula hund.1 hslot]
        intro writer hwriter hmem heq
        rw [hdim] at heq
        exact hlater (hund.1 writer hmem ⟨i, heq, hslot⟩ ▸ hwriter)
      · rw [lastValue?_append, lastValue?_eq_none hlater, Option.none_or]
        refine lastValue?_eq_some ?_ fun e he hekey => ?_
        · rwa [map_key_layerEvaluations]
        · rw [value_of_mem_layerEvaluations he, hekey, compute?, hformula]
          rfl

/-- **A propagation resettles the cells that it evaluates.** -/
theorem Propagates.resettles (hcoherent : g.Coherent) (h : g.Propagates values frontier es final) :
    g.Resettles (· ∈ es.map (·.key)) values final where
  dimensions_eq := h.dimensions_eq
  untouched _ hfree := h.untouched hfree
  settled key hkey hund formula hformula i hslot := by
    rw [h.dimensions_eq] at hslot
    exact (h.settles hcoherent hkey hund hformula).1 i hslot

/-- A cell without a formula is only in the first layer, as a root, so each of its evaluations has
what the grid held for it at first. -/
theorem Propagates.value_of_not_mem_table {e : Evaluation} (hcoherent : g.Coherent)
    (h : g.Propagates values frontier es final) (he : e ∈ es) (hkey : e.key ∉ g.table) :
    e.value = held values e.key := by
  cases h with
  | done => exact absurd he List.not_mem_nil
  | layer _ rest =>
    rcases List.mem_append.1 he with he | he
    · rw [value_of_mem_layerEvaluations he, compute?, Std.ExtTreeMap.getElem?_eq_none hkey]
      rfl
    · -- the cells of the later layers read something
      obtain ⟨reader, hreader, hreach⟩ := rest.mem_map_key.1 (List.mem_map_of_mem he)
      obtain ⟨source, -, hlead⟩ := List.mem_flatMap.1 hreader
      refine absurd ?_ hkey
      rcases hreach.cases_tail with heq | ⟨last, -, hlast⟩
      · exact heq ▸ mem_table_of_reads (hcoherent.leads_dependents_iff.1 hlead)
      · exact mem_table_of_reads (hcoherent.leads_dependents_iff.1 hlast)

/-! ## Agreement -/

section Agreement

variable {s : Schedule}

/-- A propagation evaluates the scheduled cells. -/
theorem Propagates.mem_order_iff (h : g.Propagates values roots es final)
    (hs : g.schedule roots = .ok s) : key ∈ es.map (·.key) ↔ key ∈ s.order :=
  h.mem_map_key.trans (mem_order hs).symm

/-- **Both strategies end with the same grid.** -/
theorem Propagates.final_eq (hcoherent : g.Coherent) (hacyclic : g.dependencies.Acyclic)
    (hseparate : g.Separate values.dimensions) (h : g.Propagates values roots es final)
    (hs : g.schedule roots = .ok s) : final = (g.evaluateAll values s.order).2 := by
  have hordered : g.Resettles (· ∈ es.map (·.key)) values (g.evaluateAll values s.order).2 := by
    simp only [h.mem_order_iff hs]
    exact resettles_evaluateAll values (nodup_order hs) (hcoherent.listsReaders.evaluatesInputsFirst hs)
  exact (h.resettles hcoherent).unique hcoherent hacyclic hordered fun _ _ hmem =>
    hseparate.undisturbed hmem

/-- **Both strategies end with the same value of a cell**, unless it has no formula and shares its
slot with an evaluated cell. -/
theorem Propagates.lastValue?_eq (hcoherent : g.Coherent) (hacyclic : g.dependencies.Acyclic)
    (hseparate : g.Separate values.dimensions) (h : g.Propagates values roots es final)
    (hs : g.schedule roots = .ok s)
    (hkey : key ∈ g.table ∨
      ∀ writer ∈ s.order, writer ∈ g.table → ¬ values.dimensions.SameSlot writer key) :
    lastValue? es key = lastValue? (g.evaluateAll values s.order).1 key := by
  by_cases horder : key ∈ s.order
  · have hlayered : key ∈ es.map (·.key) := (h.mem_order_iff hs).2 horder
    have hordered : key ∈ (g.evaluateAll values s.order).1.map (·.key) := by
      rwa [map_key_evaluateAll]
    by_cases hmem : key ∈ g.table
    · obtain ⟨formula, hformula⟩ := KeyMap.mem_iff.1 hmem
      have hund := hseparate.undisturbed hmem
      rw [(h.settles hcoherent hlayered hund hformula).2,
        h.final_eq hcoherent hacyclic hseparate hs]
      exact (lastValue?_eq_some hordered (evaluateAll_settles (nodup_order hs)
        (hcoherent.listsReaders.evaluatesInputsFirst hs) horder hund hformula).2).symm
    · have hfree := hkey.resolve_left hmem
      have hlast : lastValue? es key = some (held values key) :=
        lastValue?_eq_some hlayered fun e he heq =>
          heq ▸ h.value_of_not_mem_table hcoherent he (heq ▸ hmem)
      have hlast' : lastValue? (g.evaluateAll values s.order).1 key = some (held values key) :=
        lastValue?_eq_some hordered fun e he heq =>
          heq ▸ value_of_mem_evaluateAll he (heq ▸ hmem) (heq ▸ hfree)
      rw [hlast, hlast']
  · rw [lastValue?_eq_none (mt (h.mem_order_iff hs).1 horder), lastValue?_eq_none]
    rwa [map_key_evaluateAll]

end Agreement

end Graph

namespace Assembly

/-- **Layered propagation and recalculation agree.** In a graph merged from any batches, where no
cell with a formula shares its slot with another one or with another key that a formula names, and
over any grid: a change of any roots propagates to an end, and the stream yields the same
evaluations and leaves the same grid; a recalculation succeeds, ends with the same grid and
evaluates the same cells, each once; and the last value of a cell is the one that the recalculation
has for it, if the cell has a formula or no evaluated cell with a formula shares its slot. Each
value that a propagation has for a key without a formula is what the grid held for it at first. -/
theorem propagate_agrees_with_recalculate (batches : List (KeyMap String)) (values : Grid Float32)
    (roots : List String) (hseparate : (ofBatches batches).graph.Separate values.dimensions) :
    let g := (ofBatches batches).graph
    ∃ layered ordered final,
      g.propagate values roots = some (layered, final) ∧
      (∀ n, layered.length < n →
        ((Propagation.start g values roots).take n).1.map (·.2) = layered ∧
          ((Propagation.start g values roots).take n).2.settled = final) ∧
      g.recalculate values roots = .ok (ordered, final) ∧
      (∀ key, key ∈ layered.map (·.key) ↔ key ∈ ordered.map (·.key)) ∧
      (ordered.map (·.key)).Nodup ∧
      (∀ key, (key ∈ g.table ∨ ∀ writer ∈ ordered.map (·.key), writer ∈ g.table →
          ¬ values.dimensions.SameSlot writer key) →
        lastValue? layered key = lastValue? ordered key) ∧
      ∀ e ∈ layered, e.key ∉ g.table → e.value = Graph.held values e.key := by
  intro g
  have hlive : Faithful (ofBatches batches) := faithful_ofBatches batches
  have hcoherent : g.Coherent := hlive.coherent
  have hacyclic := hcoherent.acyclic_dependents hlive.acyclic
  obtain ⟨layered, final, hpropagate⟩ := Graph.exists_propagate hacyclic values roots
  have hrun : g.Propagates values roots layered final := Graph.propagates_of_finish? hpropagate
  obtain ⟨s, hs⟩ := Graph.exists_schedule hacyclic roots
  have hfinal := hrun.final_eq hcoherent hlive.acyclic hseparate hs
  refine ⟨layered, (g.evaluateAll values s.order).1, final, hpropagate, fun n hn => hrun.take hn,
    ?_, ?_, ?_, ?_, fun e he => hrun.value_of_not_mem_table hcoherent he⟩
  · rw [Graph.recalculate, hs, hfinal]
    rfl
  · intro key
    rw [hrun.mem_order_iff hs, Graph.map_key_evaluateAll]
  · rw [Graph.map_key_evaluateAll]
    exact Graph.nodup_order hs
  · intro key hkey
    rw [Graph.map_key_evaluateAll] at hkey
    exact hrun.lastValue?_eq hcoherent hlive.acyclic hseparate hs hkey

/-- Where a change of `A1` brings up `C1` twice, both strategies have the same last value for it. -/
theorem diamond_propagates_as_recalculated :
    let batch : KeyMap String := .ofList [("A1", "1"), ("B1", "A1 + 1"), ("C1", "A1 + B1")]
    let g := (ofBatches [batch]).graph
    let values : Grid Float32 := ⟨⟨3, 1, by decide, by decide⟩, #[0, 0, 0], rfl, by decide⟩
    g.Separate values.dimensions ∧ "C1" ∈ g.table ∧ ∃ layered ordered final,
      g.propagate values ["A1"] = some (layered, final) ∧
      g.recalculate values ["A1"] = .ok (ordered, final) ∧
      lastValue? layered "C1" = lastValue? ordered "C1" := by
  intro batch g values
  let rank (key : String) : Nat := if key = "A1" then 0 else if key = "B1" then 1 else 2
  have htexts : (ofBatches [batch]).texts = ∅ ∪ batch :=
    faithful_empty.texts_add (Edges.acyclic_of_rank rank (by decide +kernel))
  have htable : g.table = (Graph.ofFormulas (∅ ∪ batch)).table :=
    (faithful_ofBatches [batch]).table_eq.trans (by rw [htexts])
  have hseparate : g.Separate values.dimensions := by
    refine Graph.Separate.congr_table htable.symm ?_
    decide +kernel
  have hkey : "C1" ∈ g.table := by
    rw [htable]
    decide +kernel
  obtain ⟨layered, ordered, final, hpropagate, -, hrecalculate, -, -, hlast, -⟩ :=
    propagate_agrees_with_recalculate [batch] values ["A1"] hseparate
  exact ⟨hseparate, hkey, layered, ordered, final, hpropagate, hrecalculate,
    hlast "C1" (.inl hkey)⟩

/-- What a propagation has for a key without a formula can differ from what a recalculation has for
it: here `AA1` shares the slot of `A1`, which holds 0 at first and 5 once `A1` is evaluated. -/
theorem unread_alias_propagates_otherwise :
    let g := (ofBatches [.ofList [("A1", "5")]]).graph
    let values : Grid Float32 := ⟨⟨2, 1, by decide, by decide⟩, #[0, 0], rfl, by decide⟩
    g.Separate values.dimensions ∧ ∃ layered ordered final final',
      g.propagate values ["A1", "AA1"] = some (layered, final) ∧
      g.recalculate values ["A1", "AA1"] = .ok (ordered, final') ∧
      lastValue? layered "AA1" ≠ lastValue? ordered "AA1" := by
  intro g values
  have hpropagate :
      (g.propagate values ["A1", "AA1"]).map (lastValue? ·.1 "AA1") = some (some 0) := by
    decide +kernel
  have hordered : lastValue? (g.evaluateAll values ["A1", "AA1"]).1 "AA1" ≠ some 0 := by
    decide +kernel
  have hschedule : g.schedule ["A1", "AA1"] = .ok ⟨[["A1", "AA1"]]⟩ :=
    Graph.schedule_of_targets_eq_nil (by decide) (by decide) (by decide +kernel)
  obtain ⟨⟨layered, final⟩, hlayered, hlast⟩ := Option.map_eq_some_iff.1 hpropagate
  refine ⟨by decide +kernel, layered, (g.evaluateAll values ["A1", "AA1"]).1, final,
    (g.evaluateAll values ["A1", "AA1"]).2, hlayered, ?_, fun heq => hordered (heq ▸ hlast)⟩
  rw [Graph.recalculate, hschedule]
  rfl

end Assembly

end Spreadsheet
