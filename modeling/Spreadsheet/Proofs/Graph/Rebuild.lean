import Spreadsheet.Proofs.Graph.Balance

/-! # Merging against rebuilding
An **assembly** is a live graph beside the formula texts of the batches it accepted. However many
batches came in, in whatever order and with whatever refusals between them, the live graph has the
formulas and dependencies of the graph built from all the texts at once and the same readers of
each key; and the next merge is refused exactly when the graph built from all the texts and those
of the batch has a cycle, with the same cells named. Only the order in which readers are listed
can differ. -/

namespace Spreadsheet

/-- A live graph and the texts of the formulas it was merged from. -/
structure Assembly where
  /-- The texts of the accepted batches, later ones in place of earlier ones. -/
  texts : KeyMap String
  /-- The live graph. -/
  graph : Graph

namespace Assembly

/-- Merges one more batch; a batch whose merge is refused changes nothing. -/
def add (a : Assembly) (batch : KeyMap String) : Assembly :=
  match a.graph.merge (.ofFormulas batch) with
  | .ok merged => ⟨a.texts ∪ batch, merged⟩
  | .error _ => a

/-- Batches merged one after another into a graph without formulas. -/
def ofBatches (batches : List (KeyMap String)) : Assembly := batches.foldl add ⟨∅, .empty⟩

/-- The live graph is, up to the order of readers, the graph of the texts, and it is acyclic. -/
structure Faithful (a : Assembly) : Prop where
  /-- The formulas are those of the texts. -/
  table_eq : a.graph.table = (Graph.ofFormulas a.texts).table
  /-- The edges are those of the formulas. -/
  coherent : a.graph.Coherent
  /-- No cell rests on itself. -/
  acyclic : a.graph.dependencies.Acyclic

variable {a : Assembly}

theorem table_ofFormulas_union (texts batch : KeyMap String) :
    (Graph.ofFormulas (texts ∪ batch)).table =
      (Graph.ofFormulas texts).table ∪ (Graph.ofFormulas batch).table := by
  refine Std.ExtTreeMap.ext_getElem? fun key => ?_
  simp only [Graph.getElem?_table_ofFormulas, Std.ExtTreeMap.getElem?_union]
  cases batch[key]? <;> rfl

theorem Faithful.dependencies_eq (h : a.Faithful) :
    a.graph.dependencies = (Graph.ofFormulas a.texts).dependencies := by
  rw [h.coherent.dependencies_eq, h.table_eq]
  rfl

/-- The formulas after a merge are those of all texts. -/
theorem Faithful.table_overlay (h : a.Faithful) (batch : KeyMap String) :
    (a.graph.overlay (.ofFormulas batch)).table = (Graph.ofFormulas (a.texts ∪ batch)).table := by
  rw [table_ofFormulas_union, ← h.table_eq]
  rfl

/-- The dependencies after a merge are those of all texts. -/
theorem Faithful.dependencies_overlay (h : a.Faithful) (batch : KeyMap String) :
    (a.graph.overlay (.ofFormulas batch)).dependencies =
      (Graph.ofFormulas (a.texts ∪ batch)).dependencies := by
  rw [(h.coherent.overlay (Graph.coherent_ofFormulas batch)).dependencies_eq, h.table_overlay]
  rfl

/-- **A merge is decided by the rebuilt graph**: it is refused for the cycles of the graph of all
texts. -/
theorem Faithful.merge_eq (h : a.Faithful) (batch : KeyMap String) :
    a.graph.merge (.ofFormulas batch) =
      (Graph.ofFormulas (a.texts ∪ batch)).checkAcyclic.map fun _ =>
        a.graph.overlay (.ofFormulas batch) := by
  rw [Graph.merge, Graph.checkAcyclic, Graph.checkAcyclic, h.dependencies_overlay]

theorem Faithful.merge_eq_ok_iff (h : a.Faithful) {batch : KeyMap String} {merged : Graph} :
    a.graph.merge (.ofFormulas batch) = .ok merged ↔
      (Graph.ofFormulas (a.texts ∪ batch)).dependencies.Acyclic ∧
        merged = a.graph.overlay (.ofFormulas batch) := by
  rw [Graph.merge_eq_ok_iff, h.dependencies_overlay]

/-- A merge keeps the live graph faithful to the texts. -/
theorem Faithful.merge (h : a.Faithful) {batch : KeyMap String} {merged : Graph}
    (hmerge : a.graph.merge (.ofFormulas batch) = .ok merged) :
    Faithful ⟨a.texts ∪ batch, merged⟩ := by
  obtain ⟨hacyclic, rfl⟩ := h.merge_eq_ok_iff.1 hmerge
  exact {
    table_eq := h.table_overlay batch
    coherent := h.coherent.overlay (Graph.coherent_ofFormulas batch)
    acyclic := by rwa [h.dependencies_overlay] }

theorem union_union_self (texts batch : KeyMap String) :
    texts ∪ batch ∪ batch = texts ∪ batch := by
  refine Std.ExtTreeMap.ext_getElem? fun key => ?_
  simp only [Std.ExtTreeMap.getElem?_union]
  cases batch[key]? <;> rfl

/-- Merging a batch that was merged last changes nothing. -/
theorem Faithful.merge_again {texts batch : KeyMap String} {merged : Graph}
    (h : Faithful ⟨texts ∪ batch, merged⟩) : merged.merge (.ofFormulas batch) = .ok merged := by
  refine h.merge_eq_ok_iff.2 ⟨?_, (h.coherent.overlay_eq_self (Graph.coherent_ofFormulas batch)
    fun key hkey => ?_).symm⟩
  · rw [union_union_self]
    exact h.dependencies_eq ▸ h.acyclic
  · have htable : merged.table = (Graph.ofFormulas (texts ∪ batch)).table := h.table_eq
    rw [htable, table_ofFormulas_union, Std.ExtTreeMap.getElem?_union]
    obtain ⟨formula, hformula⟩ := KeyMap.mem_iff.1 hkey
    rw [hformula, Option.some_or]

theorem faithful_empty : Faithful ⟨∅, .empty⟩ where
  table_eq := Std.ExtTreeMap.ext_getElem? fun key => by
    simp [Graph.ofFormulas, Graph.ofTable, Graph.empty]
  coherent := Graph.coherent_empty
  acyclic := by
    intro key hcycle
    obtain ⟨target, hlead, -⟩ := Relation.TransGen.head'_iff.1 hcycle
    exact Std.ExtTreeMap.not_mem_empty (Edges.mem_of_leads hlead)

/-- A batch that closes no circle over all texts is accepted. -/
theorem Faithful.texts_add (h : a.Faithful) {batch : KeyMap String}
    (hacyclic : (Graph.ofFormulas (a.texts ∪ batch)).dependencies.Acyclic) :
    (a.add batch).texts = a.texts ∪ batch := by
  rw [add, h.merge_eq_ok_iff.2 ⟨hacyclic, rfl⟩]

theorem Faithful.add (h : a.Faithful) (batch : KeyMap String) : (a.add batch).Faithful := by
  unfold Assembly.add
  split
  · rename_i merged hmerge
    exact h.merge hmerge
  · exact h

/-- Merging batches keeps the live graph faithful to the texts accepted so far. -/
theorem faithful_ofBatches (batches : List (KeyMap String)) : (ofBatches batches).Faithful :=
  List.foldlRecOn batches add faithful_empty fun _ h batch _ => h.add batch

/-- **Incremental merges equal a full rebuild.** After any batches the live graph has the formulas
and dependencies of the graph of all accepted texts, and the same readers of the same keys, each
listed once; and the next batch is refused exactly when the graph of all these texts and its own
has a cycle, with the error that checking that graph gives. -/
theorem ofBatches_agrees_with_rebuild (batches : List (KeyMap String)) (batch : KeyMap String) :
    let live := ofBatches batches
    let rebuilt := Graph.ofFormulas live.texts
    let attempted := Graph.ofFormulas (live.texts ∪ batch)
    live.graph.table = rebuilt.table ∧
    live.graph.dependencies = rebuilt.dependencies ∧
    (∀ key : String, key ∈ live.graph.dependents ↔ key ∈ rebuilt.dependents) ∧
    (∀ key reader : String, reader ∈ live.graph.dependents.targets key ↔
      reader ∈ rebuilt.dependents.targets key) ∧
    live.graph.Balanced ∧
    ((∃ cause, live.graph.merge (.ofFormulas batch) = .error cause) ↔
      ∃ key, attempted.dependencies.OnCycle key) ∧
    (∀ cause, live.graph.merge (.ofFormulas batch) = .error cause ↔
      attempted.checkAcyclic = .error cause) := by
  intro live rebuilt attempted
  have hlive : live.Faithful := faithful_ofBatches batches
  have hrebuilt : rebuilt.Coherent := Graph.coherent_ofFormulas live.texts
  -- who reads a key is settled by the dependencies, in whatever order readers are listed
  have hreaders : ∀ key reader,
      live.graph.dependents.Leads key reader ↔ rebuilt.dependents.Leads key reader := by
    intro key reader
    rw [hlive.coherent.leads_iff, hrebuilt.leads_iff, hlive.dependencies_eq]
  have herror : ∀ cause, live.graph.merge (.ofFormulas batch) = .error cause ↔
      attempted.checkAcyclic = .error cause := by
    intro cause
    rw [hlive.merge_eq]
    cases attempted.checkAcyclic <;> simp [Except.map]
  refine ⟨hlive.table_eq, hlive.dependencies_eq, fun key => ?_, hreaders,
    hlive.coherent.toBalanced, ?_, herror⟩
  · rw [hlive.coherent.dependents_filled.mem_iff, hrebuilt.dependents_filled.mem_iff]
    exact exists_congr fun reader => hreaders key reader
  · rw [exists_congr herror]
    exact Graph.exists_checkAcyclic_eq_error

end Assembly

end Spreadsheet
