import Spreadsheet.Proofs.Engine.Display
import Spreadsheet.Proofs.Graph.Rebuild

/-! # Engines after any batches
An engine takes batches one after another, and a refused batch changes nothing. Through every such
run it stays **sound**: its graph is the graph of the texts it accepted, its values are settled,
the texts it shows are those of its values, and a slot that no formula writes is as at the start.
A batch with a cell is accepted if the texts it would lead to have no cycle, so what a sound engine
accepts can be read off its texts. -/

namespace Spreadsheet

namespace Engine

variable {fresh e edited : Engine} {batch : Batch} {report : Report} {d : Dimensions}

/-! ## Steps that can fail -/

namespace Update

variable {α β : Type}

theorem run_pure (a : α) (e : Engine) : (pure a : Update α).run.run e = (.ok a, e) := rfl

theorem run_get (e : Engine) : (get : Update Engine).run.run e = (.ok e, e) := rfl

theorem run_modify (f : Engine → Engine) (e : Engine) :
    (modify f : Update PUnit).run.run e = (.ok ⟨⟩, f e) := rfl

theorem run_modifyGet (f : Engine → α × Engine) (e : Engine) :
    (modifyGet f : Update α).run.run e = (.ok (f e).1, (f e).2) := rfl

/-- What can fail and does not look at the engine leaves it alone. -/
theorem run_ofExcept (x : Except SheetError α) (e : Engine) :
    (MonadExcept.ofExcept x : Update α).run.run e = (x, e) := by
  cases x <;> rfl

/-- After a step that fails nothing more is done, and the engine is left as the step left it. -/
theorem run_bind (x : Update α) (f : α → Update β) (e : Engine) : (x >>= f).run.run e =
    match x.run.run e with
    | (.ok a, edited) => (f a).run.run edited
    | (.error cause, edited) => (.error cause, edited) := by
  simp only [bind, ExceptT.bind, ExceptT.mk, ExceptT.run, StateT.run, StateT.bind]
  rcases x e with ⟨cause | a, edited⟩ <;> rfl

end Update

/-! ## One batch -/

/-- All that an accepted batch does: the graph is merged and the scheduled cells are evaluated. -/
structure Accepts (e : Engine) (batch : Batch) (s : Schedule) (report : Report) (edited : Engine) :
    Prop where
  /-- The batch has a cell. -/
  nonempty : batch.isEmpty = false
  /-- The merge closes no circle. -/
  merge_eq : e.graph.merge (.ofFormulas batch) = .ok edited.graph
  /-- The cells of the batch are the roots of the schedule. -/
  schedule_eq : edited.graph.schedule batch.keys = .ok s
  /-- The texts of the batch replace earlier ones. -/
  texts_eq : edited.texts = e.texts ∪ batch
  /-- The scheduled cells are evaluated in order. -/
  values_eq : edited.values = (edited.graph.evaluateAll e.values s.order).2
  /-- Each evaluation is displayed. -/
  shown_eq : edited.shown = (edited.graph.evaluateAll e.values s.order).1.foldl display e.shown
  /-- The new snapshot is published. -/
  feed_eq : edited.feed = e.feed.send edited.snapshot
  /-- The report lists the evaluations. -/
  evaluated_eq : report.evaluated =
    (edited.graph.evaluateAll e.values s.order).1.map fun evaluation =>
      (evaluation.key, evaluation.value)
  /-- The report says what the cells of the batch brought up and which evaluations went nowhere. -/
  diagnostics_eq : report.diagnostics =
    batch.toList.flatMap (fun (key, text) => e.keyDiagnostics key text) ++
      (edited.graph.evaluateAll e.values s.order).1.filterMap outOfBounds?
  /-- The report tells the greatest depth. -/
  maxDepth_eq : report.maxDepth = s.maxDepth

/-- Why a batch is refused. -/
inductive Refuses (e : Engine) (batch : Batch) : SheetError → Prop
  /-- It has no cell. -/
  | empty : batch.isEmpty → Refuses e batch .emptyBatch
  /-- Its merge would close a circle. -/
  | merge {cause : SheetError} : batch.isEmpty = false →
      e.graph.merge (.ofFormulas batch) = .error cause → Refuses e batch cause
  /-- Its cells would have no schedule. -/
  | schedule {graph : Graph} {cause : SheetError} : batch.isEmpty = false →
      e.graph.merge (.ofFormulas batch) = .ok graph →
      graph.schedule batch.keys = .error cause → Refuses e batch cause

theorem edit_of_isEmpty (h : batch.isEmpty) (e : Engine) :
    e.edit batch = (.error .emptyBatch, e) := by
  rw [edit, editing, if_pos h]
  rfl

/-- A batch with a cell is merged and scheduled first; the engine changes after that. -/
theorem edit_eq (hnonempty : batch.isEmpty = false) (e : Engine) : e.edit batch =
    match e.graph.merge (.ofFormulas batch) with
    | .error cause => (.error cause, e)
    | .ok graph =>
      match graph.schedule batch.keys with
      | .error cause => (.error cause, e)
      | .ok s =>
        let run := (e.adopt batch graph).evaluate s.order
        (.ok {
          evaluated := run.1.map fun evaluation => (evaluation.key, evaluation.value)
          diagnostics := batch.toList.flatMap (fun (key, text) => e.keyDiagnostics key text) ++
            run.1.filterMap outOfBounds?
          maxDepth := s.maxDepth }, run.2.publish) := by
  rw [edit, editing, hnonempty]
  simp only [Bool.false_eq_true, if_false, Update.run_bind, Update.run_get, Update.run_ofExcept,
    Update.run_modify, Update.run_modifyGet, Update.run_pure]
  cases e.graph.merge (.ofFormulas batch) with
  | error cause => rfl
  | ok graph =>
    dsimp only
    cases graph.schedule batch.keys with
    | error cause => rfl
    | ok s => rfl

/-- **A batch is refused and leaves the engine as it was, or it is accepted** under a schedule. -/
theorem edit_cases (e : Engine) (batch : Batch) :
    (∃ cause, e.Refuses batch cause ∧ e.edit batch = (.error cause, e)) ∨
      ∃ s report edited, e.Accepts batch s report edited ∧ e.edit batch = (.ok report, edited) := by
  cases hempty : batch.isEmpty with
  | true => exact .inl ⟨_, .empty hempty, edit_of_isEmpty hempty e⟩
  | false =>
    rw [edit_eq hempty]
    cases hmerge : e.graph.merge (.ofFormulas batch) with
    | error cause => exact .inl ⟨cause, .merge hempty hmerge, rfl⟩
    | ok graph =>
      dsimp only
      cases hschedule : graph.schedule batch.keys with
      | error cause => exact .inl ⟨cause, .schedule hempty hmerge hschedule, rfl⟩
      | ok s =>
        exact .inr ⟨s, _, _, {
          nonempty := hempty
          merge_eq := hmerge
          schedule_eq := hschedule
          texts_eq := rfl
          values_eq := rfl
          shown_eq := rfl
          feed_eq := rfl
          evaluated_eq := rfl
          diagnostics_eq := rfl
          maxDepth_eq := rfl }, rfl⟩

theorem edit_of_apply_eq_ok (h : e.apply batch = .ok (report, edited)) :
    e.edit batch = (.ok report, edited) := by
  unfold apply at h
  rcases hedit : e.edit batch with ⟨cause | other, after⟩ <;> rw [hedit] at h
  · exact nomatch h
  · obtain ⟨rfl, rfl⟩ := Prod.mk.inj (Except.ok.inj h)
    rfl

/-- **A refused batch leaves the engine as it was.** -/
theorem edit_of_apply_eq_error {cause : SheetError} (h : e.apply batch = .error cause) :
    e.Refuses batch cause ∧ e.edit batch = (.error cause, e) := by
  unfold apply at h
  rcases e.edit_cases batch with ⟨other, hrefuses, hedit⟩ | ⟨s, report, edited, -, hedit⟩ <;>
    rw [hedit] at h
  · obtain rfl := Except.error.inj h
    exact ⟨hrefuses, hedit⟩
  · exact nomatch h

/-- A batch that is applied is accepted under a schedule. -/
theorem accepts_of_apply (h : e.apply batch = .ok (report, edited)) :
    ∃ s, e.Accepts batch s report edited := by
  have hedit := edit_of_apply_eq_ok h
  rcases e.edit_cases batch with ⟨cause, -, hcause⟩ | ⟨s, other, after, haccepts, hother⟩
  · exact nomatch (Prod.mk.inj (hedit.symm.trans hcause)).1
  · obtain ⟨hreport, rfl⟩ := Prod.mk.inj (hedit.symm.trans hother)
    obtain rfl := Except.ok.inj hreport
    exact ⟨s, haccepts⟩

/-- A batch with a cell is accepted if the merge closes no circle and the cells have a schedule. -/
theorem exists_apply {graph : Graph} {s : Schedule} (hnonempty : batch.isEmpty = false)
    (hmerge : e.graph.merge (.ofFormulas batch) = .ok graph)
    (hschedule : graph.schedule batch.keys = .ok s) :
    ∃ report edited, e.apply batch = .ok (report, edited) := by
  rw [apply, edit_eq hnonempty, hmerge]
  dsimp only
  rw [hschedule]
  exact ⟨_, _, rfl⟩

/-! ## Soundness -/

/-- What holds of an engine after any batches, against the engine it was at first. -/
structure Sound (fresh e : Engine) : Prop where
  /-- The graph is the graph of the accepted texts, and it is acyclic. -/
  faithful : Assembly.Faithful ⟨e.texts, e.graph⟩
  /-- The cells with a formula are settled, and the other slots are as at first. -/
  settled : e.graph.Resettles (fun _ => True) fresh.values e.values
  /-- The slot of a cell with a formula shows what it holds. -/
  shows_values : ∀ key ∈ e.graph.table, ∀ i, e.values.dimensions.slot? key = some i →
    e.shown.cells[i]? = e.values.cells[i]?.map cellText
  /-- The other slots show what they showed at first. -/
  shows_blanks : ∀ i, (∀ key ∈ e.graph.table, e.values.dimensions.slot? key ≠ some i) →
    e.shown.cells[i]? = fresh.shown.cells[i]?

/-- A new engine has the dimensions asked for and no formulas. -/
theorem fields_of_new (h : Engine.new d = .ok fresh) :
    fresh.values.dimensions = d ∧ fresh.texts = ∅ ∧ fresh.graph = .empty := by
  unfold Engine.new at h
  split at h
  · obtain rfl := Except.ok.inj h
    exact ⟨rfl, rfl, rfl⟩
  · cases h

/-- There is a new engine of any dimensions whose cells can be addressed. -/
theorem exists_new (h : d.area < Key.wordBound) : ∃ fresh, Engine.new d = .ok fresh :=
  ⟨_, dif_pos h⟩

theorem sound_new (h : Engine.new d = .ok fresh) : Sound fresh fresh := by
  obtain ⟨-, htexts, hgraph⟩ := fields_of_new h
  exact {
    faithful := by
      rw [htexts, hgraph]
      exact Assembly.faithful_empty
    settled := by
      rw [hgraph]
      exact Graph.resettles_empty _ _
    shows_values := fun key hkey => absurd (hgraph ▸ hkey) Std.ExtTreeMap.not_mem_empty
    shows_blanks := fun _ _ => rfl }

section Accepts

variable {s : Schedule} {key : String}

theorem Accepts.table_eq (h : e.Accepts batch s report edited) :
    edited.graph.table = e.graph.table ∪ (Graph.ofFormulas batch).table := by
  rw [Graph.eq_overlay_of_merge h.merge_eq]
  rfl

theorem Accepts.dimensions_eq (h : e.Accepts batch s report edited) :
    edited.values.dimensions = e.values.dimensions := by
  rw [h.values_eq, Graph.dimensions_evaluateAll]

/-- Formulas are never taken away. -/
theorem Accepts.mem_table (h : e.Accepts batch s report edited) (hkey : key ∈ e.graph.table) :
    key ∈ edited.graph.table := by
  rw [h.table_eq]
  exact Std.ExtTreeMap.mem_union_of_left hkey

/-- A key that is not scheduled is none of the batch and keeps its formula. -/
theorem Accepts.formula_eq (h : e.Accepts batch s report edited) (hkey : key ∉ s.order) :
    e.graph.table[key]? = edited.graph.table[key]? := by
  have hbatch : key ∉ (Graph.ofFormulas batch).table := by
    intro hmem
    refine hkey ((Graph.mem_order h.schedule_eq).2 ⟨key, ?_, .refl⟩)
    exact Std.ExtTreeMap.mem_keys.2 (Std.ExtTreeMap.mem_map.1 hmem)
  rw [h.table_eq, Std.ExtTreeMap.getElem?_union_of_not_mem_right hbatch]

/-- A key that got a formula is scheduled. -/
theorem Accepts.mem_order (h : e.Accepts batch s report edited) (hkey : key ∈ edited.graph.table)
    (hnew : key ∉ e.graph.table) : key ∈ s.order := by
  by_contra hnot
  rw [Std.ExtTreeMap.mem_iff_isSome_getElem?, ← h.formula_eq hnot,
    ← Std.ExtTreeMap.mem_iff_isSome_getElem?] at hkey
  exact hnew hkey

/-- The graph after an accepted batch is the graph of all texts. -/
theorem Sound.faithful_of_accepts (hsound : Sound fresh e)
    (h : e.Accepts batch s report edited) : Assembly.Faithful ⟨edited.texts, edited.graph⟩ := by
  rw [h.texts_eq]
  exact hsound.faithful.merge h.merge_eq

/-- A scheduled cell has a formula: it is one of the batch, or it reads a scheduled cell. -/
theorem Sound.mem_table_of_mem_order (hsound : Sound fresh e)
    (h : e.Accepts batch s report edited) (hkey : key ∈ s.order) : key ∈ edited.graph.table := by
  obtain ⟨root, hroot, hreach⟩ := (Graph.mem_order h.schedule_eq).1 hkey
  rcases Relation.ReflTransGen.cases_tail_iff _ _ _ |>.1 hreach with heq | ⟨source, _, hlead⟩
  · rw [heq, h.table_eq]
    refine Std.ExtTreeMap.mem_union_of_right (Std.ExtTreeMap.mem_map.2 ?_)
    exact Std.ExtTreeMap.mem_keys.1 hroot
  · exact Graph.mem_table_of_reads
      ((hsound.faithful_of_accepts h).coherent.leads_dependents_iff.1 hlead)

/-- The scheduled cells are evaluated once each, inputs first. -/
theorem Sound.evaluatesInputsFirst (hsound : Sound fresh e)
    (h : e.Accepts batch s report edited) : edited.graph.EvaluatesInputsFirst s.order :=
  (hsound.faithful_of_accepts h).coherent.listsReaders.evaluatesInputsFirst h.schedule_eq

/-- A cell that reads a scheduled cell is scheduled. -/
theorem Sound.order_closed (hsound : Sound fresh e) (h : e.Accepts batch s report edited)
    {source reader : String} (hsource : source ∈ s.order)
    (hread : edited.graph.Reads reader source) : reader ∈ s.order := by
  have hlead := (hsound.faithful_of_accepts h).coherent.leads_dependents_iff.2 hread
  have hperm := (Graph.order_of_schedule h.schedule_eq).1
  exact hperm.mem_iff.2 (Edges.closed_reachable _ _ _ (hperm.mem_iff.1 hsource) _ hlead)

/-- **An accepted batch keeps the engine sound.** -/
theorem Sound.of_accepts (hsound : Sound fresh e) (h : e.Accepts batch s report edited) :
    Sound fresh edited := by
  have hresettles : edited.graph.Resettles (· ∈ s.order) e.values edited.values :=
    h.values_eq ▸ Graph.resettles_evaluateAll e.values (Graph.nodup_order h.schedule_eq)
      (hsound.evaluatesInputsFirst h)
  refine {
    faithful := hsound.faithful_of_accepts h
    settled := hsound.settled.edit hresettles (fun key => h.mem_table) (fun key => h.formula_eq)
      fun source reader => hsound.order_closed h
    shows_values := fun key hkey i hslot => ?_
    shows_blanks := fun i hfree => ?_ }
  · rw [hresettles.dimensions_eq] at hslot
    -- a slot that the batch writes shows its value, and one that it does not is as before
    by_cases hwritten : ∃ writer ∈ s.order, writer ∈ edited.graph.table ∧
        e.values.dimensions.slot? writer = some i
    · obtain ⟨writer, hwriter, hmem, hwriterslot⟩ := hwritten
      rw [h.shown_eq, h.values_eq]
      exact cells_foldl_display e.dimensions_eq hwriter hmem hwriterslot
    · have hfree : ∀ writer ∈ s.order, writer ∈ edited.graph.table →
          e.values.dimensions.slot? writer ≠ some i :=
        fun writer hwriter hmem heq => hwritten ⟨writer, hwriter, hmem, heq⟩
      have hold : key ∈ e.graph.table := by
        by_contra hnew
        exact hfree key (h.mem_order hkey hnew) hkey hslot
      rw [h.shown_eq, cells_foldl_display_of_ne hfree, hresettles.untouched i hfree]
      exact hsound.shows_values key hold i hslot
  · rw [hresettles.dimensions_eq] at hfree
    rw [h.shown_eq, cells_foldl_display_of_ne fun writer _ => hfree writer]
    exact hsound.shows_blanks i fun key hkey => hfree key (h.mem_table hkey)

/-- The report lists the scheduled cells in order. -/
theorem Accepts.map_fst_evaluated (h : e.Accepts batch s report edited) :
    report.evaluated.map (·.1) = s.order := by
  rw [h.evaluated_eq, List.map_map]
  exact Graph.map_key_evaluateAll edited.graph e.values s.order

end Accepts

/-! ## Runs -/

/-- The engine after a batch came in, whether it was accepted or not. -/
def submit (e : Engine) (batch : Batch) : Engine := (e.edit batch).2

/-- The engine after batches came in one after another. -/
def submitAll (e : Engine) (batches : List Batch) : Engine := batches.foldl submit e

theorem submit_eq_of_apply (h : e.apply batch = .ok (report, edited)) :
    e.submit batch = edited := by
  rw [submit, edit_of_apply_eq_ok h]

/-- A refused batch changes nothing. -/
theorem submit_of_apply_eq_error {cause : SheetError} (h : e.apply batch = .error cause) :
    e.submit batch = e := by
  rw [submit, (edit_of_apply_eq_error h).2]

theorem Sound.submit (hsound : Sound fresh e) (batch : Batch) : Sound fresh (e.submit batch) := by
  unfold Engine.submit
  rcases e.edit_cases batch with ⟨cause, -, hedit⟩ | ⟨s, report, edited, haccepts, hedit⟩
  · exact hedit ▸ hsound
  · exact hedit ▸ hsound.of_accepts haccepts

/-- **Every run keeps an engine sound.** -/
theorem sound_submitAll (hnew : Engine.new d = .ok fresh) (batches : List Batch) :
    Sound fresh (fresh.submitAll batches) :=
  List.foldlRecOn batches Engine.submit (sound_new hnew) fun _ h batch _ => h.submit batch

theorem Sound.dimensions_eq (hsound : Sound fresh e) (hnew : Engine.new d = .ok fresh) :
    e.values.dimensions = d :=
  hsound.settled.dimensions_eq.trans (fields_of_new hnew).1

/-! ## Which batches are accepted -/

/-- A batch with a cell is accepted if the texts it would lead to have no cycle. -/
theorem Sound.exists_apply (h : Sound fresh e) (hnonempty : batch.isEmpty = false)
    (hacyclic : (Graph.ofFormulas (e.texts ∪ batch)).dependencies.Acyclic) :
    ∃ report edited, e.apply batch = .ok (report, edited) := by
  have hmerge := h.faithful.merge_eq_ok_iff.2 ⟨hacyclic, rfl⟩
  have hmerged := h.faithful.merge hmerge
  obtain ⟨s, hs⟩ := Graph.exists_schedule
    (hmerged.coherent.acyclic_dependents hmerged.acyclic) batch.keys
  exact Engine.exists_apply hnonempty hmerge hs

/-- A batch that closes no circle over all texts replaces texts. -/
theorem Sound.texts_submit (h : Sound fresh e) (hnonempty : batch.isEmpty = false)
    (hacyclic : (Graph.ofFormulas (e.texts ∪ batch)).dependencies.Acyclic) :
    (e.submit batch).texts = e.texts ∪ batch := by
  obtain ⟨report, edited, happly⟩ := h.exists_apply hnonempty hacyclic
  obtain ⟨s, haccepts⟩ := accepts_of_apply happly
  rw [submit_eq_of_apply happly, haccepts.texts_eq]

/-- A new engine adds no texts of its own to a batch. -/
theorem union_texts_of_new (h : Engine.new d = .ok fresh) (texts : Batch) :
    fresh.texts ∪ texts = texts := by
  rw [(fields_of_new h).2.1]
  refine Std.ExtTreeMap.ext_getElem? fun key => ?_
  rw [Std.ExtTreeMap.getElem?_union, Std.ExtTreeMap.getElem?_empty, Option.or_none]

/-- The first batch of a new engine, if it closes no circle, is all its texts. -/
theorem texts_submit_new (h : Engine.new d = .ok fresh) (hnonempty : batch.isEmpty = false)
    (hacyclic : (Graph.ofFormulas batch).dependencies.Acyclic) :
    (fresh.submit batch).texts = batch := by
  have hunion := union_texts_of_new h batch
  rw [(sound_new h).texts_submit hnonempty (by rwa [hunion]), hunion]

/-- The formulas of a sound engine can be read off its texts. -/
theorem Sound.table_of_texts {texts : Batch} (h : Sound fresh e) (htexts : e.texts = texts) :
    e.graph.table = (Graph.ofFormulas texts).table := by
  have htable : e.graph.table = (Graph.ofFormulas e.texts).table := h.faithful.table_eq
  rw [htable, htexts]

/-- The dependencies of a sound engine can be read off its texts. -/
theorem Sound.dependencies_of_texts {texts : Batch} (h : Sound fresh e)
    (htexts : e.texts = texts) :
    e.graph.dependencies = (Graph.ofFormulas texts).dependencies := by
  have hdependencies : e.graph.dependencies = (Graph.ofFormulas e.texts).dependencies :=
    h.faithful.dependencies_eq
  rw [hdependencies, htexts]

/-- Whether the cells of a sound engine are separate can be read off its texts. -/
theorem Sound.separate (h : Sound fresh e) (hseparate : (Graph.ofFormulas e.texts).Separate d) :
    e.graph.Separate d :=
  hseparate.congr_table h.faithful.table_eq.symm

end Engine

end Spreadsheet
