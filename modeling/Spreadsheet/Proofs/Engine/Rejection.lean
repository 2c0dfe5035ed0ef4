import Spreadsheet.Proofs.Engine.Circles
import Spreadsheet.Proofs.Engine.Events
import Spreadsheet.Engine.Worker

/-! # Refused batches
A batch is refused exactly when it is empty or when the texts it leads to have a circle, and then
the error names the cells on the circles, in ascending order. The edges of the graph in the one
direction decide this: once a batch is merged, the edges in the other direction have a schedule.
Since the accepted texts never have a circle, each circle that a batch is refused for runs through
one of its own cells. An engine that refuses a batch is left as it was. -/

namespace Spreadsheet

namespace Engine

variable {fresh e : Engine} {batch : Batch} {merged : Graph} {d : Dimensions}
  {circle : Cycle String}

/-- A batch whose merge is refused is refused with the same error. -/
theorem apply_of_merge_eq_error {cause : SheetError} (hnonempty : batch.isEmpty = false)
    (h : e.graph.merge (.ofFormulas batch) = .error cause) : e.apply batch = .error cause := by
  rw [apply, edit_eq hnonempty, h]
  rfl

/-- A batch that leads to a circle is refused for the cells on the circles. -/
theorem Sound.apply_of_not_acyclic (h : Sound fresh e) (hnonempty : batch.isEmpty = false)
    (hcycle : ¬ (Graph.ofFormulas (e.texts ∪ batch)).dependencies.Acyclic) :
    e.apply batch =
      .error (.cycle (Graph.ofFormulas (e.texts ∪ batch)).dependencies.cycleMembers) := by
  refine apply_of_merge_eq_error hnonempty ?_
  -- the merge checks the graph of all texts, whatever was merged before
  have hmerge := h.faithful.merge_eq batch
  rw [Graph.checkAcyclic_of_not_acyclic hcycle] at hmerge
  exact hmerge

/-- Once a batch is merged, a change of any cells has a schedule. -/
theorem Sound.exists_schedule (h : Sound fresh e)
    (hmerge : e.graph.merge (.ofFormulas batch) = .ok merged) (roots : List String) :
    ∃ s, merged.schedule roots = .ok s :=
  have hmerged := h.faithful.merge hmerge
  Graph.exists_schedule (hmerged.coherent.acyclic_dependents hmerged.acyclic) roots

/-- The texts of a sound engine have no circle. -/
theorem Sound.not_isCircle (h : Sound fresh e) (circle : Cycle String) :
    ¬ e.texts.IsCircle circle :=
  Batch.acyclic_iff.1 (h.faithful.dependencies_eq ▸ h.faithful.acyclic) circle

/-- A circle among the texts that a batch leads to has a cell of the batch. -/
theorem Sound.exists_mem_batch (h : Sound fresh e)
    (hcircle : (e.texts ∪ batch).IsCircle circle) : ∃ key ∈ circle, key ∈ batch :=
  hcircle.exists_mem_batch h.not_isCircle

/-- A batch that leads to a circle is refused for the cells on the circles. -/
theorem Sound.apply_of_isCircle (h : Sound fresh e)
    (hcircle : (e.texts ∪ batch).IsCircle circle) :
    e.apply batch =
      .error (.cycle (Graph.ofFormulas (e.texts ∪ batch)).dependencies.cycleMembers) := by
  obtain ⟨key, -, hkey⟩ := h.exists_mem_batch hcircle
  exact h.apply_of_not_acyclic (KeyMap.isEmpty_eq_false hkey) fun hacyclic =>
    Batch.acyclic_iff.1 hacyclic circle hcircle

/-- What an engine refuses is empty or leads to a circle. -/
theorem Sound.isEmpty_or_exists_isCircle {cause : SheetError} (h : Sound fresh e)
    (hcause : e.apply batch = .error cause) :
    batch.isEmpty ∨ ∃ circle, (e.texts ∪ batch).IsCircle circle := by
  by_contra hneither
  push Not at hneither
  obtain ⟨report, edited, haccepted⟩ := h.exists_apply
    (Bool.eq_false_of_not_eq_true hneither.1) (Batch.acyclic_iff.2 hneither.2)
  exact nomatch hcause.symm.trans haccepted

/-- A refused command is answered with the cause and leaves the engine as it was. -/
theorem execute_of_apply_eq_error {cause : SheetError} (h : e.apply batch = .error cause) :
    e.execute (.edit batch) = (.edited (.error cause), e) := by
  rw [execute, (edit_of_apply_eq_error h).2]

/-- **Refusal is exact and leaves no trace.** After any events a batch is refused exactly when it
is empty or the texts it leads to have a circle. Each such circle has a cell of the batch, and the
error names the cells on the circles, in ascending order and each once. Editing and the command for
it leave the whole engine as it was if the batch is refused, its feed included, and a batch that
merges has a schedule. -/
theorem refused_iff_empty_or_circle (hnew : Engine.new d = .ok fresh) (events : List Event)
    (batch : Batch) :
    let e := fresh.after events
    let texts := e.texts ∪ batch
    ((∃ cause, e.apply batch = .error cause) ↔
      batch.isEmpty ∨ ∃ circle, texts.IsCircle circle) ∧
    (e.apply batch = .error .emptyBatch ↔ batch.isEmpty) ∧
    (∀ circle, texts.IsCircle circle → (∃ key ∈ circle, key ∈ batch) ∧
      ∃ cells, e.apply batch = .error (.cycle cells) ∧ cells.Pairwise (· < ·) ∧
        ∀ key, key ∈ cells ↔ ∃ circle, texts.IsCircle circle ∧ key ∈ circle) ∧
    (∀ cause, e.apply batch = .error cause → e.edit batch = (.error cause, e) ∧
      e.execute (.edit batch) = (.edited (.error cause), e)) ∧
    ∀ merged, e.graph.merge (.ofFormulas batch) = .ok merged →
      ∀ roots, ∃ s, merged.schedule roots = .ok s := by
  intro e texts
  have hsound : Sound fresh e := sound_after hnew events
  refine ⟨⟨?_, ?_⟩, ⟨fun hcause => ?_, fun h => apply_of_isEmpty h e⟩, fun circle hcircle => ?_,
    fun cause hcause => ⟨(edit_of_apply_eq_error hcause).2, execute_of_apply_eq_error hcause⟩,
    fun merged hmerge => hsound.exists_schedule hmerge⟩
  · rintro ⟨cause, hcause⟩
    exact hsound.isEmpty_or_exists_isCircle hcause
  · rintro (hempty | ⟨circle, hcircle⟩)
    · exact ⟨_, apply_of_isEmpty hempty e⟩
    · exact ⟨_, hsound.apply_of_isCircle hcircle⟩
  · -- for a circle the error would be another one
    refine (hsound.isEmpty_or_exists_isCircle hcause).resolve_right ?_
    rintro ⟨circle, hcircle⟩
    exact nomatch hcause.symm.trans (hsound.apply_of_isCircle hcircle)
  · refine ⟨hsound.exists_mem_batch hcircle, _, hsound.apply_of_isCircle hcircle,
      Edges.ascending_cycleMembers _, fun key => ?_⟩
    exact Edges.mem_cycleMembers.trans Batch.exists_isCircle_iff.symm

/-- After a number and its successor have come in, a text that makes the number read its successor
is refused for both cells, and the engine with its subscriber is as before. -/
theorem circle_of_successor_refused :
    let d : Dimensions := ⟨3, 3, by decide, by decide⟩
    let events : List Event :=
      [.subscribe true, .edit (.ofList [("A1", "1"), ("B1", "A1 + 1")])]
    let batch : Batch := .ofList [("A1", "B1")]
    ∃ fresh cells, Engine.new d = .ok fresh ∧
      (fresh.after events).apply batch = .error (.cycle cells) ∧
      cells.Pairwise (· < ·) ∧ "A1" ∈ cells ∧ "B1" ∈ cells ∧
      (fresh.after events).edit batch = (.error (.cycle cells), fresh.after events) ∧
      (fresh.after events).execute (.edit batch) =
        (.edited (.error (.cycle cells)), fresh.after events) := by
  intro d events batch
  obtain ⟨fresh, hnew⟩ := exists_new (d := d) (by decide)
  let first : Batch := .ofList [("A1", "1"), ("B1", "A1 + 1")]
  let rank (key : String) : Nat := if key = "A1" then 0 else 1
  have htexts : (fresh.after events).texts = first := by
    have hsubscribed : Sound fresh (fresh.subscribe true) :=
      (sound_new hnew).react (.subscribe true)
    have hunion : (fresh.subscribe true).texts ∪ first = first := union_texts_of_new hnew first
    change ((fresh.subscribe true).submit first).texts = first
    rw [hsubscribed.texts_submit (by decide +kernel), hunion]
    rw [hunion]
    exact Edges.acyclic_of_rank rank (by decide +kernel)
  have hcircle : ((fresh.after events).texts ∪ batch).IsCircle (["A1", "B1"] : List String) := by
    rw [htexts]
    refine ⟨mt (Cycle.coe_eq_nil _).1 (List.cons_ne_nil _ _), (Cycle.chain_coe_cons _ _ _).2 ?_⟩
    refine .cons_cons ⟨"B1", by decide +kernel, by decide +kernel⟩ (.cons_cons ?_ (.singleton _))
    exact ⟨"A1 + 1", by decide +kernel, by decide +kernel⟩
  obtain ⟨-, -, hrefused, hunchanged, -⟩ := refused_iff_empty_or_circle hnew events batch
  obtain ⟨-, cells, hcells, hascending, hmem⟩ := hrefused _ hcircle
  exact ⟨fresh, cells, hnew, hcells, hascending,
    (hmem "A1").2 ⟨_, hcircle, Cycle.mem_coe_iff.2 (by decide)⟩,
    (hmem "B1").2 ⟨_, hcircle, Cycle.mem_coe_iff.2 (by decide)⟩, hunchanged _ hcells⟩

end Engine

end Spreadsheet
