import Spreadsheet.Proofs.Engine.Run

/-! # Histories leave no trace
Two engines of the same dimensions that hold the same texts are in the same state, whatever batches
led there, as long as no cell shares its slot with another one or with another key that is read:
their graphs have the same formulas, a settled grid is unique, and the shown texts follow the
values. In particular all the texts at once, as one batch, lead a new engine to that state. -/

namespace Spreadsheet

namespace Engine

variable {fresh e e' edited : Engine} {batch : Batch} {report : Report} {d : Dimensions}

theorem Sound.table_eq (h : Sound fresh e) (h' : Sound fresh e') (htexts : e.texts = e'.texts) :
    e.graph.table = e'.graph.table := by
  have htable : e.graph.table = (Graph.ofFormulas e.texts).table := h.faithful.table_eq
  have htable' : e'.graph.table = (Graph.ofFormulas e'.texts).table := h'.faithful.table_eq
  rw [htable, htable', htexts]

/-- Sound engines with the same texts and separate cells have the same values. -/
theorem Sound.values_eq (h : Sound fresh e) (h' : Sound fresh e') (htexts : e.texts = e'.texts)
    (hseparate : e.graph.Separate fresh.values.dimensions) : e.values = e'.values :=
  h.settled.unique h.faithful.coherent h.faithful.acyclic
    (h'.settled.congr_table (h.table_eq h' htexts).symm)
    fun _ _ hmem => hseparate.undisturbed hmem

/-- Sound engines with the same formulas and the same values show the same texts. -/
theorem Sound.shown_eq (h : Sound fresh e) (h' : Sound fresh e')
    (htable : e.graph.table = e'.graph.table) (hvalues : e.values = e'.values) :
    e.shown = e'.shown := by
  refine Grid.eq_of_cells (by rw [e.dimensions_eq, e'.dimensions_eq, hvalues]) fun i => ?_
  -- a slot is that of a cell with a formula, and shows its value, or it is blank in both
  by_cases hi : ∃ key ∈ e.graph.table, e.values.dimensions.slot? key = some i
  · obtain ⟨key, hkey, hslot⟩ := hi
    rw [h.shows_values key hkey i hslot,
      h'.shows_values key (htable ▸ hkey) i (hvalues ▸ hslot), hvalues]
  · have hfree : ∀ key ∈ e.graph.table, e.values.dimensions.slot? key ≠ some i :=
      fun key hkey hslot => hi ⟨key, hkey, hslot⟩
    rw [h.shows_blanks i hfree, h'.shows_blanks i (hvalues ▸ htable ▸ hfree)]

/-- Sound engines with the same texts and separate cells have the same snapshot. -/
theorem Sound.snapshot_eq (h : Sound fresh e) (h' : Sound fresh e') (htexts : e.texts = e'.texts)
    (hseparate : e.graph.Separate fresh.values.dimensions) : e.snapshot = e'.snapshot := by
  have htable := h.table_eq h' htexts
  rw [snapshot, snapshot, htable, htexts,
    h.shown_eq h' htable (h.values_eq h' htexts hseparate)]

/-- **Histories leave no trace.** If two runs of a new engine end with the same texts, and no cell
then shares its slot with another one or with another key that a formula names, they end with the
same snapshot and the same values; and if there is a text at all, a new engine accepts all texts as
one batch and ends there too. -/
theorem state_determined_by_texts (hnew : Engine.new d = .ok fresh) (first second : List Batch)
    (htexts : (fresh.submitAll first).texts = (fresh.submitAll second).texts)
    (hseparate : (fresh.submitAll first).graph.Separate d) :
    let e := fresh.submitAll first
    let e' := fresh.submitAll second
    e.snapshot = e'.snapshot ∧ e.values = e'.values ∧
    (e.texts.isEmpty = false → ∃ report edited, fresh.apply e.texts = .ok (report, edited) ∧
      edited.snapshot = e.snapshot ∧ edited.values = e.values) := by
  intro e e'
  have h : Sound fresh e := sound_submitAll hnew first
  have h' : Sound fresh e' := sound_submitAll hnew second
  rw [← (fields_of_new hnew).1] at hseparate
  refine ⟨h.snapshot_eq h' htexts hseparate, h.values_eq h' htexts hseparate, fun hsome => ?_⟩
  have hunion : fresh.texts ∪ e.texts = e.texts := union_texts_of_new hnew e.texts
  have hacyclic : (Graph.ofFormulas (fresh.texts ∪ e.texts)).dependencies.Acyclic := by
    rw [hunion]
    exact h.faithful.dependencies_eq ▸ h.faithful.acyclic
  -- the batch of all texts leads a new engine to a sound one with the same texts
  obtain ⟨report, edited, happly⟩ := (sound_new hnew).exists_apply hsome hacyclic
  obtain ⟨s, haccepts⟩ := accepts_of_apply happly
  have hedited : Sound fresh edited := (sound_new hnew).of_accepts haccepts
  have hsame : e.texts = edited.texts := by rw [haccepts.texts_eq, hunion]
  exact ⟨report, edited, happly, (h.snapshot_eq hedited hsame hseparate).symm,
    (h.values_eq hedited hsame hseparate).symm⟩

/-- Two batches in a row and their texts as one batch lead to one state. -/
theorem state_after_two_batches_eq_state_after_one :
    let d : Dimensions := ⟨2, 1, by decide, by decide⟩
    let first : List Batch := [.ofList [("A1", "1"), ("B1", "A1 + 1")], .ofList [("A1", "2")]]
    let second : List Batch := [.ofList [("A1", "2"), ("B1", "A1 + 1")]]
    ∃ fresh report edited, Engine.new d = .ok fresh ∧
      (fresh.submitAll first).texts = (fresh.submitAll second).texts ∧
      (fresh.submitAll first).graph.Separate d ∧
      (fresh.submitAll first).snapshot = (fresh.submitAll second).snapshot ∧
      (fresh.submitAll first).values = (fresh.submitAll second).values ∧
      fresh.apply (fresh.submitAll first).texts = .ok (report, edited) ∧
      edited.snapshot = (fresh.submitAll first).snapshot ∧
      edited.values = (fresh.submitAll first).values := by
  intro d first second
  obtain ⟨fresh, hnew⟩ := exists_new (d := d) (by decide)
  let rank (key : String) : Nat := if key = "A1" then 0 else 1
  have hearlier : (fresh.submit (.ofList [("A1", "1"), ("B1", "A1 + 1")])).texts =
      .ofList [("A1", "1"), ("B1", "A1 + 1")] :=
    texts_submit_new hnew (by decide +kernel) (Edges.acyclic_of_rank rank (by decide +kernel))
  have hfirst : (fresh.submitAll first).texts =
      .ofList [("A1", "1"), ("B1", "A1 + 1")] ∪ .ofList [("A1", "2")] := by
    rw [← hearlier]
    refine ((sound_new hnew).submit _).texts_submit (by decide +kernel) ?_
    rw [hearlier]
    exact Edges.acyclic_of_rank rank (by decide +kernel)
  have hsecond : (fresh.submitAll second).texts = .ofList [("A1", "2"), ("B1", "A1 + 1")] :=
    texts_submit_new hnew (by decide +kernel) (Edges.acyclic_of_rank rank (by decide +kernel))
  have htexts : (fresh.submitAll first).texts = (fresh.submitAll second).texts := by
    rw [hfirst, hsecond]
    rfl
  have hseparate : (fresh.submitAll first).graph.Separate d := by
    refine (sound_submitAll hnew first).separate ?_
    rw [hfirst]
    decide +kernel
  obtain ⟨hsnapshot, hvalues, hbatch⟩ :=
    state_determined_by_texts hnew first second htexts hseparate
  obtain ⟨report, edited, happly⟩ := hbatch (by rw [hfirst]; decide +kernel)
  exact ⟨fresh, report, edited, hnew, htexts, hseparate, hsnapshot, hvalues, happly⟩

end Engine

end Spreadsheet
