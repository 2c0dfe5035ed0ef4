import Spreadsheet.Proofs.Engine.Events
import Spreadsheet.Proofs.Engine.Settled

/-! # What explains a value
The **precedents** of a cell are the keys that its value rests on. They are found by following what
formulas name, so two sheets with the same formulas for a cell and for its precedents find the same
ones, and where slots are not shared the values are the same too: a precedent with a formula has
the value of that formula over its own precedents, and one without holds what the grid held at
first. Nothing else in either sheet matters, and neither does how it came about. -/

namespace Spreadsheet

namespace Graph

variable {g g' : Graph} {key source reader : String}

/-- The dependencies of a cell are a matter of its formula. -/
theorem Coherent.targets_congr (h : g.Coherent) (h' : g'.Coherent)
    (hformula : g.table[key]? = g'.table[key]?) :
    g.dependencies.targets key = g'.dependencies.targets key := by
  rw [h.dependencies_eq, h'.dependencies_eq, targets_dependenciesOf, targets_dependenciesOf,
    hformula]

/-- What the formula of a cell, or of one of its precedents, names is a precedent or the cell. -/
theorem Coherent.mem_cons_precedents_of_reads (h : g.Coherent)
    (hreader : reader ∈ key :: g.precedents key) (hread : g.Reads reader source) :
    source ∈ key :: g.precedents key :=
  Edges.mem_cons_beyond_of_leads hreader (h.leads_dependencies_iff.2 hread)

/-- A precedent is named by the formula of the cell or of another precedent. -/
theorem Coherent.exists_reads_of_mem_precedents (h : g.Coherent)
    (hkey : source ∈ g.precedents key) :
    ∃ reader ∈ key :: g.precedents key, g.Reads reader source := by
  obtain ⟨reader, hreader, hlead⟩ := Edges.exists_leads_of_mem_beyond hkey
  exact ⟨reader, hreader, h.leads_dependencies_iff.1 hlead⟩

/-- **The precedents of a cell** depend only on its formula and theirs. -/
theorem Coherent.precedents_congr (h : g.Coherent) (h' : g'.Coherent)
    (hformulas : ∀ cell ∈ key :: g.precedents key, g.table[cell]? = g'.table[cell]?) :
    g.precedents key = g'.precedents key :=
  Edges.beyond_congr fun cell hcell => h.targets_congr h' (hformulas cell hcell)

end Graph

namespace Engine

variable {fresh e e' : Engine} {d : Dimensions} {key reader : String}

/-- Where the cells are separate, the grid holds for a key that has no formula but is named by one
what it held at first. -/
theorem Sound.get?_of_reads (hsound : Sound fresh e)
    (hseparate : e.graph.Separate fresh.values.dimensions) (hkey : key ∉ e.graph.table)
    (hread : e.graph.Reads reader key) : e.values.get? key = fresh.values.get? key :=
  hsound.settled.get?_eq fun writer _ hwriter hslot =>
    hkey (hseparate writer hwriter key (.inr ⟨reader, hread⟩) hslot ▸ hwriter)

/-- Sound engines with separate cells hold the same for a cell whose formula they share if the
formula has the same value over both grids. -/
theorem Sound.get?_eq_of_eval_eq {formula : Formula} (h : Sound fresh e) (h' : Sound fresh e')
    (hseparate : e.graph.Separate fresh.values.dimensions)
    (hseparate' : e'.graph.Separate fresh.values.dimensions)
    (hformula : e.graph.table[key]? = some formula)
    (hformula' : e'.graph.table[key]? = some formula)
    (heval : formula.eval e.values = formula.eval e'.values) :
    e.values.get? key = e'.values.get? key := by
  have hdim := h.settled.dimensions_eq
  have hdim' := h'.settled.dimensions_eq
  have hvalue : e.graph.compute? e.values key = some (formula.eval e.values) := by
    rw [Graph.compute?, hformula, Option.map_some]
  have hvalue' : e'.graph.compute? e'.values key = some (formula.eval e.values) := by
    rw [Graph.compute?, hformula', Option.map_some, heval]
  by_cases hslot : (fresh.values.dimensions.slot? key).isSome
  · rw [h.get?_eq (hdim ▸ hseparate) hvalue (by rwa [Grid.index?_eq_slot?, hdim]),
      h'.get?_eq (hdim' ▸ hseparate') hvalue' (by rwa [Grid.index?_eq_slot?, hdim'])]
  · have hnone := Option.not_isSome_iff_eq_none.1 hslot
    rw [Grid.get?_eq, Grid.get?_eq, hdim, hdim', hnone, Option.bind_none, Option.bind_none]

/-- Sound engines with separate cells that have the same formulas for a cell and for its precedents
have the same values for them. -/
theorem Sound.get?_congr (h : Sound fresh e) (h' : Sound fresh e')
    (hseparate : e.graph.Separate fresh.values.dimensions)
    (hseparate' : e'.graph.Separate fresh.values.dimensions) (hkey : key ∈ e.graph.table)
    (hformulas : ∀ cell ∈ key :: e.graph.precedents key,
      e.graph.table[cell]? = e'.graph.table[cell]?)
    {cell : String} (hcell : cell ∈ key :: e.graph.precedents key) :
    e.values.get? cell = e'.values.get? cell := by
  have hcoherent := h.faithful.coherent
  -- by induction from what a cell reads to the cell
  induction cell using (hcoherent.wellFounded_reads h.faithful.acyclic).induction with
  | _ cell ih =>
    have hsame := hformulas cell hcell
    cases hformula : e.graph.table[cell]? with
    | none =>
      have hfree : cell ∉ e.graph.table := by
        rw [Std.ExtTreeMap.mem_iff_isSome_getElem?, hformula]
        exact Bool.false_ne_true
      have hfree' : cell ∉ e'.graph.table := by
        rw [Std.ExtTreeMap.mem_iff_isSome_getElem?, ← hsame, hformula]
        exact Bool.false_ne_true
      -- the cell is not the explained one, so a formula that both sheets have names it
      have hprecedent : cell ∈ e.graph.precedents key :=
        (List.mem_cons.1 hcell).resolve_left fun heq => hfree (heq ▸ hkey)
      obtain ⟨reader, hreader, formula, hreads, hnames⟩ :=
        hcoherent.exists_reads_of_mem_precedents hprecedent
      have hreads' : e'.graph.table[reader]? = some formula := hformulas reader hreader ▸ hreads
      rw [h.get?_of_reads hseparate hfree ⟨formula, hreads, hnames⟩,
        h'.get?_of_reads hseparate' hfree' ⟨formula, hreads', hnames⟩]
    | some formula =>
      refine h.get?_eq_of_eval_eq h' hseparate hseparate' hformula (hsame ▸ hformula) ?_
      refine Formula.eval_congr fun source hsource => ?_
      have hread : e.graph.Reads cell source := ⟨formula, hformula, hsource⟩
      exact ih source hread (hcoherent.mem_cons_precedents_of_reads hcell hread)

/-- **The precedents explain a value.** Let two histories of a new engine end with separate cells,
and let them agree on the formula of a cell, or its absence, for a cell with a formula and for all
its precedents. Then the cell has the same precedents after both, and the cell and its precedents
have the same values. -/
theorem values_explained_by_precedents (hnew : Engine.new d = .ok fresh)
    (first second : List Event) (key : String) :
    let e := fresh.after first
    let e' := fresh.after second
    e.graph.Separate d → e'.graph.Separate d → key ∈ e.graph.table →
    e.graph.table[key]? = e'.graph.table[key]? →
    (∀ source ∈ e.graph.precedents key, e.graph.table[source]? = e'.graph.table[source]?) →
    e.graph.precedents key = e'.graph.precedents key ∧
      e.values.get? key = e'.values.get? key ∧
      ∀ source ∈ e.graph.precedents key, e.values.get? source = e'.values.get? source := by
  intro e e' hseparate hseparate' hkey hformula hsources
  have h : Sound fresh e := sound_after hnew first
  have h' : Sound fresh e' := sound_after hnew second
  rw [← (fields_of_new hnew).1] at hseparate hseparate'
  have hformulas : ∀ cell ∈ key :: e.graph.precedents key,
      e.graph.table[cell]? = e'.graph.table[cell]? := List.forall_mem_cons.2 ⟨hformula, hsources⟩
  refine ⟨h.faithful.coherent.precedents_congr h'.faithful.coherent hformulas, ?_⟩
  exact List.forall_mem_cons.1 fun cell => h.get?_congr h' hseparate hseparate' hkey hformulas

/-- Two histories that end with the same number and successor, one of them with a third cell
besides: the successor has the same value after both. -/
theorem successor_explained_by_number :
    let d : Dimensions := ⟨3, 1, by decide, by decide⟩
    let successor : Batch := .ofList [("A1", "1"), ("B1", "A1 + 1")]
    let first : List Event := [.edit successor]
    let other : Batch := .ofList [("C1", "A1")]
    let second : List Event := [.edit other, .publish, .edit successor]
    ∃ fresh, Engine.new d = .ok fresh ∧
      (fresh.after first).graph.Separate d ∧ (fresh.after second).graph.Separate d ∧
      (fresh.after first).graph.table ≠ (fresh.after second).graph.table ∧
      (fresh.after first).graph.precedents "B1" = ["A1"] ∧
      (fresh.after second).graph.precedents "B1" = ["A1"] ∧
      (fresh.after first).values.get? "B1" = (fresh.after second).values.get? "B1" := by
  intro d successor first other second
  obtain ⟨fresh, hnew⟩ := exists_new (d := d) (by decide)
  let rank (key : String) : Nat := if key = "A1" then 0 else 1
  have h : Sound fresh (fresh.after first) := sound_after hnew first
  have h' : Sound fresh (fresh.after second) := sound_after hnew second
  have htexts : (fresh.after first).texts = successor := by
    rw [after_edit, after_nil]
    exact texts_submit_new hnew (by decide +kernel) (Edges.acyclic_of_rank rank (by decide +kernel))
  have htexts' : (fresh.after second).texts = other ∪ successor := by
    have hearlier : (fresh.submit other).texts = other :=
      texts_submit_new hnew (by decide +kernel) (Edges.acyclic_of_rank rank (by decide +kernel))
    -- publishing changes no text
    have hpublished : (fresh.submit other).publish.texts = other := hearlier
    have hsound : Sound fresh (fresh.submit other).publish :=
      ((sound_new hnew).submit other).of_feed _
    rw [after_edit, after_cons, after_edit, after_nil, react,
      hsound.texts_submit (by decide +kernel), hpublished]
    rw [hpublished]
    exact Edges.acyclic_of_rank rank (by decide +kernel)
  have htable := h.table_of_texts htexts
  have htable' := h'.table_of_texts htexts'
  have hseparate : (fresh.after first).graph.Separate d := by
    refine h.separate ?_
    rw [htexts]
    decide +kernel
  have hseparate' : (fresh.after second).graph.Separate d := by
    refine h'.separate ?_
    rw [htexts']
    decide +kernel
  have hprecedents : (fresh.after first).graph.precedents "B1" = ["A1"] := by
    rw [Graph.precedents, h.dependencies_of_texts htexts, Edges.beyond,
      show (Graph.ofFormulas successor).dependencies.targets "B1" = ["A1"] by decide +kernel]
    exact Edges.explore_of_targets_eq_nil (by decide +kernel) (by decide) (by decide +kernel)
  have hkey : "B1" ∈ (fresh.after first).graph.table := by
    rw [htable]
    decide +kernel
  have hformula : (fresh.after first).graph.table["B1"]? =
      (fresh.after second).graph.table["B1"]? := by
    rw [htable, htable']
    decide +kernel
  have hsources : ∀ source ∈ (fresh.after first).graph.precedents "B1",
      (fresh.after first).graph.table[source]? = (fresh.after second).graph.table[source]? := by
    rw [htable, htable', hprecedents]
    decide +kernel
  obtain ⟨hchain, hvalue, -⟩ := values_explained_by_precedents hnew first second "B1" hseparate
    hseparate' hkey hformula hsources
  refine ⟨fresh, hnew, hseparate, hseparate', ?_, hprecedents, hchain ▸ hprecedents, hvalue⟩
  rw [htable, htable']
  intro heq
  -- only the second history has the third cell
  have hthird : "C1" ∈ (Graph.ofFormulas successor).table := heq ▸ (by decide +kernel)
  exact absurd hthird (by decide +kernel)

end Engine

end Spreadsheet
