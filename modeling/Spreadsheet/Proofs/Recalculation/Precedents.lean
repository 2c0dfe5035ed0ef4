import Spreadsheet.Proofs.Graph.Distances
import Spreadsheet.Proofs.Recalculation.Order

/-! # Precedents and affected cells
The **precedents** of a cell are the other keys that its dependencies lead to, nearest first, and a
change affects what the dependents lead to. Where the two maps list each other backwards these are
two sides of one relation: a cell is affected by a change of another one exactly if it has that one
among its precedents. -/

namespace Spreadsheet

namespace Graph

variable {g : Graph} {s : Schedule} {key source : String}

/-- Another cell is scheduled for a change of a key exactly if it rests on the key. -/
theorem Transposed.mem_order_iff (h : g.Transposed) (hs : g.schedule [source] = .ok s)
    (hne : source ≠ key) :
    key ∈ s.order ↔ Relation.TransGen g.dependencies.Leads key source := by
  rw [mem_order hs, ← Edges.transGen_of_transposed h]
  simp only [List.mem_singleton, exists_eq_left]
  rw [Edges.Reaches, Relation.reflTransGen_iff_eq_or_transGen, or_iff_right hne.symm]

/-- **The precedents of a cell** are the keys other than the cell that it reads in one step or in
more, each listed once and nearest first, on cycles too. Where dependents are the dependencies
backwards and a change of one key has a schedule, the other keys that are scheduled are exactly
those that have the key among their precedents. -/
theorem precedents_nearest_first (g : Graph) :
    (∀ key, (∀ source, source ∈ g.precedents key ↔
        source ≠ key ∧ ∃ n, g.dependencies.Walk (n + 1) key source) ∧
      (g.precedents key).Nodup ∧
      (g.precedents key).Pairwise fun nearer farther =>
        g.dependencies.distance [key] nearer ≤ g.dependencies.distance [key] farther) ∧
    (g.Transposed → ∀ source s, g.schedule [source] = .ok s → ∀ key, source ≠ key →
      (source ∈ g.precedents key ↔ key ∈ s.order)) := by
  refine ⟨fun key => ⟨fun source => ?_, Edges.nodup_explore _ _ _,
    g.dependencies.pairwise_beyond key⟩, fun htransposed source s hs key hne => ?_⟩
  · rw [precedents, Edges.mem_beyond, Edges.transGen_iff_exists_walk]
  · rw [precedents, Edges.mem_beyond, htransposed.mem_order_iff hs hne]
    exact and_iff_right hne

/-- A cell that reads a number and one of two cells that read each other: its precedents are the
number and both of them, and it is scheduled for a change of the number. -/
theorem precedents_on_circle :
    let g := Graph.ofFormulas
      (.ofList [("A1", "B1"), ("B1", "A1"), ("C1", "B1 + D1"), ("D1", "1")])
    g.precedents "C1" = ["B1", "D1", "A1"] ∧ g.Transposed ∧
      ∃ s, g.schedule ["D1"] = .ok s ∧ "D1" ≠ "C1" ∧ "C1" ∈ s.order := by
  intro g
  have htransposed : g.Transposed := (coherent_ofFormulas _).leads_iff
  have hchain : g.precedents "C1" = ["B1", "D1", "A1"] := by
    have ha : g.dependencies.targets "A1" = ["B1"] := by decide +kernel
    have hb : g.dependencies.targets "B1" = ["A1"] := by decide +kernel
    have hc : g.dependencies.targets "C1" = ["B1", "D1"] := by decide +kernel
    have hd : g.dependencies.targets "D1" = [] := by decide +kernel
    simp [precedents, Edges.beyond, Edges.explore, ha, hb, hc, hd, Std.ExtTreeSet.mem_insert]
  have hschedule : g.schedule ["D1"] = .ok ⟨[["D1"], ["C1"]]⟩ := by
    have hc : g.dependents.targets "C1" = [] := by decide +kernel
    have hd : g.dependents.targets "D1" = ["C1"] := by decide +kernel
    have hreachable : g.dependents.reachable ["D1"] = ["D1", "C1"] := by
      simp [Edges.reachable, Edges.explore, hc, hd, Std.ExtTreeSet.mem_insert]
    have hlayers : g.dependents.layers? ["D1", "C1"] = some [["D1"], ["C1"]] := by
      simp [Edges.layers?, Edges.ready, Edges.blocked, Edges.fed, hc, hd]
    rw [schedule, hreachable, hlayers]
  have hne : "D1" ≠ "C1" := by decide
  have hdual := (precedents_nearest_first g).2 htransposed "D1" _ hschedule "C1" hne
  refine ⟨hchain, htransposed, _, hschedule, hne, hdual.1 ?_⟩
  rw [hchain]
  decide

end Graph

end Spreadsheet
