import Spreadsheet.Proofs.Graph.Components
import Spreadsheet.Proofs.Recalculation.Depth

/-! # Changes without a schedule
A change has no schedule exactly when a cycle is reached from its roots. The cycle members of the
affected cells, taken by themselves, are those of the whole graph that are affected, since what is
affected is closed under the dependents. So a graph that is accepted has a schedule for every
change, and if everything that reads something is a root, checking the graph and scheduling the
change refuse the same cells. -/

namespace Spreadsheet

namespace Graph

variable {g : Graph} {roots : List String} {key : String} {cause : SheetError}

/-- **There is no schedule** exactly if an affected cell is on a cycle, and then the error names
these cells. -/
theorem schedule_eq_error_iff : g.schedule roots = .error cause ↔
    (∃ key ∈ g.dependents.reachable roots, g.dependents.OnCycle key) ∧
      cause = .cycle (g.dependents.within (g.dependents.reachable roots)).cycleMembers := by
  have hclosed := Edges.closed_reachable g.dependents roots
  rw [Edges.cycleMembers_within hclosed]
  unfold schedule
  dsimp only
  split
  · rename_i layers hlayers
    have hfree := hclosed.exists_layers_iff.1 ⟨layers, hlayers⟩
    refine iff_of_false nofun ?_
    rintro ⟨⟨key, hkey, hcycle⟩, -⟩
    exact hfree key hkey hcycle
  · rename_i hnone
    have hreached : ∃ key ∈ g.dependents.reachable roots, g.dependents.OnCycle key := by
      by_contra hfree
      push Not at hfree
      obtain ⟨layers, hlayers⟩ := Edges.exists_layers hfree
      exact nomatch hnone.symm.trans hlayers
    simp [hreached, eq_comm]

/-- The cycle members are the same in both directions. -/
theorem Transposed.cycleMembers_eq (h : g.Transposed) :
    g.dependents.cycleMembers = g.dependencies.cycleMembers :=
  Edges.cycleMembers_congr fun _ => h.onCycle_iff

/-- A cell on a cycle reads something, so it is affected if all cells that do are roots. -/
theorem Transposed.mem_reachable_of_onCycle (h : g.Transposed)
    (hroots : ∀ key source, g.dependencies.Leads key source → key ∈ roots)
    (hcycle : g.dependents.OnCycle key) : key ∈ g.dependents.reachable roots := by
  obtain ⟨source, hread, -⟩ := Relation.TransGen.head'_iff.1 (h.onCycle_iff.1 hcycle)
  exact Edges.mem_reachable.2 ⟨key, hroots key source hread, .refl⟩

/-- Where all cells that read something are roots, both checks refuse for the same cells. -/
theorem Transposed.schedule_eq_error_iff (h : g.Transposed)
    (hroots : ∀ key source, g.dependencies.Leads key source → key ∈ roots) :
    g.schedule roots = .error cause ↔ g.checkAcyclic = .error cause := by
  have hclosed := Edges.closed_reachable g.dependents roots
  have hreached : (∃ key ∈ g.dependents.reachable roots, g.dependents.OnCycle key) ↔
      ¬ g.dependencies.Acyclic := by
    rw [Edges.Acyclic, not_forall]
    refine exists_congr fun key => ?_
    rw [not_not, ← h.onCycle_iff]
    exact and_iff_right_of_imp (h.mem_reachable_of_onCycle hroots)
  have hcells : (g.dependents.within (g.dependents.reachable roots)).cycleMembers =
      g.dependencies.cycleMembers := by
    rw [Edges.cycleMembers_within hclosed, ← h.cycleMembers_eq]
    refine List.filter_eq_self.2 fun key hkey => decide_eq_true ?_
    exact h.mem_reachable_of_onCycle hroots (Edges.mem_cycleMembers.1 hkey)
  rw [Graph.schedule_eq_error_iff, checkAcyclic_eq_error_iff, hreached, hcells]

/-- **Scheduling refuses exactly the cycles that are reached.** In a graph whose maps list each
other backwards a change is refused if and only if a cell on a cycle is reached from a root along
dependents, and then the error names all cells on cycles that are so reached, and no others, in
ascending order; they are also those that are read off the strong components of the affected cells.
So a graph that is accepted has a schedule for any roots, and if every cell that reads something is
a root, the change is refused with the error that the graph is refused with. -/
theorem schedule_refused_for_reached_cycles (htransposed : g.Transposed) (roots : List String) :
    ((∃ cause, g.schedule roots = .error cause) ↔
      ∃ key, g.dependencies.OnCycle key ∧ ∃ root ∈ roots, g.dependents.Reaches root key) ∧
    (∀ cause, g.schedule roots = .error cause → ∃ cells, cause = .cycle cells ∧
      cells.Pairwise (· < ·) ∧
      (∀ key, key ∈ cells ↔
        g.dependencies.OnCycle key ∧ ∃ root ∈ roots, g.dependents.Reaches root key) ∧
      ∀ components,
        (g.dependents.within (g.dependents.reachable roots)).StrongComponents components →
        cells = (g.dependents.within (g.dependents.reachable roots)).membersOf components) ∧
    (g.checkAcyclic = .ok () → ∃ s, g.schedule roots = .ok s) ∧
    ((∀ key source, g.dependencies.Leads key source → key ∈ roots) →
      ((∃ s, g.schedule roots = .ok s) ↔ g.checkAcyclic = .ok ()) ∧
        ∀ cause, g.schedule roots = .error cause ↔ g.checkAcyclic = .error cause) := by
  have hreached : ∀ key, key ∈ g.dependents.reachable roots ∧ g.dependents.OnCycle key ↔
      g.dependencies.OnCycle key ∧ ∃ root ∈ roots, g.dependents.Reaches root key := by
    intro key
    rw [Edges.mem_reachable, htransposed.onCycle_iff, and_comm]
  have haccepted : g.checkAcyclic = .ok () → ∃ s, g.schedule roots = .ok s := by
    intro haccepted
    refine exists_schedule_of_forall fun key _ hcycle => ?_
    exact checkAcyclic_eq_ok_iff.1 haccepted key (htransposed.onCycle_iff.1 hcycle)
  refine ⟨?_, fun cause hcause => ?_, haccepted, fun hroots =>
    ⟨⟨?_, haccepted⟩, fun cause => htransposed.schedule_eq_error_iff hroots⟩⟩
  · simp [schedule_eq_error_iff, hreached]
  · obtain ⟨-, rfl⟩ := schedule_eq_error_iff.1 hcause
    refine ⟨_, rfl, Edges.ascending_cycleMembers _, fun key => ?_,
      fun components hcomponents => hcomponents.membersOf_eq.symm⟩
    rw [Edges.mem_cycleMembers, Edges.onCycle_within (Edges.closed_reachable _ roots), and_comm,
      hreached]
  · rintro ⟨s, hs⟩
    cases hcheck : g.checkAcyclic with
    | ok => rfl
    | error cause => exact nomatch hs.symm.trans ((htransposed.schedule_eq_error_iff hroots).2 hcheck)

/-- A change of a cell that only reads a circle has a schedule, and a change of a cell on it is
refused for the cells of the circle, but not for a cell elsewhere that reads itself. -/
theorem reached_circle_refused :
    let g := Graph.ofFormulas
      (.ofList [("A1", "B1"), ("B1", "A1"), ("C1", "A1"), ("D1", "D1")])
    g.Transposed ∧ (∃ s, g.schedule ["C1"] = .ok s) ∧
      g.schedule ["C1", "B1"] = .error (.cycle ["A1", "B1"]) := by
  intro g
  have htransposed : g.Transposed := (coherent_ofFormulas _).leads_iff
  let level (key : String) : Nat :=
    if key = "C1" then 2 else if key = "D1" then 1 else 0
  have hcomponents : g.dependencies.StrongComponents [["C1"], ["A1", "B1"], ["D1"]] :=
    Edges.strongComponents_of_level level (by decide) (by decide +kernel) (by decide +kernel)
      (by decide +kernel) (by decide +kernel)
  have hcyclic : ([["C1"], ["A1", "B1"], ["D1"]].filter g.dependencies.isCyclic).flatten =
      ["A1", "B1", "D1"] := by decide +kernel
  have hcycle : ∀ key, g.dependencies.OnCycle key ↔ key ∈ ["A1", "B1", "D1"] := by
    intro key
    rw [← hcomponents.mem_membersOf, Edges.membersOf, hcyclic, List.mem_mergeSort]
  obtain ⟨hone, -⟩ := schedule_refused_for_reached_cycles htransposed ["C1"]
  obtain ⟨hrefused, hcells, -⟩ := schedule_refused_for_reached_cycles htransposed ["C1", "B1"]
  refine ⟨htransposed, ?_, ?_⟩
  · cases hschedule : g.schedule ["C1"] with
    | ok s => exact ⟨s, rfl⟩
    | error cause =>
      obtain ⟨key, hkey, root, hroot, hreach⟩ := hone.1 ⟨cause, hschedule⟩
      have hclosed : g.dependents.Closed ["C1"] := by decide +kernel
      have hmem := hclosed.mem_of_reaches hroot hreach
      obtain rfl := List.mem_singleton.1 hmem
      exact absurd ((hcycle "C1").1 hkey) (by decide)
  · obtain ⟨cause, hcause⟩ := hrefused.2
      ⟨"B1", (hcycle "B1").2 (by decide), "B1", by decide, .refl⟩
    obtain ⟨cells, rfl, hascending, hmem, -⟩ := hcells cause hcause
    have heq : cells = ["A1", "B1"] := by
      refine eq_of_ascending hascending (by decide) fun key => ?_
      rw [hmem, hcycle]
      constructor
      · -- the cells that are reached do not lead to the one that reads itself
        rintro ⟨hkey, root, hroot, hreach⟩
        have hclosed : g.dependents.Closed ["C1", "B1", "A1"] := by decide +kernel
        have hin : key ∈ ["C1", "B1", "A1"] :=
          hclosed.mem_of_reaches (List.mem_append_left ["A1"] hroot) hreach
        revert hkey hin
        simp only [List.mem_cons, List.not_mem_nil, or_false]
        rintro (rfl | rfl | rfl) hin <;> simp_all
      · intro hkey
        have hnear : ∀ key ∈ ["A1", "B1"], "B1" = key ∨ g.dependents.Leads "B1" key := by
          decide +kernel
        refine ⟨List.mem_append_left ["D1"] hkey, "B1", by decide, ?_⟩
        rcases hnear key hkey with rfl | hlead
        · exact .refl
        · exact .single hlead
    rw [hcause, heq]

end Graph

end Spreadsheet
