import Spreadsheet.Proofs.Graph.Balance

/-! # Consistent graphs
The check for **consistency** compares the two maps of a graph entry by entry. It holds exactly if
the dependents are the dependencies backwards and no list is empty, so a graph is balanced if it is
consistent and names no reader of a key twice. Balance is all that a merge asks of two graphs, which
need not be graphs of formulas: it keeps it, whichever keys of the batch have formulas. -/

namespace Spreadsheet

namespace Edges

variable {edges : Edges}

/-- Something holds along all edges, and no list is empty, exactly if it holds entry by entry. -/
theorem all_toList_iff {p : String → String → Bool} :
    (edges.toList.all fun (source, targets) => !targets.isEmpty && targets.all (p source)) = true ↔
      edges.NoneEmpty ∧ ∀ source target, edges.Leads source target → p source target = true := by
  simp only [List.all_eq_true, Prod.forall, Std.ExtTreeMap.mem_toList_iff_getElem?_eq_some,
    Bool.and_eq_true, Bool.not_eq_true', List.isEmpty_eq_false_iff]
  constructor
  · intro h
    refine ⟨fun key hkey => (h key [] hkey).1 rfl, fun source target hlead => ?_⟩
    obtain ⟨list, hlist⟩ := KeyMap.mem_iff.1 (mem_of_leads hlead)
    rw [Leads, targets, hlist, Option.getD_some] at hlead
    exact (h source list hlist).2 target hlead
  · rintro ⟨hfilled, hall⟩ source list hlist
    refine ⟨fun hnil => hfilled source (hnil ▸ hlist), fun target htarget => hall source target ?_⟩
    rwa [Leads, targets, hlist, Option.getD_some]

theorem noneRepeated_iff : edges.NoneRepeated ↔ ∀ key ∈ edges.keys, (edges.targets key).Nodup := by
  refine ⟨fun h key _ => h key, fun h key => ?_⟩
  by_cases hkey : key ∈ edges
  · exact h key (Std.ExtTreeMap.mem_keys.2 hkey)
  · rw [targets_of_not_mem hkey]
    exact List.nodup_nil

instance (edges : Edges) : Decidable edges.NoneRepeated :=
  decidable_of_iff _ noneRepeated_iff.symm

end Edges

namespace Graph

variable {g live incoming merged : Graph}

/-- **A graph is consistent** exactly if its maps list each other backwards and have no empty
list. -/
theorem isConsistent_iff : g.isConsistent = true ↔
    g.Transposed ∧ g.dependencies.NoneEmpty ∧ g.dependents.NoneEmpty := by
  have hforward := @Edges.all_toList_iff g.dependencies fun reader source =>
    reader ∈ g.dependents.targets source
  have hbackward := @Edges.all_toList_iff g.dependents fun source reader =>
    source ∈ g.dependencies.targets reader
  rw [isConsistent, Bool.and_eq_true]
  refine (and_congr hforward hbackward).trans ?_
  simp only [decide_eq_true_eq]
  constructor
  · rintro ⟨⟨hdependencies, hforward⟩, hdependents, hbackward⟩
    exact ⟨fun source reader => ⟨hbackward source reader, hforward reader source⟩, hdependencies,
      hdependents⟩
  · rintro ⟨htransposed, hdependencies, hdependents⟩
    exact ⟨⟨hdependencies, fun reader source => (htransposed source reader).2⟩, hdependents,
      fun source reader => (htransposed source reader).1⟩

theorem balanced_iff : g.Balanced ↔ g.isConsistent = true ∧ g.dependents.NoneRepeated := by
  rw [isConsistent_iff]
  constructor
  · exact fun h => ⟨⟨h.leads_iff, h.dependencies_filled, h.dependents_filled⟩, h.readers_once⟩
  · exact fun ⟨⟨htransposed, hdependencies, hdependents⟩, honce⟩ =>
      ⟨htransposed, honce, hdependencies, hdependents⟩

instance (g : Graph) : Decidable g.Balanced := decidable_of_iff _ balanced_iff.symm

/-- The formulas of an overlay are those of the batch and, where it has none, those of the live
graph. -/
theorem getElem?_table_overlay (live incoming : Graph) (key : String) :
    (live.overlay incoming).table[key]? = incoming.table[key]?.or live.table[key]? :=
  Std.ExtTreeMap.getElem?_union

/-- Where the batch has no empty list, an overlay has its entry for a key that it defines. -/
theorem getElem?_dependencies_overlay_of_mem {key : String}
    (hfilled : incoming.dependencies.NoneEmpty) (hkey : key ∈ incoming.defined) :
    (live.overlay incoming).dependencies[key]? = incoming.dependencies[key]? := by
  rw [getElem?_dependencies_overlay, if_pos hkey, hfilled.getElem?_eq]

/-- **Merging balanced graphs.** Let two graphs be given, of formulas or not, whose dependents list
their dependencies backwards, no reader twice, without an empty list. They merge exactly if the
overlaid dependencies are acyclic. The result is balanced again, and so consistent; a key that the
batch has a formula or dependencies for has the dependencies of the batch, if any, and each other
key those it had; the formulas are those of the batch and else those there were. Once the edges of
all these keys are replaced, every key that the batch lists readers for has its list, so copying the
lists that are missing adds nothing. -/
theorem merge_of_balanced (hlive : live.Balanced) (hincoming : incoming.Balanced) :
    ((∃ merged, live.merge incoming = .ok merged) ↔
      (live.overlay incoming).dependencies.Acyclic) ∧
    ∀ merged, live.merge incoming = .ok merged →
      merged.Balanced ∧ merged.isConsistent = true ∧ merged.dependencies.Acyclic ∧
      (∀ key : String, merged.table[key]? = incoming.table[key]?.or live.table[key]?) ∧
      (∀ key : String, key ∈ incoming.table ∨ key ∈ incoming.dependencies →
        merged.dependencies[key]? = incoming.dependencies[key]?) ∧
      (∀ key : String, key ∉ incoming.table → key ∉ incoming.dependencies →
        merged.dependencies[key]? = live.dependencies[key]?) ∧
      merged.dependents = live.relinked incoming ∧
      ∀ key ∈ incoming.dependents, key ∈ live.relinked incoming := by
  refine ⟨?_, fun merged hmerge => ?_⟩
  · simp only [merge_eq_ok_iff, exists_and_left, exists_eq, and_true]
  · obtain ⟨hacyclic, rfl⟩ := merge_eq_ok_iff.1 hmerge
    have hbalanced := hlive.overlay hincoming
    refine ⟨hbalanced, (balanced_iff.1 hbalanced).1, hacyclic,
      getElem?_table_overlay live incoming, fun key hkey => ?_, fun key htable hkey => ?_,
      hlive.dependents_overlay hincoming, fun key hkey => hlive.mem_relinked hincoming hkey⟩
    · exact getElem?_dependencies_overlay_of_mem hincoming.dependencies_filled (mem_defined.2 hkey)
    · rw [getElem?_dependencies_overlay, if_neg fun h => (mem_defined.1 h).elim htable hkey]

/-- A batch that has dependencies but no formula for a cell: the cell keeps its formula, reads what
the batch says, and the key that it no longer reads has no readers left. -/
theorem merge_without_formula :
    let live := Graph.ofFormulas (.ofList [("A1", "1"), ("B1", "A1 + A1"), ("C1", "B1")])
    let incoming : Graph := ⟨∅, .ofList [("B1", ["D1", "D1"])], .ofList [("D1", ["B1"])]⟩
    live.Balanced ∧ incoming.Balanced ∧ ∃ merged, live.merge incoming = .ok merged ∧
      merged.Balanced ∧ merged.table["B1"]? = live.table["B1"]? ∧
      merged.dependencies["B1"]? = some ["D1", "D1"] ∧
      merged.dependents.toList = [("B1", ["C1"]), ("D1", ["B1"])] := by
  intro live incoming
  have hlive : live.Balanced := balanced_ofTable _
  have hincoming : incoming.Balanced := by decide +kernel
  let rank (key : String) : Nat := if key = "D1" then 0 else if key = "B1" then 1 else 2
  obtain ⟨hmerges, hmerged⟩ := merge_of_balanced hlive hincoming
  obtain ⟨merged, hmerge⟩ := hmerges.2 (Edges.acyclic_of_rank rank (by decide +kernel))
  obtain ⟨hbalanced, -, -, htable, hdependencies, -, hdependents, -⟩ := hmerged merged hmerge
  refine ⟨hlive, hincoming, merged, hmerge, hbalanced, ?_, ?_, ?_⟩
  · rw [htable]
    rfl
  · rw [hdependencies "B1" (.inr (by decide +kernel))]
    decide +kernel
  · rw [hdependents]
    decide +kernel

end Graph

end Spreadsheet
