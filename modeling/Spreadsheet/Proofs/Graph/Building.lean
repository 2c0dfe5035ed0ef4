import Spreadsheet.Proofs.Formula.Names
import Spreadsheet.Proofs.Graph.Consistency
import Spreadsheet.Proofs.Text.ByteOrder

/-! # Building graphs from texts
The edges of a table make up one list, cell by cell in the order of the table and for each cell in
the order in which its formula names keys. **Recording** them one after the other in two maps that
are empty at first gives the dependencies and the dependents of the table. So the dependencies of a
cell are the keys that its text names, and since cells are met in ascending order, the readers of a
key ascend. -/

namespace Spreadsheet

namespace KeyMap

variable {α β : Type}

/-- Of the entries of a map, only that of a key is one for the key. -/
theorem flatMap_toList_ite (m : KeyMap α) (key : String) (f : α → List β) :
    (m.toList.flatMap fun pair => if pair.1 = key then f pair.2 else []) =
      (m[key]?.map f).getD [] := by
  have hnil : ∀ pairs : List (String × α), key ∉ pairs.map (·.1) →
      (pairs.flatMap fun pair => if pair.1 = key then f pair.2 else []) = [] := fun pairs hkey =>
    List.flatMap_eq_nil_iff.2 fun pair hpair =>
      if_neg fun h => hkey (List.mem_map.2 ⟨pair, hpair, h⟩)
  cases hlookup : m[key]? with
  | none =>
    refine hnil m.toList fun hkey => ?_
    rw [Std.ExtTreeMap.map_fst_toList_eq_keys, Std.ExtTreeMap.mem_keys] at hkey
    obtain ⟨a, ha⟩ := mem_iff.1 hkey
    exact nomatch hlookup.symm.trans ha
  | some a =>
    -- the keys before and after the entry are other ones
    obtain ⟨before, after, hsplit⟩ :=
      List.append_of_mem (Std.ExtTreeMap.mem_toList_iff_getElem?_eq_some.2 hlookup)
    have hnodup := nodup_map_fst_toList m
    rw [hsplit, List.map_append, List.map_cons, List.nodup_append, List.nodup_cons] at hnodup
    obtain ⟨-, ⟨hafter, -⟩, hbefore⟩ := hnodup
    rw [hsplit, List.flatMap_append, List.flatMap_cons, if_pos rfl, hnil after hafter,
      hnil before fun h => hbefore key h key List.mem_cons_self rfl, List.append_nil,
      List.nil_append]
    rfl

end KeyMap

namespace Edges

variable {edges : Edges} {source reader key : String} {pairs : List (String × String)}

/-- Lists a key behind those that a cell reads, whether or not it is among them. -/
def push (edges : Edges) (source reader : String) : Edges :=
  edges.insert reader (edges.targets reader ++ [source])

theorem targets_push (edges : Edges) (source reader key : String) :
    (edges.push source reader).targets key =
      edges.targets key ++ if reader = key then [source] else [] := by
  rw [push, targets, Std.ExtTreeMap.getElem?_insert]
  by_cases h : reader = key
  · subst h
    simp
  · simp [h, targets]

theorem NoneEmpty.push (h : edges.NoneEmpty) (source reader : String) :
    (edges.push source reader).NoneEmpty := by
  intro key
  rw [Edges.push, Std.ExtTreeMap.getElem?_insert]
  split
  · simp
  · exact h key

/-- A cell reads the keys that are listed for it, in their order. -/
theorem targets_foldl_push :
    (pairs.foldl (fun e pair => e.push pair.1 pair.2) edges).targets key =
      edges.targets key ++ (pairs.filter (·.2 = key)).map (·.1) := by
  induction pairs generalizing edges with
  | nil => exact (List.append_nil _).symm
  | cons pair pairs ih =>
    rw [List.foldl_cons, ih, targets_push, List.append_assoc, List.filter_cons]
    by_cases h : pair.2 = key <;> simp [h]

end Edges

namespace Graph

/-- The edges of a table one by one: the keys that the formulas name, each with the cell that
reads it. -/
def edgesOf (table : KeyMap Formula) : List (String × String) :=
  table.toList.flatMap fun (reader, formula) =>
    formula.references.map fun source => (source, reader)

/-- Adds an edge to the dependencies, which repeat it, and to the dependents, which do not. -/
def record (maps : Edges × Edges) : String × String → Edges × Edges
  | (source, reader) => (maps.1.push source reader, maps.2.link source reader)

/-- The edges of a cell are those of its formula. -/
theorem filter_edgesOf (table : KeyMap Formula) (key : String) :
    ((edgesOf table).filter (·.2 = key)).map (·.1) = (dependenciesOf table).targets key := by
  rw [targets_dependenciesOf, ← KeyMap.flatMap_toList_ite, edgesOf, List.filter_flatMap,
    List.map_flatMap]
  refine congrArg (List.flatMap · table.toList) (funext fun pair => ?_)
  by_cases h : pair.1 = key <;> simp [h, List.filter_map, Function.comp_def]

/-- Each of the two maps is filled as if there was no other one. -/
theorem foldl_record (pairs : List (String × String)) (maps : Edges × Edges) :
    pairs.foldl record maps = (pairs.foldl (fun e pair => e.push pair.1 pair.2) maps.1,
      pairs.foldl (fun e pair => e.link pair.1 pair.2) maps.2) := by
  induction pairs generalizing maps with
  | nil => rfl
  | cons pair pairs ih => exact ih (record maps pair)

/-- **Recording all edges of a table** gives its dependencies and its dependents. -/
theorem foldl_record_edgesOf (table : KeyMap Formula) :
    (edgesOf table).foldl record (∅, ∅) = (dependenciesOf table, dependentsOf table) := by
  rw [foldl_record]
  -- the dependencies agree list by list, the dependents are linked in the same order
  refine congrArg₂ Prod.mk
    (Edges.NoneEmpty.ext ?_ (noneEmpty_dependenciesOf table) fun key => ?_) ?_
  · exact List.foldlRecOn _ _ (fun key => by simp) fun _ h pair _ => h.push pair.1 pair.2
  · rw [Edges.targets_foldl_push, filter_edgesOf]
    simp [Edges.targets]
  · rw [edgesOf, List.foldl_flatMap, dependentsOf_eq_foldl]
    simp only [List.foldl_map]

/-- The readers of a key ascend. -/
theorem ascending_targets_dependentsOf (table : KeyMap Formula) (source : String) :
    ((dependentsOf table).targets source).Pairwise (· < ·) := by
  rw [targets_dependentsOf]
  refine (KeyMap.ascending_keys table).sublist ?_
  rw [← Std.ExtTreeMap.map_fst_toList_eq_keys]
  exact List.filter_sublist.map _

/-- **Graphs built from texts.** Whatever texts are given for keys, the graph has formulas for
exactly these keys, each read off its text. A cell depends on the cell keys among the operands of
its text, without the blanks around them, from left to right and as often as they stand there;
without any, and without a text, it has no entry. The dependents of a key, whether or not it has a
text itself, are all cells whose formulas refer to it, each once and in ascending order of the bytes
of their keys; without any, the key has no entry. Both maps are what one pass over the edges
records, and the graph is consistent. -/
theorem built_from_texts (formulas : KeyMap String) :
    let g := ofFormulas formulas
    (∀ key : String, g.table[key]? = formulas[key]?.map Formula.parse) ∧
    (∀ key text : String, formulas[key]? = some text →
      ∃ first more, Formula.Gaps text.toList first more ∧
        (Formula.parse text).references = Formula.namedKeys first more ∧
        g.dependencies[key]? =
          if (Formula.namedKeys first more).isEmpty then none
          else some (Formula.namedKeys first more)) ∧
    (∀ key : String, key ∉ formulas → g.dependencies[key]? = none) ∧
    (∀ source : String, ∃ readers : List String,
      readers.Pairwise (fun key other => Text.bytes key < Text.bytes other) ∧
      (∀ reader, reader ∈ readers ↔
        ∃ text, formulas[reader]? = some text ∧ source ∈ (Formula.parse text).references) ∧
      g.dependents[source]? = if readers.isEmpty then none else some readers) ∧
    (edgesOf g.table).foldl record (∅, ∅) = (g.dependencies, g.dependents) ∧
    g.isConsistent = true := by
  intro g
  have hbalanced : g.Balanced := balanced_ofTable _
  have hdependencies : ∀ key : String, g.dependencies[key]? =
      (formulas[key]?.map Formula.parse).bind fun formula =>
        if formula.references.isEmpty then none else some formula.references := fun key => by
    rw [← getElem?_table_ofFormulas]
    exact getElem?_dependenciesOf _ key
  refine ⟨getElem?_table_ofFormulas formulas, fun key text htext => ?_, fun key hkey => ?_,
    fun source => ?_, foldl_record_edgesOf g.table, (balanced_iff.1 hbalanced).1⟩
  · have hgaps := Formula.gaps_cut text.toList
    refine ⟨_, _, hgaps, hgaps.references_parse, ?_⟩
    rw [hdependencies, htext, Option.map_some, Option.bind_some, hgaps.references_parse]
  · rw [hdependencies, Std.ExtTreeMap.getElem?_eq_none hkey]
    rfl
  · refine ⟨g.dependents.targets source, ?_, fun reader => ?_,
      hbalanced.dependents_filled.getElem?_eq source⟩
    · exact (ascending_targets_dependentsOf g.table source).imp Text.bytes_lt_bytes_iff.2
    · rw [show g.dependents = dependentsOf g.table from rfl, mem_targets_dependentsOf,
        getElem?_table_ofFormulas]
      simp

/-- Texts that name a key twice and a key without a text, and a cell that reads itself. -/
theorem built_from_three_texts :
    let formulas : KeyMap String := .ofList [("B1", "A1 + A1"), ("C3", "C3"), ("A2", " A1 *x- C3")]
    let g := ofFormulas formulas
    formulas["B1"]? = some "A1 + A1" ∧ g.dependencies["B1"]? = some ["A1", "A1"] ∧
      "A1" ∉ formulas ∧ g.dependencies["A1"]? = none ∧
      g.dependents["A1"]? = some ["A2", "B1"] ∧ g.dependents["C3"]? = some ["A2", "C3"] := by
  intro formulas g
  have htext : formulas["B1"]? = some "A1 + A1" := by decide +kernel
  have hnone : "A1" ∉ formulas := by decide +kernel
  obtain ⟨-, hdependencies, hfree, -, -, -⟩ := built_from_texts formulas
  obtain ⟨first, more, -, hnamed, hlist⟩ := hdependencies "B1" _ htext
  refine ⟨htext, ?_, hnone, hfree "A1" hnone, by decide +kernel, by decide +kernel⟩
  rw [hlist, ← hnamed]
  decide +kernel

end Graph

end Spreadsheet
