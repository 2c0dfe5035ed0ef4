import Spreadsheet.Proofs.Graph.Links

/-! # Edges in both directions
A graph is **balanced** if its dependents list the dependencies backwards, each reader of a key
once, and if neither map stores an empty list. The graph of a table is balanced, and so is the
overlay of one balanced graph on another: a merge that retires and adds edges key by key ends with
the dependents that its dependencies ask for, and copying lists of readers from the batch adds
nothing. A **coherent** graph moreover has the dependencies of its own formulas; overlays keep
this too. -/

namespace Spreadsheet

namespace Graph

/-- The edges of a graph agree in both directions. -/
structure Balanced (g : Graph) : Prop where
  /-- A cell is a dependent of the keys that it depends on. -/
  leads_iff : ∀ source reader,
    g.dependents.Leads source reader ↔ g.dependencies.Leads reader source
  /-- No reader of a key is listed twice. -/
  readers_once : g.dependents.NoneRepeated
  /-- A cell that reads nothing has no entry. -/
  dependencies_filled : g.dependencies.NoneEmpty
  /-- A key that nobody reads has no entry. -/
  dependents_filled : g.dependents.NoneEmpty

/-! ## Replacing the edges of cells -/

section Relink

variable {dependents dependencies : Edges} {cell reader key : String}
  {cells before after : List String}

theorem noneRepeated_relink (h : dependents.NoneRepeated) (cell : String)
    (before after : List String) : (relink dependents cell before after).NoneRepeated :=
  (h.foldl_unlink _ cell).foldl_link after cell

theorem noneEmpty_relink (h : dependents.NoneEmpty) (cell : String) (before after : List String) :
    (relink dependents cell before after).NoneEmpty :=
  (h.foldl_unlink _ cell).foldl_link after cell

/-- Replacing the edges of a cell adds it where it reads now and removes it where it read before,
and leaves all other readers alone. -/
theorem mem_targets_relink (h : dependents.NoneRepeated) :
    reader ∈ (relink dependents cell before after).targets key ↔
      if reader = cell then key ∈ after ∨ (cell ∈ dependents.targets key ∧ key ∉ before)
      else reader ∈ dependents.targets key := by
  rw [relink, Edges.mem_targets_foldl_link, h.mem_targets_foldl_unlink, List.mem_filter]
  split <;> grind

variable {old new : String → List String}

theorem noneRepeated_foldl_relink (h : dependents.NoneRepeated) (cells : List String)
    (old new : String → List String) :
    (cells.foldl (fun e cell => relink e cell (old cell) (new cell)) dependents).NoneRepeated :=
  List.foldlRecOn cells _ h fun _ h cell _ => noneRepeated_relink h cell (old cell) (new cell)

theorem noneEmpty_foldl_relink (h : dependents.NoneEmpty) (cells : List String)
    (old new : String → List String) :
    (cells.foldl (fun e cell => relink e cell (old cell) (new cell)) dependents).NoneEmpty :=
  List.foldlRecOn cells _ h fun _ h cell _ => noneEmpty_relink h cell (old cell) (new cell)

/-- Replacing the edges of several cells makes exactly these cells read what they read now,
provided that whatever lists them before is among what they read before or now. -/
theorem mem_targets_foldl_relink (h : dependents.NoneRepeated)
    (hold : ∀ cell ∈ cells, ∀ key,
      cell ∈ dependents.targets key → key ∈ old cell ∨ key ∈ new cell) :
    reader ∈
        (cells.foldl (fun e cell => relink e cell (old cell) (new cell)) dependents).targets key ↔
      if reader ∈ cells then key ∈ new reader else reader ∈ dependents.targets key := by
  induction cells generalizing dependents with
  | nil => rw [List.foldl_nil, if_neg List.not_mem_nil]
  | cons cell cells ih =>
    -- the first cell now reads what it should, so it may come up again among the others
    have hstep : ∀ other ∈ cells, ∀ key,
        other ∈ (relink dependents cell (old cell) (new cell)).targets key →
          key ∈ old other ∨ key ∈ new other := by
      intro other hother key hread
      rw [mem_targets_relink h] at hread
      have := hold other (List.mem_cons_of_mem cell hother) key
      grind
    rw [List.foldl_cons, ih (noneRepeated_relink h cell (old cell) (new cell)) hstep,
      mem_targets_relink h]
    have := hold cell List.mem_cons_self key
    grind

/-- Replacing the edges of a cell by the same ones changes nothing where it is listed. -/
theorem relink_self (h : ∀ source ∈ after, cell ∈ dependents.targets source) :
    relink dependents cell after after = dependents := by
  have hretired : after.filter (· ∉ after) = [] :=
    List.filter_eq_nil_iff.2 fun source hsource => by simpa using hsource
  rw [relink, hretired, List.foldl_nil]
  exact Edges.foldl_link_of_mem h

/-- Replacing the edges of several cells by the same ones changes nothing where they are listed. -/
theorem foldl_relink_self
    (h : ∀ cell ∈ cells, old cell = new cell ∧
      ∀ source ∈ new cell, cell ∈ dependents.targets source) :
    cells.foldl (fun e cell => relink e cell (old cell) (new cell)) dependents = dependents := by
  induction cells with
  | nil => rfl
  | cons cell cells ih =>
    obtain ⟨heq, hlisted⟩ := h cell List.mem_cons_self
    rw [List.foldl_cons, heq, relink_self hlisted]
    exact ih fun other hother => h other (List.mem_cons_of_mem cell hother)

/-- Replacing the edges of a cell leaves the other readers as they are listed. -/
theorem filter_targets_relink {keep : String → Bool} (h : keep cell = false) :
    ((relink dependents cell before after).targets key).filter keep =
      (dependents.targets key).filter keep := by
  rw [relink, Edges.filter_targets_foldl_link h, Edges.filter_targets_foldl_unlink h]

/-- Replacing the edges of several cells leaves the other readers as they are listed. -/
theorem filter_targets_foldl_relink {keep : String → Bool}
    (h : ∀ cell ∈ cells, keep cell = false) :
    ((cells.foldl (fun e cell => relink e cell (old cell) (new cell)) dependents).targets
      key).filter keep = (dependents.targets key).filter keep := by
  induction cells generalizing dependents with
  | nil => rfl
  | cons cell cells ih =>
    rw [List.foldl_cons, ih fun other hother => h other (List.mem_cons_of_mem cell hother),
      filter_targets_relink (h cell List.mem_cons_self)]

theorem getElem?_redirect (dependencies : Edges) (cell : String) (after : List String)
    (key : String) :
    (redirect dependencies cell after)[key]? =
      if key = cell then (if after.isEmpty then none else some after) else dependencies[key]? := by
  unfold redirect
  by_cases hkey : key = cell
  · subst hkey
    by_cases hafter : after.isEmpty <;> simp [hafter]
  · have hkey' : ¬ cell = key := fun h => hkey h.symm
    by_cases hafter : after.isEmpty <;>
      simp [hafter, hkey, hkey', Std.ExtTreeMap.getElem?_insert, Std.ExtTreeMap.getElem?_erase]

/-- Replacing the dependencies of several cells gives these cells their new ones. -/
theorem getElem?_foldl_redirect (dependencies : Edges) (cells : List String)
    (new : String → List String) (key : String) :
    (cells.foldl (fun e cell => redirect e cell (new cell)) dependencies)[key]? =
      if key ∈ cells then (if (new key).isEmpty then none else some (new key))
      else dependencies[key]? := by
  induction cells generalizing dependencies with
  | nil => rw [List.foldl_nil, if_neg List.not_mem_nil]
  | cons cell cells ih =>
    rw [List.foldl_cons, ih, getElem?_redirect]
    grind

end Relink

/-! ## Overlays -/

section Overlay

variable {live incoming : Graph} {key reader source : String}

/-- A merge succeeds exactly if the overlay is acyclic, and gives the overlay. -/
theorem merge_eq_ok_iff {merged : Graph} : live.merge incoming = .ok merged ↔
    (live.overlay incoming).dependencies.Acyclic ∧ merged = live.overlay incoming := by
  rw [merge, ← checkAcyclic_eq_ok_iff]
  cases (live.overlay incoming).checkAcyclic <;> simp [Except.map, eq_comm]

/-- A batch defines the keys with a formula and the keys with dependencies. -/
theorem mem_defined :
    key ∈ incoming.defined ↔ key ∈ incoming.table ∨ key ∈ incoming.dependencies := by
  simp [defined, Std.ExtTreeSet.mem_toList, Std.ExtTreeSet.mem_ofList]

/-- The dependents of the live graph after the edges of each key of the batch were replaced. -/
def relinked (live incoming : Graph) : Edges :=
  incoming.defined.foldl (fun e cell =>
    relink e cell (live.dependencies.targets cell) (incoming.dependencies.targets cell))
    live.dependents

/-- The dependencies of an overlay are those of the batch for the keys it defines. -/
theorem getElem?_dependencies_overlay (live incoming : Graph) (key : String) :
    (live.overlay incoming).dependencies[key]? =
      if key ∈ incoming.defined then
        if (incoming.dependencies.targets key).isEmpty then none
        else some (incoming.dependencies.targets key)
      else live.dependencies[key]? :=
  getElem?_foldl_redirect live.dependencies incoming.defined incoming.dependencies.targets key

theorem targets_dependencies_overlay (live incoming : Graph) (key : String) :
    (live.overlay incoming).dependencies.targets key =
      if key ∈ incoming.defined then incoming.dependencies.targets key
      else live.dependencies.targets key := by
  rw [Edges.targets, getElem?_dependencies_overlay]
  split
  · exact Edges.getD_ite_isEmpty (incoming.dependencies.targets key)
  · rfl

/-- The replaced edges are the overlaid dependencies backwards. -/
theorem Balanced.leads_relinked (hlive : live.Balanced) :
    (live.relinked incoming).Leads source reader ↔
      (live.overlay incoming).dependencies.Leads reader source := by
  rw [Edges.Leads, Edges.Leads, relinked, mem_targets_foldl_relink hlive.readers_once,
    targets_dependencies_overlay]
  · split
    · rfl
    · exact hlive.leads_iff source reader
  · -- a cell that is listed as a reader of a key depends on it, so the old edges cover it
    exact fun cell _ key hread => .inl ((hlive.leads_iff key cell).1 hread)

/-- A key that the batch lists readers for is read by a key that the batch defines. -/
theorem Balanced.mem_relinked (hlive : live.Balanced) (hincoming : incoming.Balanced)
    (hkey : key ∈ incoming.dependents) : key ∈ live.relinked incoming := by
  obtain ⟨reader, hread⟩ := hincoming.dependents_filled.mem_iff.1 hkey
  have hdep := (hincoming.leads_iff key reader).1 hread
  have hlead : (live.relinked incoming).Leads key reader := by
    rw [hlive.leads_relinked, Edges.Leads, targets_dependencies_overlay,
      if_pos (mem_defined.2 (.inr (Edges.mem_of_leads hdep)))]
    exact hdep
  exact Edges.mem_of_leads hlead

/-- Copying the lists of readers of the batch adds nothing: each such list is there already. -/
theorem Balanced.dependents_overlay (hlive : live.Balanced) (hincoming : incoming.Balanced) :
    (live.overlay incoming).dependents = live.relinked incoming := by
  refine Std.ExtTreeMap.ext_getElem? fun key => ?_
  change (incoming.dependents ∪ live.relinked incoming)[key]? = _
  rw [Std.ExtTreeMap.getElem?_union]
  by_cases hkey : key ∈ live.relinked incoming
  · obtain ⟨readers, hreaders⟩ := KeyMap.mem_iff.1 hkey
    rw [hreaders, Option.some_or]
  · rw [Std.ExtTreeMap.getElem?_eq_none hkey, Option.none_or,
      Std.ExtTreeMap.getElem?_eq_none fun h => hkey (hlive.mem_relinked hincoming h)]

/-- An overlay leaves the readers that the batch does not define as they are listed. -/
theorem Balanced.filter_targets_overlay {keep : String → Bool} (hlive : live.Balanced)
    (hincoming : incoming.Balanced) (h : ∀ cell ∈ incoming.defined, keep cell = false)
    (key : String) :
    ((live.overlay incoming).dependents.targets key).filter keep =
      (live.dependents.targets key).filter keep := by
  rw [hlive.dependents_overlay hincoming]
  exact filter_targets_foldl_relink h

/-- **Overlays are balanced** if both graphs are. -/
theorem Balanced.overlay (hlive : live.Balanced) (hincoming : incoming.Balanced) :
    (live.overlay incoming).Balanced where
  leads_iff source reader := by
    rw [hlive.dependents_overlay hincoming]
    exact hlive.leads_relinked
  readers_once := by
    rw [hlive.dependents_overlay hincoming]
    exact noneRepeated_foldl_relink hlive.readers_once incoming.defined _ _
  dependencies_filled key := by
    rw [getElem?_dependencies_overlay]
    split
    · exact Edges.ite_isEmpty_ne_some_nil (incoming.dependencies.targets key)
    · exact hlive.dependencies_filled key
  dependents_filled := by
    rw [hlive.dependents_overlay hincoming]
    exact noneEmpty_foldl_relink hlive.dependents_filled incoming.defined _ _

end Overlay

/-! ## The graph of a table -/

section Table

variable {table : KeyMap Formula} {key reader source : String}

/-- The formula of a cell names a key. -/
def Reads (g : Graph) (reader source : String) : Prop :=
  ∃ formula, g.table[reader]? = some formula ∧ source ∈ formula.references

theorem getElem?_dependenciesOf (table : KeyMap Formula) (key : String) :
    (dependenciesOf table)[key]? =
      table[key]?.bind fun formula =>
        if formula.references.isEmpty then none else some formula.references :=
  Std.ExtTreeMap.getElem?_filterMap'

/-- The dependencies of a cell are the keys that its formula names. -/
theorem targets_dependenciesOf (table : KeyMap Formula) (key : String) :
    (dependenciesOf table).targets key = (table[key]?.map Formula.references).getD [] := by
  rw [Edges.targets, getElem?_dependenciesOf]
  cases table[key]? with
  | none => rfl
  | some formula =>
    rw [Option.bind_some, Option.map_some, Option.getD_some]
    exact Edges.getD_ite_isEmpty formula.references

theorem noneEmpty_dependenciesOf (table : KeyMap Formula) : (dependenciesOf table).NoneEmpty := by
  intro key
  rw [getElem?_dependenciesOf]
  intro hnil
  obtain ⟨formula, -, hformula⟩ := Option.bind_eq_some_iff.1 hnil
  exact Edges.ite_isEmpty_ne_some_nil formula.references hformula

theorem dependentsOf_eq_foldl (table : KeyMap Formula) :
    dependentsOf table = table.toList.foldl (fun e pair =>
      pair.2.references.foldl (fun e source => e.link source pair.1) e) ∅ :=
  Std.ExtTreeMap.foldl_eq_foldl_toList

/-- The readers that the formulas of different cells add to those of a key, in the order of the
cells. -/
theorem targets_foldl_readers {pairs : List (String × Formula)} {edges : Edges}
    (hdistinct : (pairs.map (·.1)).Nodup) (hnew : ∀ pair ∈ pairs, pair.1 ∉ edges.targets key) :
    (pairs.foldl (fun e pair =>
        pair.2.references.foldl (fun e source => e.link source pair.1) e) edges).targets key =
      edges.targets key ++ (pairs.filter fun pair => key ∈ pair.2.references).map (·.1) := by
  induction pairs generalizing edges with
  | nil => exact (List.append_nil _).symm
  | cons pair pairs ih =>
    obtain ⟨hhead, htail⟩ := List.nodup_cons.1 hdistinct
    have hfirst := hnew pair List.mem_cons_self
    have hlater := fun other hother => hnew other (List.mem_cons_of_mem pair hother)
    rw [List.foldl_cons, ih htail, Edges.targets_foldl_link]
    · by_cases hreads : key ∈ pair.2.references
      · rw [if_pos ⟨hreads, hfirst⟩, List.filter_cons_of_pos (by simpa using hreads),
          List.map_cons, List.append_assoc, List.singleton_append]
      · rw [if_neg fun h => hreads h.1, List.filter_cons_of_neg (by simpa using hreads)]
    · -- the cell is none of those after it, so these are not listed yet
      intro other hother
      rw [Edges.mem_targets_foldl_link]
      rintro (hread | ⟨-, heq⟩)
      · exact hlater other hother hread
      · exact hhead (List.mem_map.2 ⟨other, hother, heq⟩)

/-- **The dependents of a key are the cells whose formulas name it**, in the order of the table. -/
theorem targets_dependentsOf (table : KeyMap Formula) (source : String) :
    (dependentsOf table).targets source =
      (table.toList.filter fun pair => source ∈ pair.2.references).map (·.1) := by
  rw [dependentsOf_eq_foldl, targets_foldl_readers (KeyMap.nodup_map_fst_toList table)] <;>
    simp [Edges.targets]

theorem mem_targets_dependentsOf :
    reader ∈ (dependentsOf table).targets source ↔
      ∃ formula, table[reader]? = some formula ∧ source ∈ formula.references := by
  simp [targets_dependentsOf, Std.ExtTreeMap.mem_toList_iff_getElem?_eq_some]

/-- The graph of a table is balanced. -/
theorem balanced_ofTable (table : KeyMap Formula) : (ofTable table).Balanced where
  leads_iff source reader := by
    change reader ∈ (dependentsOf table).targets source ↔
      source ∈ (dependenciesOf table).targets reader
    rw [mem_targets_dependentsOf, targets_dependenciesOf]
    cases table[reader]? <;> simp
  readers_once key := by
    change ((dependentsOf table).targets key).Nodup
    rw [targets_dependentsOf]
    exact (KeyMap.nodup_map_fst_toList table).sublist (List.filter_sublist.map _)
  dependencies_filled := noneEmpty_dependenciesOf table
  dependents_filled := by
    change (dependentsOf table).NoneEmpty
    rw [dependentsOf_eq_foldl]
    refine List.foldlRecOn _ _ (fun key => by simp) fun e h pair _ => ?_
    exact h.foldl_link pair.2.references pair.1

end Table

/-! ## Coherence -/

/-- The edges of a graph are those of its formulas. -/
structure Coherent (g : Graph) : Prop extends g.Balanced where
  /-- The dependencies of a cell are the keys that its formula names. -/
  dependencies_eq : g.dependencies = dependenciesOf g.table

section Coherent

variable {g live incoming : Graph} {key reader source : String}

theorem coherent_ofTable (table : KeyMap Formula) : (ofTable table).Coherent :=
  { balanced_ofTable table with dependencies_eq := rfl }

theorem coherent_ofFormulas (formulas : KeyMap String) : (ofFormulas formulas).Coherent :=
  coherent_ofTable _

/-- The formula of a key is read off its text. -/
theorem getElem?_table_ofFormulas (texts : KeyMap String) (key : String) :
    (ofFormulas texts).table[key]? = texts[key]?.map Formula.parse :=
  Std.ExtTreeMap.getElem?_map

/-- The keys of texts are those that have a formula. -/
theorem mem_table_ofFormulas {texts : KeyMap String} :
    key ∈ (ofFormulas texts).table ↔ key ∈ texts :=
  Std.ExtTreeMap.mem_map

/-- The graph of a sheet without formulas is the graph of the empty table. -/
theorem empty_eq_ofTable : Graph.empty = ofTable ∅ := by
  have hdependencies : dependenciesOf ∅ = ∅ :=
    Std.ExtTreeMap.ext_getElem? fun key => by simp [getElem?_dependenciesOf]
  have hdependents : dependentsOf ∅ = ∅ := by
    rw [dependentsOf_eq_foldl, Std.ExtTreeMap.toList_eq_nil_iff.2 rfl, List.foldl_nil]
  rw [ofTable, hdependencies, hdependents, empty]

theorem coherent_empty : Graph.empty.Coherent := empty_eq_ofTable ▸ coherent_ofTable ∅

/-- In a coherent graph a cell depends on the keys that its formula names. -/
theorem Coherent.leads_dependencies_iff (h : g.Coherent) :
    g.dependencies.Leads reader source ↔ g.Reads reader source := by
  rw [Edges.Leads, h.dependencies_eq, targets_dependenciesOf, Reads]
  cases g.table[reader]? <;> simp

/-- In a coherent graph the dependents of a key are the cells whose formulas name it. -/
theorem Coherent.leads_dependents_iff (h : g.Coherent) :
    g.dependents.Leads source reader ↔ g.Reads reader source :=
  (h.leads_iff source reader).trans h.leads_dependencies_iff

/-- A key that a batch of formulas does not define has no formula there. -/
theorem Coherent.mem_defined (h : incoming.Coherent) :
    key ∈ incoming.defined ↔ key ∈ incoming.table := by
  refine Graph.mem_defined.trans ⟨fun hkey => ?_, .inl⟩
  refine hkey.elim id fun hkey => ?_
  obtain ⟨source, hread⟩ := h.dependencies_filled.mem_iff.1 hkey
  obtain ⟨formula, hformula, -⟩ := h.leads_dependencies_iff.1 hread
  exact KeyMap.mem_iff.2 ⟨formula, hformula⟩

/-- **Overlays are coherent** if both graphs are. -/
theorem Coherent.overlay (hlive : live.Coherent) (hincoming : incoming.Coherent) :
    (live.overlay incoming).Coherent where
  toBalanced := hlive.toBalanced.overlay hincoming.toBalanced
  dependencies_eq := by
    refine Std.ExtTreeMap.ext_getElem? fun key => ?_
    change _ = (dependenciesOf (live.table ∪ incoming.table))[key]?
    rw [getElem?_dependencies_overlay, getElem?_dependenciesOf, Std.ExtTreeMap.getElem?_union,
      hincoming.dependencies_eq, hlive.dependencies_eq, targets_dependenciesOf]
    by_cases hkey : key ∈ incoming.table
    · obtain ⟨formula, hformula⟩ := KeyMap.mem_iff.1 hkey
      rw [if_pos (hincoming.mem_defined.2 hkey), hformula]
      rfl
    · rw [if_neg (hincoming.mem_defined.not.2 hkey), Std.ExtTreeMap.getElem?_eq_none hkey,
        Option.none_or, getElem?_dependenciesOf]

/-- **Formulas that are there already overlay to the same graph**, readers in the same order. -/
theorem Coherent.overlay_eq_self (hlive : live.Coherent) (hincoming : incoming.Coherent)
    (h : ∀ key ∈ incoming.table, live.table[key]? = incoming.table[key]?) :
    live.overlay incoming = live := by
  have htable : live.table ∪ incoming.table = live.table := by
    refine Std.ExtTreeMap.ext_getElem? fun key => ?_
    rw [Std.ExtTreeMap.getElem?_union]
    by_cases hkey : key ∈ incoming.table
    · rw [← h key hkey, Option.or_self]
    · rw [Std.ExtTreeMap.getElem?_eq_none hkey, Option.none_or]
  have hdependencies : (live.overlay incoming).dependencies = live.dependencies := by
    rw [(hlive.overlay hincoming).dependencies_eq, hlive.dependencies_eq]
    exact congrArg dependenciesOf htable
  have hdependents : (live.overlay incoming).dependents = live.dependents := by
    rw [hlive.toBalanced.dependents_overlay hincoming.toBalanced, relinked]
    refine foldl_relink_self fun cell hcell => ?_
    -- a cell of the batch reads what it reads in the graph, so it is listed there
    have heq : live.dependencies.targets cell = incoming.dependencies.targets cell := by
      rw [hlive.dependencies_eq, hincoming.dependencies_eq, targets_dependenciesOf,
        targets_dependenciesOf, h cell (hincoming.mem_defined.1 hcell)]
    refine ⟨heq, fun source hsource => ?_⟩
    rw [← heq] at hsource
    exact (hlive.leads_iff source cell).2 hsource
  obtain ⟨table, dependencies, dependents⟩ := live
  exact Graph.mk.injEq .. |>.mpr ⟨htable, hdependencies, hdependents⟩

end Coherent

end Graph

end Spreadsheet
