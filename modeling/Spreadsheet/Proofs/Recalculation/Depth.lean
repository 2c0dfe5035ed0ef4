import Spreadsheet.Proofs.Graph.Walks
import Spreadsheet.Proofs.Recalculation.Order

/-! # Depths
The **depth** of a cell in a schedule is the number of layers before its own. Taking off the ready
keys of a closed list shortens the longest walk to each key that is left by its first step, so the
depth of a cell is the length of the longest walk to it from a root. Such a walk exists unless a
cycle is reached, and then there are no layers. Within a layer the cells keep the order in which
they were discovered. -/

namespace Spreadsheet

namespace Edges

variable {edges : Edges} {keys layer : List String} {layers : List (List String)} {key : String}
  {n depth : Nat}

/-! ## Longest walks -/

/-- What is blocked in a closed list leads only to what is blocked. -/
theorem Closed.blocked (hclosed : edges.Closed keys) : edges.Closed (edges.blocked keys) := by
  intro source hsource target hlead
  obtain ⟨hkeys, -⟩ := mem_blocked.1 hsource
  exact mem_blocked.2 ⟨hclosed source hkeys target hlead, source, hkeys, hlead⟩

/-- **A walk is one step longer** than one that starts where its first step ends, at a key that is
blocked. -/
theorem Closed.succ_mem_lengthsTo (hclosed : edges.Closed keys) :
    n + 1 ∈ edges.lengthsTo keys key ↔ n ∈ edges.lengthsTo (edges.blocked keys) key := by
  constructor
  · rintro ⟨source, hsource, hwalk⟩
    cases hwalk with
    | @cons _ _ next _ hlead hrest =>
      have hnext := mem_blocked.2 ⟨hclosed source hsource next hlead, source, hsource, hlead⟩
      exact ⟨next, hnext, hrest⟩
  · rintro ⟨next, hnext, hwalk⟩
    obtain ⟨-, source, hsource, hlead⟩ := mem_blocked.1 hnext
    exact ⟨source, hsource, .cons hlead hwalk⟩

/-- The longest walk to a ready key has no step. -/
theorem Closed.isGreatest_of_mem_ready (hclosed : edges.Closed keys)
    (hkey : key ∈ edges.ready keys) : IsGreatest (edges.lengthsTo keys key) 0 := by
  obtain ⟨hmem, hfree⟩ := mem_ready.1 hkey
  refine ⟨⟨key, hmem, .nil key⟩, ?_⟩
  rintro (_ | n) hn
  · exact Nat.le_refl 0
  · -- a walk with a step ends at a blocked key
    obtain ⟨next, hnext, hwalk⟩ := hclosed.succ_mem_lengthsTo.1 hn
    have hreach := reaches_iff_exists_walk.2 ⟨n, hwalk⟩
    obtain ⟨-, source, hsource, hlead⟩ := mem_blocked.1 (hclosed.blocked.mem_of_reaches hnext hreach)
    exact absurd hlead (hfree source hsource)

/-- **The keys of a layer** end longest walks of as many steps as there are layers before. -/
theorem Closed.isGreatest_of_mem_layer (hclosed : edges.Closed keys)
    (h : edges.layers? keys = some layers) (hlayer : layers[depth]? = some layer)
    (hkey : key ∈ layer) : IsGreatest (edges.lengthsTo keys key) depth := by
  fun_induction layers? edges keys generalizing layers depth with
  | case1 =>
    obtain rfl := Option.some.inj h
    simp at hlayer
  | case2 => cases h
  | case3 keys hempty hready ih =>
    obtain ⟨rest, hrest, rfl⟩ := Option.map_eq_some_iff.1 h
    cases depth with
    | zero =>
      obtain rfl := Option.some.inj hlayer
      exact hclosed.isGreatest_of_mem_ready hkey
    | succ depth =>
      obtain ⟨hmem, hgreatest⟩ := ih hclosed.blocked hrest hlayer
      refine ⟨hclosed.succ_mem_lengthsTo.2 hmem, ?_⟩
      rintro (_ | n) hn
      · exact Nat.zero_le _
      · exact Nat.succ_le_succ (hgreatest (hclosed.succ_mem_lengthsTo.1 hn))

/-! ## Layers -/

/-- Each layer is what some test leaves of the list, so it keeps the order of the list. -/
theorem exists_filter_of_mem_layers (h : edges.layers? keys = some layers)
    (hlayer : layer ∈ layers) : ∃ p : String → Bool, layer = keys.filter p := by
  fun_induction layers? edges keys generalizing layers with
  | case1 =>
    obtain rfl := Option.some.inj h
    exact absurd hlayer List.not_mem_nil
  | case2 => cases h
  | case3 keys hempty hready ih =>
    obtain ⟨rest, hrest, rfl⟩ := Option.map_eq_some_iff.1 h
    rcases List.mem_cons.1 hlayer with rfl | hlayer
    · exact ⟨_, rfl⟩
    · obtain ⟨p, rfl⟩ := ih hrest hlayer
      exact ⟨_, List.filter_filter⟩

/-- No layer is empty. -/
theorem ne_nil_of_mem_layers (h : edges.layers? keys = some layers) (hlayer : layer ∈ layers) :
    layer ≠ [] := by
  fun_induction layers? edges keys generalizing layers with
  | case1 =>
    obtain rfl := Option.some.inj h
    exact absurd hlayer List.not_mem_nil
  | case2 => cases h
  | case3 keys hempty hready ih =>
    obtain ⟨rest, hrest, rfl⟩ := Option.map_eq_some_iff.1 h
    rcases List.mem_cons.1 hlayer with rfl | hlayer
    · exact fun hnil => hready (List.isEmpty_iff.2 hnil)
    · exact ih hrest hlayer

/-- **A closed list has layers** exactly when none of its keys is on a cycle. -/
theorem Closed.exists_layers_iff (hclosed : edges.Closed keys) :
    (∃ layers, edges.layers? keys = some layers) ↔ ∀ key ∈ keys, ¬ edges.OnCycle key := by
  refine ⟨?_, exists_layers⟩
  rintro ⟨layers, hlayers⟩ key hkey hcycle
  obtain ⟨layer, hlayer, hmem⟩ := List.mem_flatten.1
    ((flatten_layers? hlayers).1.mem_iff.2 hkey)
  obtain ⟨depth, hdepth⟩ := List.mem_iff_getElem?.1 hlayer
  exact hcycle.not_isGreatest (hclosed.isGreatest_of_mem_layer hlayers hdepth hmem)

end Edges

/-! ## The depths of a schedule -/

namespace Schedule

variable {s : Schedule} {layers : List (List String)} {key : String} {depth n : Nat}

theorem mem_depths :
    (key, depth) ∈ s.depths ↔ ∃ layer, s.layers[depth]? = some layer ∧ key ∈ layer := by
  simp [depths, List.mem_zipIdx_iff_getElem?]

/-- Depths are listed in the order of evaluation. -/
theorem map_fst_depths (s : Schedule) : s.depths.map (·.1) = s.order := by
  have hlayer : ∀ (layer : List String) (n : Nat), (layer.map (·, n)).map (·.1) = layer := by
    intro layer n
    simp [Function.comp_def]
  simp only [depths, order, List.map_flatMap, hlayer]
  rw [List.flatMap_def, List.zipIdx_map_fst]

/-- Depths never drop in the order of evaluation. -/
theorem pairwise_depths (s : Schedule) :
    s.depths.Pairwise fun earlier later => earlier.2 ≤ later.2 := by
  rw [depths, List.pairwise_flatMap]
  constructor
  · intro layer _
    exact List.pairwise_map.2 (List.pairwise_of_forall fun _ _ => Nat.le_refl _)
  · have hlt : (s.layers.zipIdx.map (·.2)).Pairwise (· < ·) := by
      rw [List.zipIdx_map_snd]
      exact List.pairwise_lt_range'
    refine (List.pairwise_map.1 hlt).imp fun h => ?_
    simp only [List.mem_map]
    rintro _ ⟨_, -, rfl⟩ _ ⟨_, -, rfl⟩
    exact Nat.le_of_lt h

/-- Where layers are counted from a number on, the cells of one depth are those of one layer. -/
theorem map_fst_filter_zipIdx (layers : List (List String)) (n depth : Nat) :
    (((layers.zipIdx n).flatMap fun (layer, depth) => layer.map (·, depth)).filter
      (·.2 = depth)).map (·.1) = if n ≤ depth then layers[depth - n]?.getD [] else [] := by
  induction layers generalizing n with
  | nil => simp
  | cons layer rest ih =>
    have hlayer : ((layer.map (·, n)).filter (·.2 = depth)).map (·.1) =
        if n = depth then layer else [] := by
      by_cases hn : n = depth <;> simp [hn, List.filter_map, Function.comp_def]
    rw [List.zipIdx_cons, List.flatMap_cons, List.filter_append, List.map_append, ih, hlayer]
    rcases Nat.lt_trichotomy n depth with hlt | rfl | hgt
    · obtain ⟨k, rfl⟩ := Nat.exists_eq_add_of_lt hlt
      have hindex : n + k + 1 - n = k + 1 := by omega
      have hrest : n + k + 1 - (n + 1) = k := by omega
      rw [if_neg (by omega), if_pos (by omega), if_pos (by omega), hindex, hrest]
      rfl
    · simp
    · rw [if_neg (by omega), if_neg (by omega), if_neg (by omega)]
      rfl

/-- The cells of one depth are those of one layer. -/
theorem map_fst_filter_depths (s : Schedule) (depth : Nat) :
    (s.depths.filter (·.2 = depth)).map (·.1) = s.layers[depth]?.getD [] := by
  have h := map_fst_filter_zipIdx s.layers 0 depth
  rwa [if_pos (Nat.zero_le depth)] at h

/-- Where no layer is empty, the number of the last one is the greatest depth. -/
theorem maxDepth_eq (h : ∀ layer ∈ s.layers, layer ≠ []) :
    s.maxDepth = ((s.depths.map (·.2)).max?).getD 0 := by
  have hbound : ∀ depth ∈ s.depths.map (·.2), depth < s.layers.length := by
    simp only [List.mem_map, Prod.exists]
    rintro _ ⟨key, depth, hdepth, rfl⟩
    obtain ⟨layer, hlayer, -⟩ := mem_depths.1 hdepth
    exact (List.getElem?_eq_some_iff.1 hlayer).1
  rcases Nat.eq_zero_or_pos s.layers.length with hnil | hpos
  · have hdepths : s.depths.map (·.2) = [] :=
      List.eq_nil_iff_forall_not_mem.2 fun depth hdepth => by
        have := hbound depth hdepth
        omega
    rw [hdepths, maxDepth, hnil]
    rfl
  · -- the last layer has a cell, and no cell is in a later one
    have hlast : s.layers[s.layers.length - 1]? = some (s.layers[s.layers.length - 1]) :=
      List.getElem?_eq_getElem (by omega)
    obtain ⟨key, hkey⟩ := List.exists_mem_of_ne_nil _ (h _ (List.mem_of_getElem? hlast))
    have hmax : (s.depths.map (·.2)).max? = some s.maxDepth := by
      refine List.max?_eq_some_iff.2 ⟨?_, fun depth hdepth => ?_⟩
      · exact List.mem_map.2 ⟨(key, s.maxDepth), mem_depths.2 ⟨_, hlast, hkey⟩, rfl⟩
      · have := hbound depth hdepth
        rw [maxDepth]
        omega
    rw [hmax, Option.getD_some]

end Schedule

namespace Graph

variable {g : Graph} {roots : List String} {s : Schedule} {key : String} {depth : Nat}

/-- The layers of a schedule are those of the affected cells. -/
theorem layers_of_schedule (h : g.schedule roots = .ok s) :
    g.dependents.layers? (g.dependents.reachable roots) = some s.layers := by
  unfold schedule at h
  dsimp only at h
  split at h
  · rename_i layers hlayers
    obtain rfl := Except.ok.inj h
    exact hlayers
  · exact nomatch h

/-- **The depth of a cell** is the length of the longest walk to it from a root. -/
theorem isGreatest_of_mem_depths (h : g.schedule roots = .ok s) (hkey : (key, depth) ∈ s.depths) :
    IsGreatest (g.dependents.lengthsTo roots key) depth := by
  obtain ⟨layer, hlayer, hmem⟩ := Schedule.mem_depths.1 hkey
  exact Edges.isGreatest_lengthsTo_of_reachable
    ((Edges.closed_reachable _ roots).isGreatest_of_mem_layer (layers_of_schedule h) hlayer hmem)

/-- The cells of one depth are what some test leaves of the affected cells, as these were
discovered. -/
theorem exists_filter_of_depth (h : g.schedule roots = .ok s) (depth : Nat) :
    ∃ p : String → Bool, (s.depths.filter (·.2 = depth)).map (·.1) =
      (g.dependents.reachable roots).filter p := by
  rw [Schedule.map_fst_filter_depths]
  cases hlayer : s.layers[depth]? with
  | none => exact ⟨fun _ => false, by simp⟩
  | some layer =>
    exact Edges.exists_filter_of_mem_layers (layers_of_schedule h) (List.mem_of_getElem? hlayer)

/-- Where there is a schedule, no cycle is reached. -/
theorem not_onCycle_of_schedule (h : g.schedule roots = .ok s) :
    ∀ key ∈ g.dependents.reachable roots, ¬ g.dependents.OnCycle key :=
  (Edges.closed_reachable _ roots).exists_layers_iff.1 ⟨s.layers, layers_of_schedule h⟩

end Graph

end Spreadsheet
