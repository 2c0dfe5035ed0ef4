import Mathlib.Data.Finset.Range
import Spreadsheet.Proofs.Recalculation.Depth
import Spreadsheet.Proofs.Recalculation.Streaming

/-! # Which cells a stream yields
A stream yields the cells of one layer of its roots after the other: `Edges.layersBelow` lists the
first layers, and any number of items taken have the first so many cells of that list. So in each
layer a cell is yielded once for each route to it, and the stream ends exactly if no cycle is
reached. Then the last layer in which a cell is yielded is its depth in the schedule, and there are
as many layers as the schedule has. -/

namespace Spreadsheet

namespace Edges

variable {edges : Edges} {roots : List String} {key : String} {m n d : Nat}

/-- The keys of the first layers, each with the number of its layer. -/
def layersBelow (edges : Edges) (n : Nat) (roots : List String) : List (Nat × String) :=
  (List.range n).flatMap fun d => (edges.layer d roots).map (d, ·)

theorem layersBelow_succ (edges : Edges) (n : Nat) (roots : List String) :
    edges.layersBelow (n + 1) roots =
      edges.layersBelow n roots ++ (edges.layer n roots).map (n, ·) := by
  simp [layersBelow, List.range_succ, List.flatMap_append]

/-- More layers only add keys at the end. -/
theorem layersBelow_prefix_of_le (edges : Edges) (roots : List String) (h : m ≤ n) :
    edges.layersBelow m roots <+: edges.layersBelow n roots := by
  induction n, h using Nat.le_induction with
  | base => exact List.prefix_rfl
  | succ n _ ih =>
    rw [layersBelow_succ]
    exact ih.trans (List.prefix_append ..)

/-- After an empty layer there are no more keys. -/
theorem layersBelow_eq_of_layer_eq_nil (h : edges.layer m roots = []) (hle : m ≤ n) :
    edges.layersBelow n roots = edges.layersBelow m roots := by
  induction n, hle using Nat.le_induction with
  | base => rfl
  | succ n hle ih =>
    rw [layersBelow_succ, ih, layer_eq_nil_of_le h hle, List.map_nil, List.append_nil]

/-- Before a layer that is not empty each layer has a key. -/
theorem le_length_layersBelow (h : edges.layer n roots ≠ []) :
    n ≤ (edges.layersBelow n roots).length := by
  induction n with
  | zero => exact Nat.zero_le _
  | succ n ih =>
    have hne : edges.layer n roots ≠ [] := fun hnil => h (layer_eq_nil_of_le hnil (Nat.le_succ n))
    have hpos := List.length_pos_iff.2 hne
    have := ih hne
    rw [layersBelow_succ, List.length_append, List.length_map]
    omega

/-- The first keys are in the first layers. -/
theorem take_layersBelow (h : n ≤ m) :
    (edges.layersBelow m roots).take n = (edges.layersBelow n roots).take n := by
  by_cases hnil : edges.layer n roots = []
  · rw [layersBelow_eq_of_layer_eq_nil hnil h]
  · obtain ⟨later, hlater⟩ := edges.layersBelow_prefix_of_le roots h
    rw [← hlater, List.take_append_of_le_length (le_length_layersBelow hnil)]

/-- In the first layers a key has a number once for each time that layer names it. -/
theorem count_layersBelow (edges : Edges) (n : Nat) (roots : List String) (d : Nat)
    (key : String) : (edges.layersBelow n roots).count (d, key) =
      if d < n then (edges.layer d roots).count key else 0 := by
  have hlayer : ∀ n, ((edges.layer n roots).map (n, ·)).count (d, key) =
      if d = n then (edges.layer d roots).count key else 0 := by
    intro n
    by_cases hn : d = n
    · rw [hn, if_pos rfl]
      exact List.count_map_of_injective _ _ (Prod.mk_right_injective n) key
    · rw [if_neg hn, List.count_eq_zero]
      simp [eq_comm (a := n), hn]
  induction n with
  | zero => rfl
  | succ n ih =>
    rw [layersBelow_succ, List.count_append, ih, hlayer]
    rcases Nat.lt_trichotomy d n with hlt | rfl | hgt
    · rw [if_pos hlt, if_neg (by omega), if_pos (by omega), Nat.add_zero]
    · simp
    · rw [if_neg (by omega), if_neg (by omega), if_neg (by omega)]

theorem mem_layersBelow :
    (d, key) ∈ edges.layersBelow n roots ↔ d < n ∧ d ∈ edges.lengthsTo roots key := by
  rw [← mem_layer, ← List.count_pos_iff, count_layersBelow, ← List.count_pos_iff]
  split <;> simp_all

end Edges

namespace Graph

variable {g : Graph} {roots : List String} {s : Schedule} {key : String} {depth d : Nat}

/-- **The depths are the lengths of longest walks.** -/
theorem mem_depths_iff_isGreatest (hs : g.schedule roots = .ok s) :
    (key, depth) ∈ s.depths ↔ IsGreatest (g.dependents.lengthsTo roots key) depth := by
  refine ⟨isGreatest_of_mem_depths hs, fun hgreatest => ?_⟩
  have hreach := Edges.exists_reaches_of_mem_lengthsTo hgreatest.1
  rw [← mem_order hs, ← Schedule.map_fst_depths, List.mem_map] at hreach
  obtain ⟨⟨_, other⟩, hmem, rfl⟩ := hreach
  rwa [hgreatest.unique (isGreatest_of_mem_depths hs hmem)]

/-- The layers of the roots that are not empty are as many as those of a schedule. -/
theorem layer_ne_nil_iff (hs : g.schedule roots = .ok s) :
    g.dependents.layer d roots ≠ [] ↔ d < s.layers.length := by
  constructor
  · intro hne
    obtain ⟨key, hkey⟩ := List.exists_mem_of_ne_nil _ hne
    have hlength := Edges.mem_layer.1 hkey
    have hreach := Edges.exists_reaches_of_mem_lengthsTo hlength
    rw [← mem_order hs, ← Schedule.map_fst_depths, List.mem_map] at hreach
    obtain ⟨⟨_, depth⟩, hdepth, rfl⟩ := hreach
    -- the cell is scheduled no earlier than in this layer
    have hle : d ≤ depth := (isGreatest_of_mem_depths hs hdepth).2 hlength
    obtain ⟨layer, hlayer, -⟩ := Schedule.mem_depths.1 hdepth
    exact Nat.lt_of_le_of_lt hle (List.getElem?_eq_some_iff.1 hlayer).1
  · intro hlt
    have hlayer : s.layers[d]? = some s.layers[d] := List.getElem?_eq_getElem hlt
    obtain ⟨key, hkey⟩ := List.exists_mem_of_ne_nil _
      (Edges.ne_nil_of_mem_layers (layers_of_schedule hs) (List.getElem_mem hlt))
    have hdepth : (key, d) ∈ s.depths := Schedule.mem_depths.2 ⟨_, hlayer, hkey⟩
    exact List.ne_nil_of_mem (Edges.mem_layer.2 (isGreatest_of_mem_depths hs hdepth).1)

end Graph

namespace Propagation

variable {g : Graph} {values : Grid Float32} {roots : List String} {key : String} {n d : Nat}

/-- The layer and the cell of an item. -/
def place (item : Nat × Evaluation) : Nat × String := (item.1, item.2.key)

/-- **How far a stream has come**: it has yielded the cells of the layers before its own and those of
its own layer that do not wait. -/
structure Reached (g : Graph) (roots : List String) (items : List (Nat × Evaluation))
    (p : Propagation) : Prop where
  /-- The graph is the one of the stream. -/
  graph_eq : p.graph = g
  /-- The frontier is a layer of the roots. -/
  frontier_eq : p.frontier = g.dependents.layer p.layer roots
  /-- What has been yielded and what waits are the layers up to this one. -/
  places_eq : items.map place ++ p.waiting.map (p.layer, ·) =
    g.dependents.layersBelow (p.layer + 1) roots

theorem Reached.take (g : Graph) (values : Grid Float32) (roots : List String) (n : Nat) :
    Reached g roots ((start g values roots).take n).1 ((start g values roots).take n).2 := by
  refine take_induction ?_ ?_ [] ⟨rfl, rfl, ?_⟩ n
  · intro items p key rest h hwaiting
    refine ⟨h.graph_eq, h.frontier_eq, ?_⟩
    rw [List.map_append, List.map_singleton, place, fst_visit, Graph.key_evaluate,
      List.append_assoc]
    have hplaces := h.places_eq
    rwa [hwaiting] at hplaces
  · intro items p h hwaiting
    have hnext : p.advance.frontier = g.dependents.layer (p.layer + 1) roots := by
      rw [Edges.layer_succ, ← h.frontier_eq, ← h.graph_eq]
      rfl
    have hplaces := h.places_eq
    rw [hwaiting, List.map_nil, List.append_nil] at hplaces
    refine ⟨h.graph_eq, hnext, ?_⟩
    change _ ++ p.advance.frontier.map (p.layer + 1, ·) =
      g.dependents.layersBelow (p.layer + 1 + 1) roots
    rw [Edges.layersBelow_succ, hnext, hplaces]
  · rw [Edges.layersBelow_succ]
    rfl

/-- **The items taken have the first cells of the layers**, each with the number of its layer. -/
theorem map_place_take (g : Graph) (values : Grid Float32) (roots : List String) (n : Nat) :
    ((start g values roots).take n).1.map place = (g.dependents.layersBelow n roots).take n := by
  have hreached := Reached.take g values roots n
  have hlength := length_take_le (start g values roots) n
  have hends := ended_of_length_take_lt (p := start g values roots) (n := n)
  generalize (start g values roots).take n = result at hreached hlength hends ⊢
  obtain ⟨items, left⟩ := result
  obtain ⟨-, hfrontier, hplaces⟩ := hreached
  dsimp only at hfrontier hplaces hlength hends ⊢
  rw [← Edges.take_layersBelow (Nat.le_max_left n (left.layer + 1))]
  rcases Nat.lt_or_eq_of_le hlength with hlt | heq
  · -- the stream has ended, so no layer is missing
    obtain ⟨hwaiting, hempty⟩ := hends hlt
    rw [hwaiting, List.map_nil, List.append_nil] at hplaces
    rw [hempty] at hfrontier
    have hnil := Edges.layer_eq_nil_of_le hfrontier.symm (Nat.le_succ left.layer)
    rw [Edges.layersBelow_eq_of_layer_eq_nil hnil (Nat.le_max_right n _), ← hplaces,
      List.take_of_length_le (by rwa [List.length_map])]
  · have hfirst : items.map place <+: g.dependents.layersBelow (max n (left.layer + 1)) roots :=
      (hplaces ▸ List.prefix_append ..).trans
        (g.dependents.layersBelow_prefix_of_le roots (Nat.le_max_right n _))
    have htake := List.prefix_iff_eq_take.1 hfirst
    rwa [List.length_map, heq] at htake

/-- A stream yields fewer items than are asked for if the layers have fewer cells. -/
theorem length_take_lt_iff : ((start g values roots).take n).1.length < n ↔
    (g.dependents.layersBelow n roots).length < n := by
  rw [← List.length_map (f := place), map_place_take, List.length_take]
  omega

/-- **A stream ends** exactly if some layer is empty. -/
theorem exists_length_take_lt_iff :
    (∃ n, ((start g values roots).take n).1.length < n) ↔
      ∃ m, g.dependents.layer m roots = [] := by
  simp only [length_take_lt_iff]
  constructor
  · rintro ⟨n, hlt⟩
    refine ⟨n, by_contra fun hne => ?_⟩
    have := Edges.le_length_layersBelow hne
    omega
  · rintro ⟨m, hnil⟩
    refine ⟨max m ((g.dependents.layersBelow m roots).length + 1), ?_⟩
    rw [Edges.layersBelow_eq_of_layer_eq_nil hnil (Nat.le_max_left ..)]
    omega

/-- A stream that has ended has yielded a cell in a layer exactly if a walk of that length leads to
the cell. -/
theorem mem_map_place_take (h : ((start g values roots).take n).1.length < n) :
    (d, key) ∈ ((start g values roots).take n).1.map place ↔
      d ∈ g.dependents.lengthsTo roots key := by
  rw [length_take_lt_iff] at h
  rw [map_place_take, List.take_of_length_le (Nat.le_of_lt h), Edges.mem_layersBelow,
    and_iff_right_iff_imp, ← Edges.mem_layer]
  -- all layers are among the first ones, since those have fewer cells than there are of them
  intro hkey
  by_contra hge
  have hnil : g.dependents.layer n roots = [] := by_contra fun hne => by
    have := Edges.le_length_layersBelow hne
    omega
  rw [Edges.layer_eq_nil_of_le hnil (by omega)] at hkey
  exact List.not_mem_nil hkey

/-- **In a layer a cell is yielded once for each route to it**, if enough items are taken. -/
theorem count_map_place_take (hlayer : d < n)
    (hlength : (g.dependents.layersBelow (d + 1) roots).length ≤ n) :
    (((start g values roots).take n).1.map place).count (d, key) =
      Nat.card (g.dependents.Route d roots key) := by
  obtain ⟨later, hlater⟩ :=
    g.dependents.layersBelow_prefix_of_le roots (show d + 1 ≤ n from hlayer)
  have hall := g.dependents.count_layersBelow n roots d key
  have hfirst := g.dependents.count_layersBelow (d + 1) roots d key
  rw [if_pos hlayer, ← hlater, List.count_append] at hall
  rw [if_pos (Nat.lt_succ_self d)] at hfirst
  -- the later layers do not have this number
  have hnone : later.count (d, key) = 0 := by omega
  have hnone' := (List.take_sublist (n - (g.dependents.layersBelow (d + 1) roots).length)
    later).count_le (d, key)
  rw [map_place_take, ← hlater, List.take_append, List.take_of_length_le hlength,
    List.count_append, hfirst, Edges.count_layer]
  omega

/-! ## Streams that end -/

/-- **A stream that ends is a propagation**: it has yielded all evaluations and left the final
grid. -/
theorem propagate_eq_of_length_take_lt (h : ((start g values roots).take n).1.length < n) :
    g.propagate values roots = some (((start g values roots).take n).1.map (·.2),
      ((start g values roots).take n).2.settled) := by
  obtain ⟨es, final, hpropagate⟩ := Graph.exists_propagate_iff.2
    (Edges.exists_layer_eq_nil_iff.1 (exists_length_take_lt_iff.1 ⟨n, h⟩))
  -- asking for more items than the propagation has changes nothing, since the stream has ended
  obtain ⟨hes, hfinal⟩ := (Graph.propagates_of_finish? hpropagate).take (k := 0)
    (n := n + (es.length + 1)) (by omega)
  change ((start g values roots).take (n + (es.length + 1))).1.map (·.2) = es at hes
  change ((start g values roots).take (n + (es.length + 1))).2.settled = final at hfinal
  rw [take_add, (ended_of_length_take_lt h).take_eq, List.append_nil] at hes
  rw [take_add, (ended_of_length_take_lt h).take_eq] at hfinal
  rw [hpropagate, ← hes, ← hfinal]

/-- The numbers of the layers of a stream that ends are those below the number of layers of the
schedule. -/
theorem mem_map_layer_take {s : Schedule} (hs : g.schedule roots = .ok s)
    (h : ((start g values roots).take n).1.length < n) :
    d ∈ ((start g values roots).take n).1.map (·.1) ↔ d < s.layers.length := by
  rw [← Graph.layer_ne_nil_iff hs]
  constructor
  · intro hmem
    obtain ⟨⟨_, e⟩, hitem, rfl⟩ := List.mem_map.1 hmem
    have hplace := List.mem_map_of_mem (f := place) hitem
    exact List.ne_nil_of_mem (Edges.mem_layer.2 ((mem_map_place_take h).1 hplace))
  · intro hne
    obtain ⟨key, hkey⟩ := List.exists_mem_of_ne_nil _ hne
    obtain ⟨item, hitem, hplace⟩ :=
      List.mem_map.1 ((mem_map_place_take h).2 (Edges.mem_layer.1 hkey))
    exact List.mem_map.2 ⟨item, hitem, congrArg Prod.fst hplace⟩

/-- **What a layered propagation evaluates, and when it ends.** In each layer a cell is yielded once
for each route of that length from the roots to it, if enough items are taken. The stream ends, that
is, yields fewer items than are asked for at some point, exactly if no cycle is reached from the
roots, and the propagation to the end has a result exactly then. If the stream has ended, it has
yielded what the propagation to the end yields and leaves the same grid; there is a schedule, the
last layer in which a cell was yielded is its depth in it, and unless there are no roots the layers
are numbered from 0 to the greatest depth. -/
theorem layers_hold_routes (g : Graph) (values : Grid Float32) (roots : List String) :
    let stream := start g values roots
    let places := fun n => (stream.take n).1.map place
    let freeOfCycles := ∀ key, (∃ root ∈ roots, g.dependents.Reaches root key) →
      ¬ g.dependents.OnCycle key
    (∀ d, ∃ N, ∀ n, N ≤ n → ∀ key,
      (places n).count (d, key) = Nat.card (g.dependents.Route d roots key)) ∧
    ((∃ n, (stream.take n).1.length < n) ↔ freeOfCycles) ∧
    ((∃ es final, g.propagate values roots = some (es, final)) ↔ freeOfCycles) ∧
    ∀ n, (stream.take n).1.length < n →
      g.propagate values roots = some ((stream.take n).1.map (·.2), (stream.take n).2.settled) ∧
      ∃ s, g.schedule roots = .ok s ∧
        (∀ key depth, (key, depth) ∈ s.depths ↔ IsGreatest {d | (d, key) ∈ places n} depth) ∧
        (roots ≠ [] → ((stream.take n).1.map (·.1)).toFinset = Finset.range (s.maxDepth + 1)) := by
  intro stream places freeOfCycles
  refine ⟨fun d => ?_, exists_length_take_lt_iff.trans Edges.exists_layer_eq_nil_iff,
    Graph.exists_propagate_iff, fun n hlt => ⟨propagate_eq_of_length_take_lt hlt, ?_⟩⟩
  · refine ⟨max (d + 1) (g.dependents.layersBelow (d + 1) roots).length, fun n hn key => ?_⟩
    exact count_map_place_take (by omega) (by omega)
  · have hfree : freeOfCycles :=
      Edges.exists_layer_eq_nil_iff.1 (exists_length_take_lt_iff.1 ⟨n, hlt⟩)
    obtain ⟨s, hs⟩ := Graph.exists_schedule_of_forall fun key hkey =>
      hfree key (Edges.mem_reachable.1 hkey)
    refine ⟨s, hs, fun key depth => ?_, fun hroots => ?_⟩
    · have hplaces : {d | (d, key) ∈ places n} = g.dependents.lengthsTo roots key :=
        Set.ext fun d => mem_map_place_take hlt
      rw [hplaces, Graph.mem_depths_iff_isGreatest hs]
    · have hpos : 0 < s.layers.length := (Graph.layer_ne_nil_iff hs).1 hroots
      ext d
      rw [List.mem_toFinset, mem_map_layer_take hs hlt, Finset.mem_range, Schedule.maxDepth,
        Nat.sub_add_cancel hpos]

/-- Where `C1` reads `A1` both itself and through `B1`, it is yielded in two layers, and the second
is its depth. -/
theorem read_twice_yielded_twice :
    let g := Graph.ofFormulas (.ofList [("A1", "1"), ("B1", "A1 + 1"), ("C1", "A1 + B1")])
    let values : Grid Float32 := ⟨⟨3, 1, by decide, by decide⟩, #[0, 0, 0], rfl, by decide⟩
    let stream := start g values ["A1"]
    (stream.take 9).1.map place = [(0, "A1"), (1, "B1"), (1, "C1"), (2, "C1")] ∧
      (stream.take 9).1.length < 9 ∧
      ∃ s, g.schedule ["A1"] = .ok s ∧ ("C1", 2) ∈ s.depths ∧
        ((stream.take 9).1.map (·.1)).toFinset = Finset.range (s.maxDepth + 1) := by
  intro g values stream
  have hplaces : (stream.take 9).1.map place = [(0, "A1"), (1, "B1"), (1, "C1"), (2, "C1")] := by
    decide +kernel
  have hlt : (stream.take 9).1.length < 9 := by
    rw [← List.length_map (f := place), hplaces]
    decide
  obtain ⟨-, -, -, hended⟩ := layers_hold_routes g values ["A1"]
  obtain ⟨-, s, hs, hdepths, hlayers⟩ := hended 9 hlt
  refine ⟨hplaces, hlt, s, hs, (hdepths "C1" 2).2 ?_, hlayers (by decide)⟩
  change IsGreatest {d | (d, "C1") ∈ (stream.take 9).1.map place} 2
  rw [hplaces]
  refine ⟨by decide, fun d hd => ?_⟩
  simp at hd
  omega

end Propagation

end Spreadsheet
