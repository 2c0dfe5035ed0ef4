import Spreadsheet.Proofs.Graph.Routes
import Spreadsheet.Proofs.Recalculation.Settling
import Spreadsheet.Recalculation.Propagation

/-! # Propagation layer by layer
Over one **layer** all cells of the frontier are evaluated over one state of the grid, and then
their writes are made. `Propagates` says that a propagation runs to its end through such layers. It
does unless a cycle is reached, since the layers come to an end then, and the stream of single
evaluations, taken past its end, yields the same evaluations and leaves the same grid. -/

namespace Spreadsheet

/-! ## Writes in a row -/

namespace Grid

variable {α : Type} {writes : List (Nat × α)} {i : Nat} {a : α}

/-- The grid after writes to flat indices, one after another. -/
def setAll (g : Grid α) (writes : List (Nat × α)) : Grid α :=
  writes.foldl (fun g (i, a) => g.setIndex i a) g

theorem setAll_cons (g : Grid α) (i : Nat) (a : α) (writes : List (Nat × α)) :
    g.setAll ((i, a) :: writes) = (g.setIndex i a).setAll writes := rfl

theorem setAll_append (g : Grid α) (writes others : List (Nat × α)) :
    g.setAll (writes ++ others) = (g.setAll writes).setAll others :=
  List.foldl_append

theorem dimensions_setAll (g : Grid α) (writes : List (Nat × α)) :
    (g.setAll writes).dimensions = g.dimensions := by
  induction writes generalizing g with
  | nil => rfl
  | cons write writes ih => rw [setAll_cons, ih, dimensions_setIndex]

/-- An entry that is not written is kept. -/
theorem cells_setAll_of_forall_ne {g : Grid α} (h : ∀ write ∈ writes, write.1 ≠ i) :
    (g.setAll writes).cells[i]? = g.cells[i]? := by
  induction writes generalizing g with
  | nil => rfl
  | cons write writes ih =>
    rw [setAll_cons, ih fun other hother => h other (List.mem_cons_of_mem write hother),
      cells_setIndex, if_neg (h write List.mem_cons_self)]

/-- An entry that is only written with one value holds that value. -/
theorem cells_setAll_of_mem {g : Grid α} (hi : i < g.cells.size) (hmem : (i, a) ∈ writes)
    (h : ∀ b, (i, b) ∈ writes → b = a) : (g.setAll writes).cells[i]? = some a := by
  induction writes generalizing g with
  | nil => exact absurd hmem List.not_mem_nil
  | cons write writes ih =>
    obtain ⟨j, b⟩ := write
    have hrest : ∀ b, (i, b) ∈ writes → b = a := fun b hb => h b (List.mem_cons_of_mem _ hb)
    have hsize : i < (g.setIndex j b).cells.size := by
      rwa [size_eq, dimensions_setIndex, ← size_eq]
    rw [setAll_cons]
    -- the last write to the entry decides, and all writes to it agree
    by_cases hlater : (i, a) ∈ writes
    · exact ih hsize hlater hrest
    · obtain ⟨rfl, rfl⟩ := Prod.mk.inj ((List.mem_cons.1 hmem).resolve_right hlater)
      rw [cells_setAll_of_forall_ne, cells_setIndex, if_pos rfl, if_pos hi]
      rintro ⟨j, c⟩ hc rfl
      exact hlater (hrest c hc ▸ hc)

end Grid

namespace Propagation

variable {p : Propagation} {key : String} {keys : List String}

/-! ## One layer -/

/-- The start of a layer: no cell of the frontier is evaluated yet. -/
def layerStart (g : Graph) (values : Grid Float32) (frontier : List String) (layer : Nat) :
    Propagation :=
  ⟨g, values, frontier, frontier, [], layer⟩

theorem key_evaluateFrozen (p : Propagation) (key : String) :
    (p.evaluateFrozen key).1.key = key := by
  unfold evaluateFrozen
  split
  · rfl
  · split <;> rfl

theorem value_evaluateFrozen (p : Propagation) (key : String) :
    (p.evaluateFrozen key).1.value =
      (p.graph.compute? p.values key).getD (Graph.held p.values key) := by
  unfold evaluateFrozen
  split
  · rename_i hnone
    rw [hnone, Option.getD_none]
  · rename_i value hvalue
    rw [hvalue, Option.getD_some]
    split <;> rfl

/-- The pending write of a cell is that of its narrowed value into its slot. -/
theorem write_evaluateFrozen_eq_some {i : Nat} {v : Float32} :
    (p.evaluateFrozen key).2 = some (i, v) ↔ p.values.dimensions.slot? key = some i ∧
      ∃ value, p.graph.compute? p.values key = some value ∧ narrow value = v := by
  rw [← Grid.index?_eq_slot?]
  unfold evaluateFrozen
  split
  · rename_i hnone
    simp [hnone]
  · rename_i value hvalue
    split
    · rename_i j hj
      simp [hvalue, hj]
    · rename_i hnone
      simp [hnone]

/-- The writes of some cells of a layer. -/
def writes (p : Propagation) (keys : List String) : List (Nat × Float32) :=
  keys.flatMap fun key => (p.evaluateFrozen key).2.toList

theorem fst_finishLayer (p : Propagation) (keys : List String) :
    (p.finishLayer keys).1 = keys.map fun key => (p.evaluateFrozen key).1 := by
  induction keys generalizing p with
  | nil => rfl
  | cons key rest ih =>
    change _ :: ((p.visit key rest).2.finishLayer rest).1 = _
    rw [ih]
    rfl

/-- After a layer the next one starts over the grid with all writes of the layer made. -/
theorem advance_finishLayer (p : Propagation) (keys : List String) :
    (p.finishLayer keys).2.advance =
      layerStart p.graph (p.values.setAll (p.pending ++ p.writes keys))
        (p.frontier.flatMap p.graph.dependents.targets) (p.layer + 1) := by
  induction keys generalizing p with
  | nil =>
    rw [writes, List.flatMap_nil, List.append_nil]
    rfl
  | cons key rest ih =>
    change ((p.visit key rest).2.finishLayer rest).2.advance = _
    rw [ih, writes, writes, List.flatMap_cons, ← List.append_assoc]
    rfl

/-! ## The stream of evaluations -/

theorem next_of_waiting_eq_cons {rest : List String} (h : p.waiting = key :: rest) :
    p.next = (some (p.visit key rest).1, (p.visit key rest).2) := by
  rw [next, h]

/-- Where a layer is used up, the next evaluation is the first of the next layer. -/
theorem next_of_waiting_eq_nil (hwaiting : p.waiting = []) (hfrontier : p.frontier ≠ []) :
    p.next = p.advance.next := by
  have hfrontier : p.frontier.isEmpty = false := by simpa using hfrontier
  rw [next, hwaiting]
  dsimp only
  rw [hfrontier, if_neg Bool.false_ne_true]
  cases hnext : p.advance.waiting with
  | nil =>
    -- nothing reads the cells of the layer, so both streams are at their end
    have hempty : p.advance.frontier = [] := hnext
    rw [next, hnext]
    dsimp only
    rw [hempty, List.isEmpty_nil, if_pos rfl]
  | cons key rest => rw [next_of_waiting_eq_cons hnext]

theorem take_succ_of_waiting_eq_nil {n : Nat} (hwaiting : p.waiting = [])
    (hfrontier : p.frontier ≠ []) : p.take (n + 1) = p.advance.take (n + 1) := by
  rw [take, take, next_of_waiting_eq_nil hwaiting hfrontier]

/-- The stream first yields what is left in the layer. -/
theorem take_waiting {n : Nat} (h : p.waiting = keys) :
    (p.take (keys.length + n)).1.map (·.2) =
        (p.finishLayer keys).1 ++ ((p.finishLayer keys).2.take n).1.map (·.2) ∧
      (p.take (keys.length + n)).2 = ((p.finishLayer keys).2.take n).2 := by
  induction keys generalizing p with
  | nil =>
    rw [List.length_nil, Nat.zero_add]
    exact ⟨rfl, rfl⟩
  | cons key rest ih =>
    obtain ⟨hfst, hsnd⟩ := ih (p := (p.visit key rest).2) rfl
    rw [List.length_cons, Nat.add_right_comm, take, next_of_waiting_eq_cons h]
    exact ⟨congrArg ((p.visit key rest).1 :: ·) hfst, hsnd⟩

theorem waiting_finishLayer (h : p.waiting = keys) : (p.finishLayer keys).2.waiting = [] := by
  induction keys generalizing p with
  | nil => exact h
  | cons key rest ih => exact ih (p := (p.visit key rest).2) rfl

theorem frontier_finishLayer (p : Propagation) (keys : List String) :
    (p.finishLayer keys).2.frontier = p.frontier := by
  induction keys generalizing p with
  | nil => rfl
  | cons key rest ih => exact ih (p.visit key rest).2

end Propagation

namespace Graph

variable {g : Graph} {values final : Grid Float32} {frontier roots : List String}
  {es : List Evaluation} {key : String} {formula : Formula} {i : Nat}

/-- The evaluations of a layer: each cell of the frontier over one state of the grid. -/
def layerEvaluations (g : Graph) (values : Grid Float32) (frontier : List String) :
    List Evaluation :=
  frontier.map fun key => ((Propagation.start g values frontier).evaluateFrozen key).1

/-- The grid with all writes of a layer made. -/
def afterLayer (g : Graph) (values : Grid Float32) (frontier : List String) : Grid Float32 :=
  values.setAll ((Propagation.start g values frontier).writes frontier)

theorem map_key_layerEvaluations (g : Graph) (values : Grid Float32) (frontier : List String) :
    (g.layerEvaluations values frontier).map (·.key) = frontier := by
  rw [layerEvaluations, List.map_map]
  exact (List.map_congr_left fun key _ => Propagation.key_evaluateFrozen _ key).trans
    (List.map_id frontier)

/-- In a layer a cell has its value over the grid as it was when the layer began. -/
theorem value_of_mem_layerEvaluations {e : Evaluation}
    (he : e ∈ g.layerEvaluations values frontier) :
    e.value = (g.compute? values e.key).getD (held values e.key) := by
  obtain ⟨key, -, rfl⟩ := List.mem_map.1 he
  rw [Propagation.value_evaluateFrozen, Propagation.key_evaluateFrozen]
  rfl

theorem mem_writes {v : Float32} :
    (i, v) ∈ (Propagation.start g values frontier).writes frontier ↔ ∃ key ∈ frontier,
      values.dimensions.slot? key = some i ∧
        ∃ value, g.compute? values key = some value ∧ narrow value = v := by
  simp only [Propagation.writes, List.mem_flatMap, Option.mem_toList,
    Propagation.write_evaluateFrozen_eq_some]
  rfl

theorem dimensions_afterLayer (g : Graph) (values : Grid Float32) (frontier : List String) :
    (g.afterLayer values frontier).dimensions = values.dimensions :=
  Grid.dimensions_setAll values _

/-- A layer writes at most the slots of those cells that have a formula. -/
theorem cells_afterLayer
    (h : ∀ key ∈ frontier, key ∈ g.table → values.dimensions.slot? key ≠ some i) :
    (g.afterLayer values frontier).cells[i]? = values.cells[i]? := by
  refine Grid.cells_setAll_of_forall_ne ?_
  rintro ⟨j, v⟩ hwrite rfl
  obtain ⟨key, hkey, hslot, value, hvalue, -⟩ := mem_writes.1 hwrite
  obtain ⟨formula, hformula, -⟩ := Option.map_eq_some_iff.1 hvalue
  exact h key hkey (mem_table_of_eq_some hformula) hslot

/-- After a layer an unshared slot of its cells holds the value that its cell had. -/
theorem cells_afterLayer_of_mem (hkey : key ∈ frontier) (hformula : g.table[key]? = some formula)
    (hunshared : g.Unshared values.dimensions key) (hslot : values.dimensions.slot? key = some i) :
    (g.afterLayer values frontier).cells[i]? = some (narrow (formula.eval values)) := by
  have hvalue : g.compute? values key = some (formula.eval values) := by
    rw [compute?, hformula, Option.map_some]
  have hindex : values.index? key = some i := hslot
  refine Grid.cells_setAll_of_mem (Grid.index?_lt_size hindex)
    (mem_writes.2 ⟨key, hkey, hslot, _, hvalue, rfl⟩) fun v hv => ?_
  obtain ⟨writer, -, hwriterslot, value, hwritervalue, rfl⟩ := mem_writes.1 hv
  obtain ⟨writerformula, hwriterformula, -⟩ := Option.map_eq_some_iff.1 hwritervalue
  obtain rfl := hunshared writer (mem_table_of_eq_some hwriterformula) ⟨i, hwriterslot, hslot⟩
  rw [hvalue] at hwritervalue
  rw [Option.some.inj hwritervalue]

/-! ## Layers to the end -/

/-- **A propagation runs to its end**: from a grid and a frontier the layers yield these evaluations
and leave this grid. -/
inductive Propagates (g : Graph) :
    Grid Float32 → List String → List Evaluation → Grid Float32 → Prop
  /-- An empty frontier ends the propagation. -/
  | done (values : Grid Float32) : g.Propagates values [] [] values
  /-- After a layer the cells that read its cells are the next frontier. -/
  | layer {values : Grid Float32} {frontier : List String} {es : List Evaluation}
      {final : Grid Float32} (hfrontier : frontier ≠ [])
      (rest : g.Propagates (g.afterLayer values frontier)
        (frontier.flatMap g.dependents.targets) es final) :
      g.Propagates values frontier (g.layerEvaluations values frontier ++ es) final

/-- A propagation that ends within some layers runs to its end. -/
theorem propagates_of_finish? {n k : Nat}
    (h : (Propagation.layerStart g values frontier k).finish? n = some (es, final)) :
    g.Propagates values frontier es final := by
  induction n generalizing values frontier k es with
  | zero =>
    cases frontier with
    | nil =>
      obtain ⟨rfl, rfl⟩ := Prod.mk.inj (Option.some.inj h)
      exact .done _
    | cons => exact nomatch h
  | succ n ih =>
    cases frontier with
    | nil =>
      obtain ⟨rfl, rfl⟩ := Prod.mk.inj (Option.some.inj h)
      exact .done _
    | cons key rest =>
      obtain ⟨⟨later, final'⟩, hlater, heq⟩ := Option.map_eq_some_iff.1 h
      obtain ⟨rfl, rfl⟩ := Prod.mk.inj heq
      rw [Propagation.advance_finishLayer] at hlater
      rw [Propagation.fst_finishLayer]
      exact .layer (List.cons_ne_nil key rest) (ih hlater)

/-- **A propagation ends within some layers** exactly if the layer that comes after them is
empty. -/
theorem exists_finish?_iff {n k : Nat} :
    (∃ es final, (Propagation.layerStart g values frontier k).finish? n = some (es, final)) ↔
      g.dependents.layer n frontier = [] := by
  induction n generalizing values frontier k with
  | zero =>
    cases frontier with
    | nil => exact iff_of_true ⟨[], values, rfl⟩ rfl
    | cons key rest => exact iff_of_false nofun (List.cons_ne_nil key rest)
  | succ n ih =>
    cases frontier with
    | nil => exact iff_of_true ⟨[], values, rfl⟩ (Edges.layer_eq_nil_of_le rfl (Nat.zero_le _))
    | cons key rest =>
      change (∃ es final, (((Propagation.layerStart g values (key :: rest) k).finishLayer
        (key :: rest)).2.advance.finish? n).map _ = some (es, final)) ↔ _
      rw [Propagation.advance_finishLayer, Edges.layer]
      constructor
      · rintro ⟨es, final, h⟩
        obtain ⟨⟨later, final'⟩, hlater, -⟩ := Option.map_eq_some_iff.1 h
        exact ih.1 ⟨later, final', hlater⟩
      · intro hnil
        obtain ⟨later, final, hlater⟩ := ih.2 hnil
        exact ⟨_, final, Option.map_eq_some_iff.2 ⟨(later, final), hlater, rfl⟩⟩

/-- **The stream is the propagation**: taken past its end it yields all evaluations of the layers
and leaves their grid. -/
theorem Propagates.take {n k : Nat} (h : g.Propagates values frontier es final)
    (hn : es.length < n) :
    ((Propagation.layerStart g values frontier k).take n).1.map (·.2) = es ∧
      ((Propagation.layerStart g values frontier k).take n).2.settled = final := by
  induction h generalizing n k with
  | done values =>
    obtain ⟨m, rfl⟩ := Nat.exists_eq_succ_of_ne_zero (Nat.ne_zero_of_lt hn)
    exact ⟨rfl, rfl⟩
  | @layer values frontier es final hfrontier rest ih =>
    rw [List.length_append, layerEvaluations, List.length_map] at hn
    obtain ⟨m, rfl⟩ := Nat.exists_eq_add_of_lt hn
    rw [Nat.add_assoc frontier.length, Nat.add_assoc frontier.length]
    generalize hp : Propagation.layerStart g values frontier k = p
    have hwaiting : p.waiting = frontier := hp ▸ rfl
    have hadvance : (p.finishLayer frontier).2.advance =
        Propagation.layerStart g (g.afterLayer values frontier)
          (frontier.flatMap g.dependents.targets) (k + 1) := by
      rw [Propagation.advance_finishLayer, ← hp]
      rfl
    -- one more evaluation is asked for than the layer has, so the next layer starts
    obtain ⟨hfst, hsnd⟩ := Propagation.take_waiting (n := es.length + m + 1) hwaiting
    rw [Propagation.take_succ_of_waiting_eq_nil (Propagation.waiting_finishLayer hwaiting)
      (by rw [Propagation.frontier_finishLayer, ← hp]; exact hfrontier), hadvance] at hfst hsnd
    obtain ⟨hes, hfinal⟩ := ih (n := es.length + m + 1) (k := k + 1) (by omega)
    rw [hfst, hsnd, hes, Propagation.fst_finishLayer, ← hp]
    exact ⟨rfl, hfinal⟩

/-- **A change propagates to an end** exactly if no cycle is reached from it. -/
theorem exists_propagate_iff : (∃ es final, g.propagate values roots = some (es, final)) ↔
    ∀ key, (∃ root ∈ roots, g.dependents.Reaches root key) → ¬ g.dependents.OnCycle key :=
  exists_finish?_iff.trans Edges.layer_size_succ_eq_nil_iff

/-- A change in an acyclic graph propagates to an end. -/
theorem exists_propagate (hacyclic : g.dependents.Acyclic) (values : Grid Float32)
    (roots : List String) : ∃ es final, g.propagate values roots = some (es, final) :=
  exists_propagate_iff.2 fun key _ => hacyclic key

end Graph

end Spreadsheet
