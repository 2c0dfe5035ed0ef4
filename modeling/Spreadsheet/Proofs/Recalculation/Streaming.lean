import Spreadsheet.Proofs.Recalculation.Scheduled
import Spreadsheet.Proofs.Recalculation.Layered

/-! # Taking evaluations from the stream
A stream is taken from one evaluation at a time and can be abandoned after any of them. Each item is
the evaluation of its cell over the first grid with the items of all **earlier** layers written and
none of its own layer, and abandoning the stream leaves the grid in which exactly the items taken
are written, in their order. `Yielded` says how far the grid and the pending writes of a stream are
behind the items that it has yielded; each visit and each change of the layer keeps it. Nothing is
assumed of the graph: cells may read each other in a circle, and different keys may share a slot. -/

namespace Spreadsheet

/-- The write that an evaluation comes with: its narrowed value, if its cell has a slot. -/
def Evaluation.stored? (e : Evaluation) : Option (Nat × Float32) :=
  match e.write with
  | .stored i => some (i, narrow e.value)
  | _ => none

/-- A pending evaluation is the one that is made at once over the same grid, and so is its write. -/
theorem Propagation.evaluateFrozen_eq (p : Propagation) (key : String) :
    p.evaluateFrozen key =
      ((p.graph.evaluate p.values key).1, (p.graph.evaluate p.values key).1.stored?) := by
  unfold evaluateFrozen Graph.evaluate
  cases p.graph.compute? p.values key with
  | none => rfl
  | some value =>
    dsimp only
    rw [Grid.set]
    cases p.values.index? key <;> rfl

namespace Propagation

variable {p q : Propagation} {key : String} {rest : List String} {m n : Nat}

/-- The writes of the items of a stream, in the order in which they were yielded. -/
def entries (items : List (Nat × Evaluation)) : List (Nat × Float32) :=
  items.filterMap (·.2.stored?)

theorem entries_append (items others : List (Nat × Evaluation)) :
    entries (items ++ others) = entries items ++ entries others :=
  List.filterMap_append ..

theorem entries_singleton (layer : Nat) (e : Evaluation) : entries [(layer, e)] = e.stored?.toList := by
  cases h : e.stored? <;> simp [entries, h]

/-- A visit yields the evaluation of its cell over the grid of the layer. -/
theorem fst_visit (p : Propagation) (key : String) (rest : List String) :
    (p.visit key rest).1 = (p.graph.evaluate p.values key).1 := by
  rw [visit, evaluateFrozen_eq]

/-- A visit adds the write of what it yields to the pending ones. -/
theorem pending_visit (p : Propagation) (key : String) (rest : List String) :
    (p.visit key rest).2.pending = p.pending ++ entries [(p.layer, (p.visit key rest).1)] := by
  rw [entries_singleton, fst_visit, visit, evaluateFrozen_eq]

/-- The items of the layers before one. -/
def earlierThan (layer : Nat) (items : List (Nat × Evaluation)) : List (Nat × Evaluation) :=
  items.filter (·.1 < layer)

/-! ## The end of a stream -/

/-- A stream has ended if it has used up its layer and nothing reads the cells of the layer. -/
def Ended (p : Propagation) : Prop := p.waiting = [] ∧ p.frontier = []

theorem Ended.next_eq (h : p.Ended) : p.next = (none, p) := by
  rw [next, h.1]
  dsimp only
  rw [h.2, List.isEmpty_nil, if_pos rfl]

/-- A stream yields the next cell of its layer, goes on to the next layer or has ended. -/
theorem next_cases (p : Propagation) :
    (∃ key rest, p.waiting = key :: rest ∧
      p.next = (some (p.visit key rest).1, (p.visit key rest).2)) ∨
    (p.waiting = [] ∧ p.frontier ≠ [] ∧ p.next = p.advance.next) ∨ p.Ended := by
  cases hwaiting : p.waiting with
  | cons key rest => exact .inl ⟨key, rest, rfl, next_of_waiting_eq_cons hwaiting⟩
  | nil =>
    by_cases hfrontier : p.frontier = []
    · exact .inr (.inr ⟨hwaiting, hfrontier⟩)
    · exact .inr (.inl ⟨rfl, hfrontier, next_of_waiting_eq_nil hwaiting hfrontier⟩)

/-- A new layer has a cell to yield, or the stream has ended. -/
theorem next_advance_cases (p : Propagation) :
    (∃ key rest, p.advance.waiting = key :: rest ∧
      p.advance.next = (some (p.advance.visit key rest).1, (p.advance.visit key rest).2)) ∨
    p.advance.Ended := by
  rcases p.advance.next_cases with hvisit | ⟨hwaiting, hfrontier, -⟩ | hended
  · exact .inl hvisit
  · exact absurd hwaiting hfrontier
  · exact .inr hended

/-- Where there is no next evaluation the stream has ended. -/
theorem ended_of_next_eq_none (h : p.next = (none, q)) : q.Ended := by
  rcases p.next_cases with ⟨key, rest, -, hnext⟩ | ⟨-, -, hnext⟩ | hended
  · exact nomatch hnext.symm.trans h
  · rcases p.next_advance_cases with ⟨key, rest, -, hvisit⟩ | hended
    · exact nomatch (hnext.trans hvisit).symm.trans h
    · rw [hnext, hended.next_eq] at h
      exact (Prod.mk.inj h).2 ▸ hended
  · rw [hended.next_eq] at h
    exact (Prod.mk.inj h).2 ▸ hended

/-! ## Taking some items -/

theorem take_succ_of_next_eq_none (h : p.next = (none, q)) : p.take (n + 1) = ([], q) := by
  rw [take, h]

theorem take_succ_of_next_eq_some {e : Evaluation} (h : p.next = (some e, q)) :
    p.take (n + 1) = ((q.layer, e) :: (q.take n).1, (q.take n).2) := by
  rw [take, h]

/-- A stream that has ended stays as it is. -/
theorem Ended.take_eq (h : p.Ended) (n : Nat) : p.take n = ([], p) := by
  cases n with
  | zero => rfl
  | succ n => exact take_succ_of_next_eq_none h.next_eq

/-- **Taking some items and then more** is taking them all at once. -/
theorem take_add (p : Propagation) (n m : Nat) :
    p.take (n + m) =
      ((p.take n).1 ++ ((p.take n).2.take m).1, ((p.take n).2.take m).2) := by
  induction n generalizing p with
  | zero =>
    rw [Nat.zero_add]
    rfl
  | succ n ih =>
    rw [Nat.add_right_comm]
    rcases hnext : p.next with ⟨_ | e, q⟩
    · rw [take_succ_of_next_eq_none hnext, take_succ_of_next_eq_none hnext,
        (ended_of_next_eq_none hnext).take_eq]
      rfl
    · rw [take_succ_of_next_eq_some hnext, take_succ_of_next_eq_some hnext, ih]
      rfl

theorem length_take_le (p : Propagation) (n : Nat) : (p.take n).1.length ≤ n := by
  induction n generalizing p with
  | zero => exact Nat.le_refl 0
  | succ n ih =>
    rcases hnext : p.next with ⟨_ | e, q⟩
    · rw [take_succ_of_next_eq_none hnext]
      exact Nat.zero_le _
    · rw [take_succ_of_next_eq_some hnext]
      exact Nat.succ_le_succ (ih q)

/-- A stream that yields fewer items than were asked for has ended. -/
theorem ended_of_length_take_lt (h : (p.take n).1.length < n) : (p.take n).2.Ended := by
  induction n generalizing p with
  | zero => exact absurd h (Nat.not_lt_zero _)
  | succ n ih =>
    rcases hnext : p.next with ⟨_ | e, q⟩
    · rw [take_succ_of_next_eq_none hnext]
      exact ended_of_next_eq_none hnext
    · rw [take_succ_of_next_eq_some hnext] at h ⊢
      exact ih (Nat.lt_of_succ_lt_succ h)

/-- **Runs of a stream**: what holds of the items yielded so far and the state of the stream holds
after any number of items more, if each visit and each change of the layer keeps it. -/
theorem take_induction {motive : List (Nat × Evaluation) → Propagation → Prop}
    (visit : ∀ items p key rest, motive items p → p.waiting = key :: rest →
      motive (items ++ [(p.layer, (p.visit key rest).1)]) (p.visit key rest).2)
    (advance : ∀ items p, motive items p → p.waiting = [] → motive items p.advance)
    (items : List (Nat × Evaluation)) (h : motive items p) (n : Nat) :
    motive (items ++ (p.take n).1) (p.take n).2 := by
  have hstop : ∀ {p items}, motive items p → motive (items ++ ([], p).1) p := fun {p items} h => by
    rwa [List.append_nil]
  induction n generalizing p items with
  | zero => exact hstop h
  | succ n ih =>
    have hvisit : ∀ {p key rest}, motive items p → p.waiting = key :: rest →
        p.next = (some (p.visit key rest).1, (p.visit key rest).2) →
        motive (items ++ (p.take (n + 1)).1) (p.take (n + 1)).2 := by
      intro p key rest h hwaiting hnext
      have hrest := ih _ (visit items p key rest h hwaiting)
      rw [List.append_assoc] at hrest
      rwa [take_succ_of_next_eq_some hnext]
    rcases p.next_cases with ⟨key, rest, hwaiting, hnext⟩ | ⟨hwaiting, hfrontier, -⟩ | hended
    · exact hvisit h hwaiting hnext
    · -- the first item of a new layer is the first one after the change of the layer
      rw [take_succ_of_waiting_eq_nil hwaiting hfrontier]
      have hadvance := advance items p h hwaiting
      rcases p.next_advance_cases with ⟨key, rest, hwaiting, hnext⟩ | hended
      · exact hvisit hadvance hwaiting hnext
      · rw [hended.take_eq]
        exact hstop hadvance
    · rw [hended.take_eq]
      exact hstop h

/-! ## What has been yielded -/

/-- **Where a stream stands**: over a first grid it has yielded the items of the layers before its
own, which are written, and some of its own layer, which are pending. -/
structure Yielded (g : Graph) (values : Grid Float32) (earlier current : List (Nat × Evaluation))
    (p : Propagation) : Prop where
  /-- The graph is the one of the stream. -/
  graph_eq : p.graph = g
  /-- The grid has the writes of the layers before. -/
  values_eq : p.values = values.setAll (entries earlier)
  /-- The writes of the layer are pending. -/
  pending_eq : p.pending = entries current
  /-- The cells of the layer are those yielded and those waiting. -/
  frontier_eq : p.frontier = current.map (·.2.key) ++ p.waiting
  /-- The first items are those of the layers before. -/
  layer_of_mem_earlier : ∀ item ∈ earlier, item.1 < p.layer
  /-- The others are those of the layer. -/
  layer_of_mem_current : ∀ item ∈ current, item.1 = p.layer
  /-- The layers come one after the other. -/
  ordered : earlier.Pairwise (·.1 ≤ ·.1)
  /-- Each item was evaluated over the grid with all layers before its own written. -/
  evaluated : ∀ item ∈ earlier ++ current, item.2 =
    (g.evaluate (values.setAll (entries (earlierThan item.1 (earlier ++ current))))
      item.2.key).1

variable {g : Graph} {values : Grid Float32} {earlier current : List (Nat × Evaluation)}

theorem earlierThan_append (layer : Nat) (items others : List (Nat × Evaluation)) :
    earlierThan layer (items ++ others) = earlierThan layer items ++ earlierThan layer others :=
  List.filter_append ..

theorem earlierThan_eq_self {layer : Nat} {items : List (Nat × Evaluation)}
    (h : ∀ item ∈ items, item.1 < layer) : earlierThan layer items = items :=
  List.filter_eq_self.2 fun item hitem => decide_eq_true (h item hitem)

theorem earlierThan_eq_nil {layer : Nat} {items : List (Nat × Evaluation)}
    (h : ∀ item ∈ items, layer ≤ item.1) : earlierThan layer items = [] :=
  List.filter_eq_nil_iff.2 fun item hitem => by simpa using h item hitem

namespace Yielded

theorem start (g : Graph) (values : Grid Float32) (roots : List String) :
    Yielded g values [] [] (start g values roots) where
  graph_eq := rfl
  values_eq := rfl
  pending_eq := rfl
  frontier_eq := rfl
  layer_of_mem_earlier _ h := absurd h List.not_mem_nil
  layer_of_mem_current _ h := absurd h List.not_mem_nil
  ordered := .nil
  evaluated _ h := absurd h List.not_mem_nil

/-- A visit yields an item over the grid as it was when the layer began. -/
theorem visit (h : Yielded g values earlier current p) (hwaiting : p.waiting = key :: rest) :
    Yielded g values earlier (current ++ [(p.layer, (p.visit key rest).1)])
      (p.visit key rest).2 where
  graph_eq := h.graph_eq
  values_eq := h.values_eq
  pending_eq := by rw [pending_visit, entries_append, h.pending_eq]
  frontier_eq := by
    change p.frontier = _ ++ rest
    rw [h.frontier_eq, hwaiting, List.map_append, List.append_assoc, List.map_singleton, fst_visit,
      Graph.key_evaluate]
    rfl
  layer_of_mem_earlier := h.layer_of_mem_earlier
  layer_of_mem_current item hitem := by
    rcases List.mem_append.1 hitem with hitem | hitem
    · exact h.layer_of_mem_current item hitem
    · rw [List.mem_singleton.1 hitem]
      rfl
  ordered := h.ordered
  evaluated item hitem := by
    -- the new item is not earlier than any, since no layer is later than the present one
    have hle : ∀ item ∈ earlier ++ current, item.1 ≤ p.layer := by
      intro item hitem
      rcases List.mem_append.1 hitem with hitem | hitem
      · exact Nat.le_of_lt (h.layer_of_mem_earlier item hitem)
      · exact Nat.le_of_eq (h.layer_of_mem_current item hitem)
    have hnew : ∀ layer ≤ p.layer, earlierThan layer
        (earlier ++ (current ++ [(p.layer, (p.visit key rest).1)])) =
          earlierThan layer (earlier ++ current) := by
      intro layer hlayer
      have hlast : earlierThan layer [(p.layer, (p.visit key rest).1)] = [] :=
        earlierThan_eq_nil fun item hitem => (List.mem_singleton.1 hitem).symm ▸ hlayer
      rw [← List.append_assoc, earlierThan_append, hlast, List.append_nil]
    rw [← List.append_assoc] at hitem
    rcases List.mem_append.1 hitem with hitem | hitem
    · rw [hnew item.1 (hle item hitem)]
      exact h.evaluated item hitem
    · have hearlier : earlierThan p.layer (earlier ++ current) = earlier := by
        rw [earlierThan_append, earlierThan_eq_self h.layer_of_mem_earlier,
          earlierThan_eq_nil fun item hitem => Nat.le_of_eq (h.layer_of_mem_current item hitem).symm,
          List.append_nil]
      rw [List.mem_singleton.1 hitem, hnew p.layer (Nat.le_refl _), hearlier, ← h.values_eq,
        ← h.graph_eq, fst_visit, Graph.key_evaluate]

/-- With the next layer everything yielded so far is written. -/
theorem advance (h : Yielded g values earlier current p) :
    Yielded g values (earlier ++ current) [] p.advance where
  graph_eq := h.graph_eq
  values_eq := by
    change p.values.setAll p.pending = _
    rw [h.pending_eq, h.values_eq, entries_append, Grid.setAll_append]
  pending_eq := rfl
  frontier_eq := rfl
  layer_of_mem_earlier item hitem := by
    rcases List.mem_append.1 hitem with hitem | hitem
    · exact Nat.lt_succ_of_lt (h.layer_of_mem_earlier item hitem)
    · exact Nat.lt_succ_of_le (Nat.le_of_eq (h.layer_of_mem_current item hitem))
  layer_of_mem_current _ hitem := absurd hitem List.not_mem_nil
  ordered := by
    refine List.pairwise_append.2 ⟨h.ordered, ?_, fun item hitem other hother => ?_⟩
    · refine List.pairwise_of_forall_mem_list fun item hitem other hother => ?_
      rw [h.layer_of_mem_current item hitem, h.layer_of_mem_current other hother]
    · rw [h.layer_of_mem_current other hother]
      exact Nat.le_of_lt (h.layer_of_mem_earlier item hitem)
  evaluated := by
    rw [List.append_nil]
    exact h.evaluated

/-- **The grid that an abandoned stream leaves** has the writes of all items yielded. -/
theorem settled_eq (h : Yielded g values earlier current p) :
    p.settled = values.setAll (entries (earlier ++ current)) := h.advance.values_eq

/-- **A stream stands somewhere after any number of items.** -/
theorem take (g : Graph) (values : Grid Float32) (roots : List String) (n : Nat) :
    let stream := Propagation.start g values roots
    ∃ earlier current, earlier ++ current = (stream.take n).1 ∧
      Yielded g values earlier current (stream.take n).2 := by
  refine take_induction (motive := fun items p => ∃ earlier current, earlier ++ current = items ∧
    Yielded g values earlier current p) ?_ ?_ [] ⟨[], [], rfl, start g values roots⟩ n
  · rintro _ p key rest ⟨earlier, current, rfl, h⟩ hwaiting
    exact ⟨earlier, _, (List.append_assoc ..).symm, h.visit hwaiting⟩
  · rintro _ p ⟨earlier, current, rfl, h⟩ -
    exact ⟨earlier ++ current, [], List.append_nil _, h.advance⟩

end Yielded

/-! ## Any number of items -/

/-- **A stream writes what it yields, over frozen layers.** Taking at most `n` items from the
propagation of a change and abandoning it leaves the first grid with exactly these items written, in
their order. Each item is the evaluation of its cell over the first grid with the items of all
layers before its own written, however many items are taken in all, and none of its own layer; the
layers come one after the other. Asking for more items yields these first. A stream that yields
fewer items than were asked for has ended: it yields nothing more, nothing is pending, and its grid
stays as it is. -/
theorem items_taken_are_written (g : Graph) (values : Grid Float32) (roots : List String)
    (n : Nat) :
    let stream := Propagation.start g values roots
    let items := (stream.take n).1
    let left := (stream.take n).2
    left.settled = values.setAll (entries items) ∧
      (∀ item ∈ items, ∀ m, item.2 = (g.evaluate
        (values.setAll (entries (earlierThan item.1 (stream.take (n + m)).1))) item.2.key).1) ∧
      items.Pairwise (·.1 ≤ ·.1) ∧ items.length ≤ n ∧
      (∀ m, items <+: (stream.take (n + m)).1) ∧
      (items.length < n → left.values = left.settled ∧ left.next = (none, left) ∧
        (∀ m, left.take m = ([], left)) ∧ ∀ m, stream.take (n + m) = (items, left)) := by
  intro stream items left
  have hmore : ∀ m, items <+: (stream.take (n + m)).1 := by
    intro m
    rw [take_add]
    exact List.prefix_append ..
  obtain ⟨earlier, current, hitems, h⟩ := Yielded.take g values roots n
  have hitems : items = earlier ++ current := hitems.symm
  refine ⟨?_, fun item hitem m => ?_, ?_, length_take_le stream n, hmore, fun hlt => ?_⟩
  · rw [hitems]
    exact h.settled_eq
  · obtain ⟨earlier', current', hitems', h'⟩ := Yielded.take g values roots (n + m)
    have hmem : item ∈ earlier' ++ current' := hitems' ▸ (hmore m).subset hitem
    rw [← hitems']
    exact h'.evaluated item hmem
  · rw [hitems]
    exact h.advance.ordered
  · have hended : left.Ended := ended_of_length_take_lt hlt
    -- the last layer is empty, so none of it is pending
    have hcurrent : current = [] := by
      have hfrontier := h.frontier_eq.symm.trans hended.2
      exact List.map_eq_nil_iff.1 (List.append_eq_nil_iff.1 hfrontier).1
    have hpending : left.pending = [] := by
      rw [h.pending_eq, hcurrent]
      rfl
    refine ⟨?_, hended.next_eq, hended.take_eq, fun m => ?_⟩
    · rw [settled, hpending]
      rfl
    · rw [take_add, hended.take_eq, List.append_nil]

/-- Where `B1` reads `A1`, a stream asked for five items yields two and has ended. -/
theorem two_items_of_five :
    let g := Graph.ofFormulas (.ofList [("A1", "5"), ("B1", "A1 + 1")])
    let values : Grid Float32 := ⟨⟨2, 1, by decide, by decide⟩, #[0, 0], rfl, by decide⟩
    let stream := Propagation.start g values ["A1"]
    let items := (stream.take 5).1
    let left := (stream.take 5).2
    items = [(0, ⟨"A1", 5, .stored 0⟩), (1, ⟨"B1", 6, .stored 1⟩)] ∧ items.length < 5 ∧
      left.values = values.setAll [(0, 5), (1, 6)] ∧ ∀ m, stream.take (5 + m) = (items, left) := by
  intro g values stream items left
  have hitems : items = [(0, ⟨"A1", 5, .stored 0⟩), (1, ⟨"B1", 6, .stored 1⟩)] := by decide +kernel
  have hlt : items.length < 5 := by
    rw [hitems]
    decide
  obtain ⟨hsettled, -, -, -, -, hended⟩ := items_taken_are_written g values ["A1"] 5
  obtain ⟨hvalues, -, -, hstays⟩ := hended hlt
  have hentries : entries items = [(0, 5), (1, 6)] := by
    rw [hitems]
    decide +kernel
  exact ⟨hitems, hlt, (hvalues.trans hsettled).trans (congrArg values.setAll hentries), hstays⟩

/-- Cells that read each other are evaluated on and on, each over what the layer before left. -/
example :
    let g := Graph.ofFormulas (.ofList [("A1", "B1 + 1"), ("B1", "A1 + 1")])
    let values : Grid Float32 := ⟨⟨2, 1, by decide, by decide⟩, #[0, 0], rfl, by decide⟩
    ((Propagation.start g values ["A1", "B1"]).take 3).1 =
      [(0, ⟨"A1", 1, .stored 0⟩), (0, ⟨"B1", 1, .stored 1⟩), (1, ⟨"B1", 2, .stored 1⟩)] := by
  decide +kernel

end Propagation

end Spreadsheet
