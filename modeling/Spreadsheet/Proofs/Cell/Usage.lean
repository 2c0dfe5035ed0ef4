import Spreadsheet.Proofs.Cell.Addressing
import Spreadsheet.Proofs.Recalculation.Agreement
import Spreadsheet.Proofs.Recalculation.AnyOrder
import Spreadsheet.Proofs.Recalculation.Streaming

/-! # Grids in use
A grid is used by writes through keys, by evaluations of cells and by recalculations and
propagations, also by those that are abandoned. Whatever becomes of it, its dimensions are the first
ones, so every index that a key has is computed within a word, lies inside the grid and gives the
row and the column back. Keys share an index exactly when they share a position inside the grid, and
a write through one of them is read through all of them and through no other key. -/

namespace Spreadsheet

namespace Grid

variable {α : Type} {g : Grid α} {key other : String} {a : α} {i : Nat}

/-- A write goes to the index of its key. -/
theorem snd_set_eq_stored_iff : (g.set key a).2 = .stored i ↔ g.index? key = some i := by
  rw [set]
  cases g.index? key <;> simp

/-- A write goes nowhere exactly if its key has no index, and it changes nothing then. -/
theorem snd_set_eq_outOfBounds_iff :
    (g.set key a).2 = .outOfBounds ↔ g.index? key = none ∧ (g.set key a).1 = g := by
  rw [set]
  cases g.index? key <;> simp

/-- **A write is read through the keys with its index**, and other keys read what they read
before. -/
theorem get?_fst_set (h : g.index? key = some i) (other : String) :
    (g.set key a).1.get? other = if g.index? other = some i then some a else g.get? other := by
  have hslot : g.dimensions.slot? key = some i := h
  rw [get?_eq, dimensions_set, get?_eq, index?_eq_slot?]
  cases hother : g.dimensions.slot? other with
  | none => rw [Option.bind_none, Option.bind_none, if_neg nofun]
  | some j =>
    rw [Option.bind_some, Option.bind_some, cells_set, hslot]
    simp only [Option.some.injEq, eq_comm]

/-- A write through a key changes no other entry. -/
theorem cells_fst_set_of_ne {j : Nat} (h : g.index? key = some i) (hne : j ≠ i) :
    (g.set key a).1.cells[j]? = g.cells[j]? := by
  rw [cells_set, ← index?_eq_slot?, h, if_neg fun heq => hne (Option.some.inj heq).symm]

/-- **Keys with one index** are keys of one position inside the grid, which has this index. -/
theorem index?_eq_some_and_iff : g.index? key = some i ∧ g.index? other = some i ↔
    ∃ p, Key.position? key = some p ∧ Key.position? other = some p ∧
      p.column < g.dimensions.width ∧ p.row < g.dimensions.height ∧
      p.row * g.dimensions.width + p.column = i := by
  rw [index?, index?, Option.bind_eq_some_iff, Option.bind_eq_some_iff]
  constructor
  · rintro ⟨⟨p, hp, hindex⟩, q, hq, hindex'⟩
    obtain ⟨⟨hcolumn, hrow⟩, hi⟩ := Dimensions.index?_eq_some_iff.1 hindex
    -- the index determines the position
    obtain rfl : q = p := by
      rw [Dimensions.position_eq_of_index? hindex', Dimensions.position_eq_of_index? hindex]
    exact ⟨q, hp, hq, hcolumn, hrow, hi⟩
  · rintro ⟨p, hp, hother, hcolumn, hrow, hi⟩
    have hindex := Dimensions.index?_eq_some_iff.2 ⟨⟨hcolumn, hrow⟩, hi⟩
    exact ⟨⟨p, hp, hindex⟩, p, hother, hindex⟩

/-- The index of a key is computed from its position by a product and a sum that are words. -/
theorem exists_position_of_index? (h : g.index? key = some i) :
    ∃ p, Key.position? key = some p ∧
      p.row * g.dimensions.width < Nat.pow 2 64 ∧ p.row * g.dimensions.width + p.column = i ∧
      i < Nat.pow 2 64 ∧ i < g.cells.size ∧ i / g.dimensions.width = p.row ∧
      i % g.dimensions.width = p.column := by
  obtain ⟨p, hp, hindex⟩ := Option.bind_eq_some_iff.1 h
  obtain ⟨-, hi⟩ := Dimensions.index?_eq_some_iff.1 hindex
  have hword : i < Nat.pow 2 64 := (Dimensions.index?_lt_area hindex).trans g.area_lt
  exact ⟨p, hp, (Nat.le_add_right _ p.column).trans_lt (hi ▸ hword), hi, hword, index?_lt_size h,
    Dimensions.div_width_of_index? hindex, Dimensions.mod_width_of_index? hindex⟩

/-- The grid of the second place comes from that of the first by one use: a write through a key, the
evaluation of a cell, a recalculation that is not refused, a propagation that comes to an end, or a
stream that is abandoned after some items. -/
inductive Use : Grid Float32 → Grid Float32 → Prop
  /-- A write through a key. -/
  | set (g : Grid Float32) (key : String) (a : Float32) : Use g (g.set key a).1
  /-- The evaluation of a cell. -/
  | evaluate (graph : Graph) (g : Grid Float32) (key : String) : Use g (graph.evaluate g key).2
  /-- A recalculation. -/
  | recalculate {graph : Graph} {g final : Grid Float32} {roots : List String}
      {es : List Evaluation} : graph.recalculate g roots = .ok (es, final) → Use g final
  /-- A propagation to its end. -/
  | propagate {graph : Graph} {g final : Grid Float32} {roots : List String}
      {es : List Evaluation} : graph.propagate g roots = some (es, final) → Use g final
  /-- A stream that is abandoned. -/
  | abandon (graph : Graph) (g : Grid Float32) (roots : List String) (n : Nat) :
      Use g ((Propagation.start graph g roots).take n).2.settled

/-- A use keeps the dimensions. -/
theorem Use.dimensions_eq {g h : Grid Float32} (use : Use g h) : h.dimensions = g.dimensions := by
  cases use with
  | set _ key a => exact dimensions_set g key a
  | evaluate graph _ key => exact graph.dimensions_evaluate g key
  | @recalculate graph _ _ roots es hrun =>
    obtain ⟨s, -, heq⟩ := Graph.recalculate_eq_ok_iff.1 hrun
    have hfinal : (graph.evaluateAll g s.order).2 = h := congrArg Prod.snd heq
    rw [← hfinal, Graph.dimensions_evaluateAll]
  | propagate hrun => exact (Graph.propagates_of_finish? hrun).dimensions_eq
  | abandon graph _ roots n =>
    -- what an abandoned stream leaves is the first grid with some entries written
    obtain ⟨_, _, -, hyielded⟩ := Propagation.Yielded.take graph g roots n
    rw [hyielded.settled_eq, dimensions_setAll]

/-- **Uses keep the dimensions.** -/
theorem dimensions_eq_of_uses {g h : Grid Float32} (uses : Relation.ReflTransGen Use g h) :
    h.dimensions = g.dimensions := by
  induction uses with
  | refl => rfl
  | tail _ use ih => rw [use.dimensions_eq, ih]

/-- A new grid has the dimensions asked for. -/
theorem dimensions_of_filled {width height : Nat} {d : Dimensions} {fresh : Grid α}
    (hd : Dimensions.ofNat width height = .ok d) (hfresh : filled d a = .ok fresh) :
    fresh.dimensions.width = width ∧ fresh.dimensions.height = height := by
  unfold filled at hfresh
  split at hfresh
  · obtain rfl := Except.ok.inj hfresh
    exact Dimensions.ofNat_eq_ok_iff.1 hd
  · cases hfresh

/-- **Addressing is in range, exact and free of interference.** Whatever uses a new grid of some
width and height has been put to, it has one entry per cell and can be addressed by words. If a key
has an index, the product and the sum that it is computed by are words, the index is that of an
entry, and its quotient and remainder by the width are the row and the column of the key. Two keys
have one index exactly when they have one position inside the grid, which gives the index. A write
goes to the index of its key; it is read through exactly the keys with this index and changes no
other entry. A write that is reported out of bounds changes nothing, and its key has no index. -/
theorem used_grid_addressed_exactly {width height : Nat} {d : Dimensions}
    {fresh g : Grid Float32} (hd : Dimensions.ofNat width height = .ok d)
    (hfresh : filled d 0 = .ok fresh) (uses : Relation.ReflTransGen Use fresh g) :
    (g.cells.size = width * height ∧ width * height < Nat.pow 2 64) ∧
    (∀ key i, g.index? key = some i → ∃ p, Key.position? key = some p ∧
      p.row * width < Nat.pow 2 64 ∧ p.row * width + p.column = i ∧ i < Nat.pow 2 64 ∧
      i < g.cells.size ∧ i / width = p.row ∧ i % width = p.column) ∧
    (∀ key other i, g.index? key = some i ∧ g.index? other = some i ↔
      ∃ p, Key.position? key = some p ∧ Key.position? other = some p ∧ p.column < width ∧
        p.row < height ∧ p.row * width + p.column = i) ∧
    (∀ key a i, (g.set key a).2 = .stored i ↔ g.index? key = some i) ∧
    (∀ key a i, g.index? key = some i →
      (∀ other, (g.set key a).1.get? other =
        if g.index? other = some i then some a else g.get? other) ∧
      ∀ j, j ≠ i → (g.set key a).1.cells[j]? = g.cells[j]?) ∧
    ∀ key a, (g.set key a).2 = .outOfBounds ↔ g.index? key = none ∧ (g.set key a).1 = g := by
  obtain ⟨hwidth, hheight⟩ : g.dimensions.width = width ∧ g.dimensions.height = height := by
    rw [dimensions_eq_of_uses uses]
    exact dimensions_of_filled hd hfresh
  have harea : g.dimensions.area = width * height := by rw [Dimensions.area, hwidth, hheight]
  subst hwidth hheight
  exact ⟨⟨g.size_eq.trans harea, harea ▸ g.area_lt⟩, fun _ _ => exists_position_of_index?,
    fun _ _ _ => index?_eq_some_and_iff, fun _ _ _ => snd_set_eq_stored_iff,
    fun _ _ _ h => ⟨get?_fst_set h, fun _ => cells_fst_set_of_ne h⟩,
    fun _ _ => snd_set_eq_outOfBounds_iff⟩

/-- In a grid of three columns and two rows that was written to and recalculated, `B2` and `BZ02`
are the cell with index 4. What is written through one of them is read through the other and not
through `A1`, and a write through `D1`, right of the grid, changes nothing. -/
theorem two_keys_of_one_cell :
    ∃ d fresh g, Dimensions.ofNat 3 2 = .ok d ∧ filled d (0 : Float32) = .ok fresh ∧
      Relation.ReflTransGen Use fresh g ∧ g.index? "B2" = some 4 ∧ g.index? "BZ02" = some 4 ∧
      (∃ p, Key.position? "B2" = some p ∧ 4 / 3 = p.row ∧ 4 % 3 = p.column) ∧
      (g.set "BZ02" 5).1.get? "B2" = some 5 ∧ g.get? "A1" = some 2 ∧
      (g.set "BZ02" 5).1.get? "A1" = some 2 ∧ (g.set "D1" 5).1 = g := by
  let d : Dimensions := ⟨3, 2, by decide, by decide⟩
  let fresh : Grid Float32 := ⟨d, Array.replicate d.area 0, by simp, by decide⟩
  let graph : Graph := .ofFormulas (.ofList [("B2", "A1 + 1")])
  let written := (fresh.set "A1" 2).1
  let g := (graph.evaluate written "B2").2
  have hd : Dimensions.ofNat 3 2 = .ok d := by decide
  have hfresh : filled d (0 : Float32) = .ok fresh := dif_pos (by decide)
  have uses : Relation.ReflTransGen Use fresh g :=
    .tail (.single (.set fresh "A1" 2)) (.evaluate graph written "B2")
  obtain ⟨-, hexact, -, hstored, hread, hnowhere⟩ := used_grid_addressed_exactly hd hfresh uses
  have hindex : g.index? "B2" = some 4 := by decide +kernel
  have hindex' : g.index? "BZ02" = some 4 := by decide +kernel
  have hfirst : g.get? "A1" = some 2 := by decide +kernel
  obtain ⟨p, hp, -, -, -, -, hrow, hcolumn⟩ := hexact "B2" 4 hindex
  obtain ⟨hget, -⟩ := hread "BZ02" 5 4 hindex'
  refine ⟨d, fresh, g, hd, hfresh, uses, hindex, hindex', ⟨p, hp, hrow, hcolumn⟩, ?_, hfirst, ?_,
    ((hnowhere "D1" 5).1 (by decide +kernel)).2⟩
  · rw [hget "B2", if_pos hindex]
  · rw [hget "A1", if_neg (by decide +kernel), hfirst]

end Grid

end Spreadsheet
