import Spreadsheet.Proofs.Recalculation.Settling

/-! # Addressing cells by row and column
The flat index of a position gives its row and its column back by division, so different positions
inside a rectangle have different indices. A grid read by rows has, at each row and column, the
entry with the flat index of that position. -/

namespace Spreadsheet

namespace Dimensions

variable {d : Dimensions} {p : Position} {key : String} {i r c : Nat}

/-- Dimensions are made of two positive numbers and have these. -/
theorem ofNat_eq_ok_iff {width height : Nat} :
    ofNat width height = .ok d ↔ d.width = width ∧ d.height = height := by
  constructor
  · intro h
    unfold ofNat at h
    split at h
    · obtain rfl := Except.ok.inj h
      exact ⟨rfl, rfl⟩
    · exact nomatch h
  · rintro ⟨rfl, rfl⟩
    exact dif_pos ⟨d.width_pos, d.height_pos⟩

theorem index?_eq_some_iff : d.index? p = some i ↔
    (p.column < d.width ∧ p.row < d.height) ∧ p.row * d.width + p.column = i := by
  unfold index?
  split
  · rename_i hp
    rw [Option.some.injEq, and_iff_right hp]
  · rename_i hp
    exact iff_of_false nofun fun h => hp h.1

/-- The row of a position is the quotient of its index by the width. -/
theorem div_width_of_index? (h : d.index? p = some i) : i / d.width = p.row := by
  obtain ⟨⟨hcolumn, -⟩, rfl⟩ := index?_eq_some_iff.1 h
  rw [Nat.mul_comm, Nat.mul_add_div d.width_pos, Nat.div_eq_of_lt hcolumn, Nat.add_zero]

/-- The column of a position is the remainder of its index by the width. -/
theorem mod_width_of_index? (h : d.index? p = some i) : i % d.width = p.column := by
  obtain ⟨⟨hcolumn, -⟩, rfl⟩ := index?_eq_some_iff.1 h
  rw [Nat.mul_comm, Nat.mul_add_mod, Nat.mod_eq_of_lt hcolumn]

/-- **A position is determined by its index.** -/
theorem position_eq_of_index? (h : d.index? p = some i) :
    p = ⟨i % d.width, i / d.width⟩ := by
  rw [div_width_of_index? h, mod_width_of_index? h]

/-- A key addresses the cell in some row and column exactly when that is its position. -/
theorem slot?_eq_some_iff (hr : r < d.height) (hc : c < d.width) :
    d.slot? key = some (r * d.width + c) ↔ Key.position? key = some ⟨c, r⟩ := by
  have hindex : d.index? ⟨c, r⟩ = some (r * d.width + c) := index?_eq_some_iff.2 ⟨⟨hc, hr⟩, rfl⟩
  rw [slot?, Option.bind_eq_some_iff]
  constructor
  · rintro ⟨p, hp, hslot⟩
    rw [hp, position_eq_of_index? hslot, ← position_eq_of_index? hindex]
  · exact fun h => ⟨_, h, hindex⟩

/-- What a key addresses is in range, as a flat index and as a row and a column. -/
theorem slot?_lt (h : d.slot? key = some i) :
    i < d.area ∧ i / d.width < d.height ∧ i % d.width < d.width := by
  obtain ⟨p, -, hp⟩ := Option.bind_eq_some_iff.1 h
  obtain ⟨⟨-, hrow⟩, -⟩ := index?_eq_some_iff.1 hp
  exact ⟨index?_lt_area hp, div_width_of_index? hp ▸ hrow, Nat.mod_lt i d.width_pos⟩

theorem lt_area (hr : r < d.height) (hc : c < d.width) : r * d.width + c < d.area :=
  index?_lt_area (p := ⟨c, r⟩) (index?_eq_some_iff.2 ⟨⟨hc, hr⟩, rfl⟩)

end Dimensions

namespace Grid

variable {α : Type} {g : Grid α} {r c : Nat}

theorem length_row (hr : r < g.dimensions.height) : (g.row r).length = g.dimensions.width := by
  have hle : (r + 1) * g.dimensions.width ≤ g.cells.size := by
    rw [g.size_eq, Dimensions.area, Nat.mul_comm g.dimensions.width]
    exact Nat.mul_le_mul_right _ hr
  rw [row, Array.length_toList, Array.size_extract, Nat.min_eq_left hle, Nat.add_mul, Nat.one_mul,
    Nat.add_sub_cancel_left]

/-- The entries of a row are those with the flat indices of its positions. -/
theorem getElem?_row (hr : r < g.dimensions.height) (hc : c < g.dimensions.width) :
    (g.row r)[c]? = g.cells[r * g.dimensions.width + c]? := by
  have hsize : c < (g.row r).length := by rwa [length_row hr]
  have hcell : r * g.dimensions.width + c < g.cells.size := by
    rw [g.size_eq]
    exact Dimensions.lt_area hr hc
  rw [List.getElem?_eq_getElem hsize, Array.getElem?_eq_getElem hcell]
  simp only [row, Array.getElem_toList, Array.getElem_extract]

end Grid

end Spreadsheet
