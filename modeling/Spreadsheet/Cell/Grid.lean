import Spreadsheet.Cell.Key
import Spreadsheet.Error

/-! # Grids
A **grid** holds one entry per cell of a rectangle, row by row, in one flat array. Its dimensions
are positive and the number of its cells is below `2 ^ 64`; both are part of its type, and so is
the length of the array, which no write changes. A write goes through a cell key and reports where
it landed. -/

namespace Spreadsheet

/-- The width and the height of a grid, neither of them zero. -/
structure Dimensions where
  /-- The number of columns. -/
  width : Nat
  /-- The number of rows. -/
  height : Nat
  /-- There is a column. -/
  width_pos : 0 < width
  /-- There is a row. -/
  height_pos : 0 < height
  deriving DecidableEq

namespace Dimensions

/-- The dimensions of the given width and height, unless one of them is zero. -/
def ofNat (width height : Nat) : Except SheetError Dimensions :=
  if h : 0 < width ∧ 0 < height then .ok ⟨width, height, h.1, h.2⟩
  else .error (.badDimensions width height)

/-- The number of cells. -/
def area (d : Dimensions) : Nat := d.width * d.height

/-- A sheet that names no dimensions has 12 columns and 20 rows. -/
def standard : Dimensions := ⟨12, 20, by decide, by decide⟩

/-- The flat index of a position, row by row from the top; `none` outside the rectangle. -/
def index? (d : Dimensions) (p : Position) : Option Nat :=
  if p.column < d.width ∧ p.row < d.height then some (p.row * d.width + p.column) else none

/-- An index addresses a cell. -/
theorem index?_lt_area {d : Dimensions} {p : Position} {i : Nat} (h : d.index? p = some i) :
    i < d.area := by
  unfold index? at h
  split at h
  · rename_i hp
    obtain rfl := Option.some.inj h
    have : (p.row + 1) * d.width ≤ d.height * d.width := Nat.mul_le_mul_right _ hp.2
    rw [area, Nat.mul_comm d.width]
    rw [Nat.add_mul] at this
    omega
  · simp at h

end Dimensions

/-- Where a write to a cell went. -/
inductive Write where
  /-- Into the entry with this flat index. -/
  | stored (index : Nat)
  /-- Nowhere: the key has no position in the grid. -/
  | outOfBounds
  /-- Nowhere: the key has no formula. -/
  | missing
  deriving Repr, DecidableEq

/-- One entry per cell of a rectangle, row by row. -/
structure Grid (α : Type) where
  /-- The dimensions of the rectangle. -/
  dimensions : Dimensions
  /-- The entries, row by row from the top, each row from the left. -/
  cells : Array α
  /-- There is one entry per cell. -/
  size_eq : cells.size = dimensions.area
  /-- Every cell can be addressed. -/
  area_lt : dimensions.area < Key.wordBound

namespace Grid

variable {α : Type}

/-- The grid of the given dimensions that holds the same entry everywhere, unless it has too many
cells to address. -/
def filled (d : Dimensions) (a : α) : Except SheetError (Grid α) :=
  if h : d.area < Key.wordBound then
    .ok ⟨d, Array.replicate d.area a, by simp, h⟩
  else .error (.badDimensions d.width d.height)

/-- The same grid with each entry replaced by its image. -/
def map {β : Type} (f : α → β) (g : Grid α) : Grid β :=
  ⟨g.dimensions, g.cells.map f, by simp [g.size_eq], g.area_lt⟩

/-- The flat index of the cell that a key addresses. -/
def index? (g : Grid α) (key : String) : Option Nat :=
  (Key.position? key).bind g.dimensions.index?

/-- The entry of the cell that a key addresses. -/
def get? (g : Grid α) (key : String) : Option α :=
  (g.index? key).bind (g.cells[·]?)

/-- The grid with the entry of one flat index replaced; an index past the end changes nothing. -/
def setIndex (g : Grid α) (i : Nat) (a : α) : Grid α :=
  { g with cells := g.cells.setIfInBounds i a, size_eq := by simp [g.size_eq] }

/-- The grid with the entry of the cell that a key addresses replaced, and where that was. -/
def set (g : Grid α) (key : String) (a : α) : Grid α × Write :=
  match g.index? key with
  | some i => (g.setIndex i a, .stored i)
  | none => (g, .outOfBounds)

/-- The entries of one row. -/
def row (g : Grid α) (r : Nat) : List α :=
  (g.cells.extract (r * g.dimensions.width) ((r + 1) * g.dimensions.width)).toList

/-- The rows, top to bottom. -/
def rows (g : Grid α) : List (List α) :=
  (List.range g.dimensions.height).map g.row

/-- In a grid that holds the same entry everywhere so does every row. -/
theorem row_replicate {g : Grid α} {a : α} (h : g.cells = Array.replicate g.dimensions.area a)
    {r : Nat} (hr : r < g.dimensions.height) : g.row r = List.replicate g.dimensions.width a := by
  have hle : (r + 1) * g.dimensions.width ≤ g.dimensions.area := by
    rw [Dimensions.area, Nat.mul_comm g.dimensions.width]
    exact Nat.mul_le_mul_right _ hr
  rw [row, h, Array.extract_replicate, Array.toList_replicate, Nat.min_eq_left hle,
    Nat.add_mul, Nat.one_mul, Nat.add_sub_cancel_left]

@[simp] theorem dimensions_setIndex (g : Grid α) (i : Nat) (a : α) :
    (g.setIndex i a).dimensions = g.dimensions := rfl

/-- A write keeps the dimensions. -/
@[simp] theorem dimensions_set (g : Grid α) (key : String) (a : α) :
    (g.set key a).1.dimensions = g.dimensions := by
  unfold set
  split <;> rfl

@[simp] theorem cells_setIndex (g : Grid α) (i j : Nat) (a : α) :
    (g.setIndex i a).cells[j]? =
      if i = j then (if i < g.cells.size then some a else none) else g.cells[j]? := by
  simp [setIndex, Array.getElem?_setIfInBounds]

/-- The index of a key addresses an entry. -/
theorem index?_lt_size {g : Grid α} {key : String} {i : Nat} (h : g.index? key = some i) :
    i < g.cells.size := by
  obtain ⟨p, _, hp⟩ := Option.bind_eq_some_iff.1 h
  exact g.size_eq ▸ Dimensions.index?_lt_area hp

end Grid

end Spreadsheet
