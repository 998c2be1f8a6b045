import ForeignCurve.Failure

/-!
The layout of an arena on a table of fixed width: cell after cell along the rows. It is the one
place where a logical index becomes a position.
-/

namespace ForeignCurve

structure Layout where
  width : Nat
  width_pos : 0 < width

namespace Layout

def ofWidth (width : Nat) : Except Fault Layout :=
  if h : 0 < width then .ok ⟨width, h⟩ else .error .zeroWidth

def cell (l : Layout) (index : Nat) : Cell :=
  ⟨index % l.width, index / l.width⟩

def index (l : Layout) (c : Cell) : Nat :=
  c.row * l.width + c.column

def wrap (l : Layout) (column row : Nat) : Cell :=
  ⟨column % l.width, row + column / l.width⟩

def rowsAmount (l : Layout) (numCells : Nat) : Nat :=
  (numCells + l.width - 1) / l.width

theorem column_cell_lt (l : Layout) (i : Nat) : (l.cell i).column < l.width :=
  Nat.mod_lt _ l.width_pos

theorem column_wrap_lt (l : Layout) (column row : Nat) : (l.wrap column row).column < l.width :=
  Nat.mod_lt _ l.width_pos

@[simp]
theorem index_cell (l : Layout) (i : Nat) : l.index (l.cell i) = i := by
  simp [index, cell, Nat.div_add_mod']

theorem cell_index {l : Layout} {c : Cell} (hc : c.column < l.width) : l.cell (l.index c) = c := by
  obtain ⟨column, row⟩ := c
  simp only [cell, index, Nat.mul_comm row, Nat.mul_add_mod, Nat.mul_add_div l.width_pos,
    Nat.mod_eq_of_lt hc, Nat.div_eq_of_lt hc, Nat.add_zero]

theorem wrap_of_lt {l : Layout} {column : Nat} (row : Nat) (hc : column < l.width) :
    l.wrap column row = ⟨column, row⟩ := by
  simp [wrap, Nat.mod_eq_of_lt hc, Nat.div_eq_of_lt hc]

theorem index_lt {l : Layout} {c : Cell} {rows : Nat} (hc : c.column < l.width)
    (hr : c.row < rows) : l.index c < rows * l.width :=
  calc
    c.row * l.width + c.column < c.row * l.width + l.width := Nat.add_lt_add_left hc _
    _ = (c.row + 1) * l.width := (Nat.succ_mul _ _).symm
    _ ≤ rows * l.width := Nat.mul_le_mul_right _ hr

theorem row_cell_lt_iff (l : Layout) {i rows : Nat} : (l.cell i).row < rows ↔ i < rows * l.width :=
  Nat.div_lt_iff_lt_mul l.width_pos

theorem rowsAmount_le_iff (l : Layout) {n rows : Nat} : l.rowsAmount n ≤ rows ↔ n ≤ rows * l.width := by
  have hpos := l.width_pos
  unfold rowsAmount
  rw [← Nat.lt_succ_iff, Nat.div_lt_iff_lt_mul hpos, Nat.succ_mul]
  omega

theorem row_cell_lt (l : Layout) {i n : Nat} (h : i < n) : (l.cell i).row < l.rowsAmount n :=
  l.row_cell_lt_iff.mpr (Nat.lt_of_lt_of_le h (l.rowsAmount_le_iff.mp (Nat.le_refl _)))

theorem row_cell_last (l : Layout) {n : Nat} (h : 0 < n) :
    (l.cell (n - 1)).row + 1 = l.rowsAmount n := by
  apply Nat.le_antisymm
  · exact l.row_cell_lt (Nat.sub_lt h Nat.one_pos)
  · have hlt := l.row_cell_lt_iff.mp (Nat.lt_succ_self (l.cell (n - 1)).row)
    exact l.rowsAmount_le_iff.mpr (Nat.le_of_pred_lt hlt)

end Layout

end ForeignCurve
