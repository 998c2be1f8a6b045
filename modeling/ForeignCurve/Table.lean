import ForeignCurve.Layout

/-!
Witness tables: a fixed width, rows made on demand, and cells that are written once. The rows are
kept one after another in one array, so a position is found at its logical index.
-/

namespace ForeignCurve

structure Table (α : Type) where
  layout : Layout
  cells : Array (Option α)
  width_dvd : layout.width ∣ cells.size

namespace Table

def empty (layout : Layout) : Table α where
  layout := layout
  cells := #[]
  width_dvd := Nat.dvd_zero _

def width (t : Table α) : Nat :=
  t.layout.width

def numRows (t : Table α) : Nat :=
  t.cells.size / t.layout.width

def numAssigned (t : Table α) : Nat :=
  t.cells.countP (·.isSome)

def ensureRows (t : Table α) (rows : Nat) : Table α :=
  if h : t.cells.size < rows * t.layout.width then
    { layout := t.layout
      cells := t.cells ++ Array.replicate (rows * t.layout.width - t.cells.size) none
      width_dvd := by
        rw [Array.size_append, Array.size_replicate, Nat.add_sub_cancel' (Nat.le_of_lt h)]
        exact Nat.dvd_mul_left _ _ }
  else
    t

theorem layout_ensureRows (t : Table α) (rows : Nat) : (t.ensureRows rows).layout = t.layout := by
  unfold ensureRows
  split <;> rfl

theorem join_getElem?_ensureRows (t : Table α) (rows i : Nat) :
    (t.ensureRows rows).cells[i]?.join = t.cells[i]?.join := by
  unfold ensureRows
  split
  · rcases Nat.lt_or_ge i t.cells.size with hi | hi
    · simp [Array.getElem?_append, hi]
    · rw [Array.getElem?_eq_none hi]
      simp only [Array.getElem?_append, Nat.not_lt.mpr hi, if_false, Array.getElem?_replicate]
      split <;> rfl
  · rfl

def set (t : Table α) (index : Nat) (value : Option α) : Table α where
  layout := t.layout
  cells := t.cells.setIfInBounds index value
  width_dvd := by
    rw [Array.size_setIfInBounds]
    exact t.width_dvd

/--
Writes the cell that `(column, row)` wraps to. The rows are made first, and stay when the cell is
already assigned.
-/
def write (column row : Nat) (value : α) : EStateM Fault (Table α) Unit := fun t =>
  let cell := t.layout.wrap column row
  let index := t.layout.index cell
  let t := t.ensureRows (cell.row + 1)
  if (t.cells[index]?.join).isSome then
    .error (.alreadyAssigned cell) t
  else
    .ok () (t.set index (some value))

def get? (t : Table α) (cell : Cell) : Option α :=
  if cell.column < t.layout.width then t.cells[t.layout.index cell]?.join else none

@[simp]
theorem get?_empty (layout : Layout) (cell : Cell) : (empty layout : Table α).get? cell = none := by
  simp [get?, empty]

@[simp]
theorem get?_ensureRows (t : Table α) (rows : Nat) (cell : Cell) :
    (t.ensureRows rows).get? cell = t.get? cell := by
  rw [get?, get?, layout_ensureRows, join_getElem?_ensureRows]

def read (t : Table α) (column row : Nat) : Except Fault α :=
  let cell := t.layout.wrap column row
  match t.get? cell with
  | some value => .ok value
  | none => .error (.notAssigned cell)

def rows (t : Table α) : List (List (Option α)) :=
  (List.range t.numRows).map fun row =>
    (t.cells.extract (row * t.layout.width) ((row + 1) * t.layout.width)).toList

end Table

end ForeignCurve
