/-!
Cells and runs of cells. The cells of an arena are counted by a *logical index*, in the order in
which they were allocated; a `Cell` is a position of the witness table.
-/

namespace ForeignCurve

structure Cell where
  column : Nat
  row : Nat
deriving DecidableEq

structure CellSlice where
  start : Nat
  len : Nat
deriving DecidableEq

namespace CellSlice

def stop (s : CellSlice) : Nat :=
  s.start + s.len

def indices (s : CellSlice) : List Nat :=
  List.range' s.start s.len

@[simp]
theorem length_indices (s : CellSlice) : s.indices.length = s.len := by
  simp [indices]

theorem mem_indices {s : CellSlice} {i : Nat} : i ∈ s.indices ↔ s.start ≤ i ∧ i < s.stop := by
  simp [indices, stop]

end CellSlice

end ForeignCurve
