import ForeignCurve.Constraint.Arith
import ForeignCurve.Circuit.Basic

namespace ForeignCurve

inductive Assertion (V : Type) where
  | vanishes (value : V)
  | lookup (table : LookupTable) (values : List V)
  | link (a b : CellSlice)

abbrev CellValues (V : Type) := Array V

namespace CellValues

def slice (cells : CellValues V) (s : CellSlice) : Except Abort (List V) :=
  if s.stop ≤ cells.size then .ok (cells.extract s.start s.stop).toList else .error .outOfBounds

def get (cells : CellValues V) (index : Nat) : Except Abort V :=
  match cells[index]? with
  | some v => .ok v
  | none => .error .outOfBounds

end CellValues

end ForeignCurve
