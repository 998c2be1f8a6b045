import ForeignCurve.Constraint.Assertion

namespace ForeignCurve

structure Evaluation where
  cells : CellValues Native
  constraints : Array Native
  lookups : Array (LookupTable × List Native)

namespace Evaluation

def empty (cells : CellValues Native) : Evaluation :=
  ⟨cells, #[], #[]⟩

def assert (e : Evaluation) : Assertion Native → Except Abort Evaluation
  | .vanishes value => return { e with constraints := e.constraints.push value }
  | .lookup table values => return { e with lookups := e.lookups.push (table, values) }
  | .link a b => do
    let pairs ← zipExact (← e.cells.slice a) (← e.cells.slice b)
    return { e with constraints := e.constraints ++ pairs.map fun (x, y) => x - y }

def assertAll (e : Evaluation) : List (Assertion Native) → Except Abort Evaluation
  | [] => return e
  | a :: as => do (← e.assert a).assertAll as

def badLookups (e : Evaluation) : Nat :=
  e.lookups.countP fun (table, values) => !table.contains (values.map (·.val))

end Evaluation

end ForeignCurve
