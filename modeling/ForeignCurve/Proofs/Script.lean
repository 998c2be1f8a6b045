import ForeignCurve.Proofs.Circuit.Acceptance
import ForeignCurve.Proofs.Constraint.Script
import Mathlib.Data.ZMod.Defs

/-!
Scripts on an emitter mean what they mean when they are interpreted directly on the values of the
cells: segment by segment, what is emitted evaluates on a table to what the interpreter computes.
-/

namespace ForeignCurve

section Evaluation

open Assertion

variable {l : Layout} {t : Table Native} {n : Nat} {e e' : Evaluation} {a : Assertion Native} {as : List (Assertion Native)}

namespace CellValues

variable {cells : CellValues Native} {s : CellSlice} {xs : List Native}

end CellValues

namespace Evaluation

end Evaluation

end Evaluation

namespace Script

namespace Direct

def line (d : Direct) : Line → Except Abort Direct
  | .value v => do return (← d.value v).2
  | .assert a => d.assert a

def run (cells : CellValues Native) (lines : List Line) : Except Abort Direct :=
  lines.foldlM line (.empty cells)

variable {d d' : Direct} {lines : List Line} {as : List (Assertion Native)}

end Direct

section Segment

open Assertion

variable {l : Layout} {t : Table Native} {n : Nat} {cells : CellValues Native} {lines : List Line}
  {as : List (Assertion Expr)} {as' : List (Assertion Native)}

section Values

variable (hmap : as.map (Assertion.map (Expr.value? t)) = as'.map (Assertion.map some))

include hmap

end Values

end Segment

end Script

end ForeignCurve
