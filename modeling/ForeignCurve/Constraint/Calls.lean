import ForeignCurve.Constraint.ArithM
import ForeignCurve.Constraint.Emitter

namespace ForeignCurve

namespace Emitter

instance : ArithM Native NodeId Emit where
  const := const
  add := add
  sub := sub
  neg := neg
  mul := mul

export ArithM (addConst subConst mulConst constPoly polyAdd polySub polyShift polyScale polyMul
  polyMulConst)

def assertEqual (a b : NodeId) : Emit Unit := do
  constraint (← sub a b)

end Emitter

end ForeignCurve
