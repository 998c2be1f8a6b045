import ForeignCurve.Chip
import ForeignCurve.Gadget.ScalarMul

/-!
Components: gadgets with a fixed shape of inputs. Their sizes depend on static parameters alone, and
are found by recording them once.
-/

namespace ForeignCurve

structure Component (ι ο : Type) where
  allocInput : Record ι
  generate : ι → Record ο

namespace Component

def sample (c : Component ι ο) : Except Abort (Builder × Builder) := do
  let (input, before) ← c.allocInput.run .empty
  let (_, after) ← (c.generate input).run before
  return (before, after)

def cellsAmount (c : Component ι ο) : Except Abort Nat := do
  let (before, after) ← c.sample
  return after.numCells - before.numCells

def rowsAmount (c : Component ι ο) (width : Nat) : Except Failure Nat := do
  let (_, after) ← c.sample
  let layout ← Layout.ofWidth width
  return layout.rowsAmount after.numCells

def manifest (c : Component ι ο) : Except Abort Manifest := do
  return (← c.sample).2.manifest

def pointSum (E : CurveParams) :
    Component (PointRegister E.base × PointRegister E.base) (PointRegister E.base) where
  allocInput := do
    let p ← Record.allocPoint E.base
    let q ← Record.allocPoint E.base
    return (p, q)
  generate input := Gadget.addPoint E input.1 input.2

def scalarMul (E : CurveParams) :
    Component (FieldRegister E.scalar × PointRegister E.base) (PointRegister E.base) where
  allocInput := do
    let scalar ← Record.alloc (.field E.scalar)
    let point ← Record.allocPoint E.base
    return (scalar, point)
  generate input := Gadget.scalarMul E input.1 input.2

end Component

end ForeignCurve
