import ForeignCurve.Gadget.ScalarMul

/-!
Recordings: what a caller asks of a builder, as data. A recording is a list of calls, and every call
answers with the runs of cells of the registers that it returns.
-/

namespace ForeignCurve

inductive Call where
  | alloc (k : Kind)
  | allocArray (k : Kind) (length : Nat)
  | allocPoint (P : FieldParams)
  | constantPoint (P : FieldParams) (p : Point)
  | select (k : Kind) (bit : Register .bit) (a b : Register k)
  | setSelect (bit : Register .bit) (a b result : CellSlice)
  | setConstant (target : CellSlice) (values : List Native)
  | assertConstant (target : CellSlice) (values : List Native)
  | setToCopy (source target : CellSlice)
  | decompose (value : Register .element) (count : Nat)
  | greaterThan (value : CellSlice) (bound limbBits : Nat)
  | limbSum (a : CellSlice) (b result : LimbOperand) (limbBits : Nat)
  | constant (P : FieldParams) (value : Nat)
  | assertEqualConstant (P : FieldParams) (a : FieldRegister P) (value : Nat)
  | assertCanonical (P : FieldParams) (a : FieldRegister P)
  | add (P : FieldParams) (a b : FieldRegister P)
  | sub (P : FieldParams) (a b : FieldRegister P)
  | mul (P : FieldParams) (a b : FieldRegister P)
  | div (P : FieldParams) (a b : FieldRegister P)
  | neg (P : FieldParams) (a : FieldRegister P)
  | blend (P : FieldParams) (selector a b : FieldRegister P)
  | setAdd (P : FieldParams) (a b result : FieldRegister P)
  | setSub (P : FieldParams) (a b result : FieldRegister P)
  | setMul (P : FieldParams) (a b result : FieldRegister P)
  | inverseHint (P : FieldParams) (a : FieldRegister P) (allowZero : Bool)
  | inverseOrZero (P : FieldParams) (a : FieldRegister P)
  | isZero (P : FieldParams) (a : FieldRegister P)
  | chordAdd (P : FieldParams) (p q : PointRegister P)
  | double (P : FieldParams) (p : PointRegister P) (a : FieldRegister P)
  | doubleAndAdd (P : FieldParams) (t q : PointRegister P)
  | negPoint (P : FieldParams) (p : PointRegister P)
  | selectPoint (P : FieldParams) (bit : Register .bit) (p q : PointRegister P)
  | addPoint (E : CurveParams) (p q : PointRegister E.base)
  | setAddPoint (E : CurveParams) (p q result : PointRegister E.base)
  | completeSum (E : CurveParams) (p q : PointRegister E.base)
  | scalarMul (E : CurveParams) (scalar : FieldRegister E.scalar) (point : PointRegister E.base)
  | setScalarMul (E : CurveParams) (scalar : FieldRegister E.scalar)
      (point result : PointRegister E.base)

namespace PointRegister

def slices (p : PointRegister P) : List CellSlice :=
  [p.x.slice, p.y.slice]

end PointRegister

namespace Call

def register (x : Record (Register k)) : Record (List CellSlice) := do
  return [(← x).slice]

def array (x : Record (RegisterArray k)) : Record (List CellSlice) := do
  return [(← x).slice]

def point (x : Record (PointRegister P)) : Record (List CellSlice) := do
  return (← x).slices

def nothing (x : Record Unit) : Record (List CellSlice) := do
  x
  return []

def run : Call → Record (List CellSlice)
  | alloc k => register (Record.alloc k)
  | allocArray k length => array (Record.allocArray k length)
  | allocPoint P => point (Record.allocPoint P)
  | constantPoint P p => point (Gadget.constantPoint P p)
  | select _ bit a b => register (Gadget.select bit a b)
  | setSelect bit a b result => nothing (Record.append (.select bit a b result))
  | setConstant target values => nothing (Record.append (.constant target values true))
  | assertConstant target values => nothing (Record.append (.constant target values false))
  | setToCopy source target => nothing (Record.append (.copy source target))
  | decompose value count => array (Gadget.decompose value count)
  | greaterThan value bound limbBits => register (Gadget.greaterThan value bound limbBits)
  | limbSum a b result limbBits => do
    let _ ← Gadget.limbSum a b result limbBits
    return []
  | constant P value => register (Gadget.constant P value)
  | assertEqualConstant _ a value => nothing (Gadget.assertEqualConstant a value)
  | assertCanonical _ a => nothing (Gadget.assertCanonical a)
  | add _ a b => register (Gadget.add a b)
  | sub _ a b => register (Gadget.sub a b)
  | mul _ a b => register (Gadget.mul a b)
  | div _ a b => register (Gadget.div a b)
  | neg _ a => register (Gadget.neg a)
  | blend _ selector a b => register (Gadget.blend selector a b)
  | setAdd _ a b result => nothing (Gadget.setAdd a b result)
  | setSub _ a b result => nothing (Gadget.setSub a b result)
  | setMul _ a b result => nothing (Gadget.setMul a b result)
  | inverseHint _ a allowZero => register (Gadget.inverseHint a allowZero)
  | inverseOrZero _ a => do
    let (inverse, indicator) ← Gadget.inverseOrZero a
    return [inverse.slice, indicator.slice]
  | isZero _ a => register (Gadget.isZero a)
  | chordAdd _ p q => point (Gadget.chordAdd p q)
  | double _ p a => point (Gadget.double p a)
  | doubleAndAdd _ t q => point (Gadget.doubleAndAdd t q)
  | negPoint _ p => point (Gadget.negPoint p)
  | selectPoint _ bit p q => point (Gadget.selectPoint bit p q)
  | addPoint E p q => point (Gadget.addPoint E p q)
  | setAddPoint E p q result => nothing (Gadget.setAddPoint E p q result)
  | completeSum E p q => do
    let s ← Gadget.completeSum E p q
    return s.result.slices ++ [s.slope.slice, s.pIsIdentity.slice, s.qIsIdentity.slice,
      s.sameX.slice, s.oppositeY.slice]
  | scalarMul E scalar p => point (Gadget.scalarMul E scalar p)
  | setScalarMul E scalar p result => nothing (Gadget.setScalarMul E scalar p result)

end Call

end ForeignCurve
