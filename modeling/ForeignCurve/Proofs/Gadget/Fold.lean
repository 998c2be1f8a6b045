import ForeignCurve.Proofs.Gadget.Grows

namespace ForeignCurve

-- the instance for the rest of a gadget is as large as the gadget is long
set_option synthInstance.maxSize 1000000

namespace Gadget

structure Folding (E : CurveParams) where
  scalar : FieldRegister E.scalar
  bits : List (Register .bit)
  a : FieldRegister E.base
  point : PointRegister E.base

def Folding.runs {E : CurveParams} (f : Folding E) : List CellSlice :=
  [f.scalar.slice, f.a.slice, f.point.x.slice, f.point.y.slice] ++ f.bits.map (·.slice)

def fold (E : CurveParams) (scalar : FieldRegister E.scalar) (point : PointRegister E.base) :
    Record (Folding E) := do
  let folded ← foldScalar E scalar
  let bits ← scalarBits folded.2
  let a ← constant E.base E.a
  let negY ← neg point.y
  let y ← select folded.1 negY point.y
  return ⟨folded.2, bits, a, ⟨point.x, y⟩⟩

def multiplyFolded (E : CurveParams) (digits : Nat) (f : Folding E) :
    Record (PointRegister E.base) := do
  let multiples ← oddMultiples f.a f.point
  let acc ← selectPoint (← bitAt f.bits.toArray (2 * digits - 1)) multiples.p3 multiples.p1
  let acc ← digitSteps f.a f.bits.toArray multiples (digits - 1) acc
  let even ← addPoint E acc multiples.neg1
  let result ← selectPoint (← bitAt f.bits.toArray 0) acc even
  assertCanonical result.x
  assertCanonical result.y
  return result

theorem scalarMul_eq (E : CurveParams) (scalar : FieldRegister E.scalar) (point : PointRegister E.base) :
    scalarMul E scalar point = (do
      let half ← E.halfOrder
      let f ← fold E scalar point
      multiplyFolded E (CurveParams.digitCount half) f) := by
  unfold scalarMul fold multiplyFolded
  simp only [bind_assoc, pure_bind]

end Gadget

namespace Grows

variable (E : CurveParams)

instance fold (scalar : FieldRegister E.scalar) (point : PointRegister E.base) :
    Grows (Gadget.fold E scalar point) := by
  unfold Gadget.fold
  infer_instance

instance multiplyFolded (digits : Nat) (f : Gadget.Folding E) : Grows (Gadget.multiplyFolded E digits f) := by
  unfold Gadget.multiplyFolded
  infer_instance

end Grows

end ForeignCurve
