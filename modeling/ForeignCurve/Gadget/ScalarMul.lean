import ForeignCurve.Gadget.Point

/-!
Scalar multiplication with a folded scalar and signed digits. The scalar `s` is folded into
`c = min s (n - s)`, and the point is negated when `s` is the larger half. The odd number `c ||| 1` is
the sum of `d_i * 4^i` with every digit in `-3, -1, 1, 3`, read off the binary digits of `c`: below the
top, `d_i = 2 * c_(2i+1) + 4 * c_(2i+2) - 3`, and the top digit is `1 + 2 * c_(2m-1)`. An even `c` is
mended by a complete subtraction of the point at the end.
-/

namespace ForeignCurve

namespace CurveParams

def halfOrder (E : CurveParams) : Except Abort Nat := do
  return (← checkedSub E.groupOrder 1) / 2

def digitCount (half : Nat) : Nat :=
  max ((bitLength half + 1) / 2) 1

end CurveParams

namespace Gadget

/--
Folds a canonical scalar `s` into `c = min s (n - s)`, and returns a bit that is set when `c = n - s`.
The fold is unique: `c` is at most `(n - 1) / 2`.
-/
def foldScalar (E : CurveParams) (scalar : FieldRegister E.scalar) :
    Record (Register .bit × FieldRegister E.scalar) := do
  let S := E.scalar
  let half ← E.halfOrder
  assertCanonical scalar
  let complement ← Record.alloc (.field S)
  let order := Limbs.encode S.limbBits S.limbs E.groupOrder
  let _ ← limbSum scalar.slice (.cells complement.slice) (.const order) S.limbBits
  let negate ← greaterThan scalar.slice half S.limbBits
  let folded ← select negate complement scalar
  let slack ← Record.alloc (.field S)
  let bound := Limbs.encode S.limbBits S.limbs half
  let _ ← limbSum folded.slice (.cells slack.slice) (.const bound) S.limbBits
  return (negate, folded)

def scalarBits (scalar : FieldRegister S) : Record (List (Register .bit)) :=
  go scalar.start S.limbs
where
  go : Nat → Nat → Record (List (Register .bit))
    | _, 0 => return []
    | cell, limbs + 1 => do
      let bits ← decompose ⟨cell⟩ S.limbBits
      return bits.toList ++ (← go (cell + 1) limbs)

structure OddMultiples (P : FieldParams) where
  p1 : PointRegister P
  p3 : PointRegister P
  neg1 : PointRegister P
  neg3 : PointRegister P

def oddMultiples (a : FieldRegister P) (p : PointRegister P) : Record (OddMultiples P) := do
  let p2 ← double p a
  let p3 ← chordAdd p2 p
  let neg1 ← negPoint p
  let neg3 ← negPoint p3
  return { p1 := p, p3, neg1, neg3 }

def bitAt (bits : Array (Register .bit)) (i : Nat) : Record (Register .bit) :=
  match bits[i]? with
  | some bit => return bit
  | none => throw .outOfBounds

def digitSteps (a : FieldRegister P) (bits : Array (Register .bit)) (m : OddMultiples P) :
    Nat → PointRegister P → Record (PointRegister P)
  | 0, acc => return acc
  | i + 1, acc => do
    let positive ← selectPoint (← bitAt bits (2 * i + 1)) m.p3 m.p1
    let negative ← selectPoint (← bitAt bits (2 * i + 1)) m.neg1 m.neg3
    let digit ← selectPoint (← bitAt bits (2 * i + 2)) positive negative
    let twice ← double acc a
    let acc ← doubleAndAdd twice digit
    digitSteps a bits m i acc

/--
The multiple of a point by a canonical scalar. The point is on the curve and not the point at
infinity; a zero scalar yields the point at infinity.
-/
def scalarMul (E : CurveParams) (scalar : FieldRegister E.scalar) (point : PointRegister E.base) :
    Record (PointRegister E.base) := do
  let half ← E.halfOrder
  let digits := CurveParams.digitCount half
  let (negate, folded) ← foldScalar E scalar
  let bits := (← scalarBits folded).toArray
  let a ← constant E.base E.a
  let negY ← neg point.y
  let y ← select negate negY point.y
  let multiples ← oddMultiples a ⟨point.x, y⟩
  let acc ← selectPoint (← bitAt bits (2 * digits - 1)) multiples.p3 multiples.p1
  let acc ← digitSteps a bits multiples (digits - 1) acc
  let even ← addPoint E acc multiples.neg1
  let result ← selectPoint (← bitAt bits 0) acc even
  assertCanonical result.x
  assertCanonical result.y
  return result

def setScalarMul (E : CurveParams) (scalar : FieldRegister E.scalar)
    (point result : PointRegister E.base) : Record Unit := do
  setToCopyPoint (← scalarMul E scalar point) result

end Gadget

end ForeignCurve
