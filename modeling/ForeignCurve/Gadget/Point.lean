import ForeignCurve.Gadget.Field

/-!
Gadgets for points. `chordAdd`, `double` and `doubleAndAdd` are incomplete: they have no witness where
a slope has a zero denominator. `add` is complete.
-/

namespace ForeignCurve.Gadget

variable {P : FieldParams}

def constantPoint (P : FieldParams) (p : Point) : Record (PointRegister P) := do
  let x ← constant P p.x
  let y ← constant P p.y
  return ⟨x, y⟩

def chordSlope (p q : PointRegister P) : Record (FieldRegister P) := do
  let numerator ← sub q.y p.y
  let denominator ← sub q.x p.x
  div numerator denominator

def tangentNumerator (x a : FieldRegister P) : Record (FieldRegister P) := do
  let square ← mul x x
  let twice ← add square square
  let thrice ← add twice square
  add thrice a

def tangentSlope (p : PointRegister P) (a : FieldRegister P) : Record (FieldRegister P) := do
  let numerator ← tangentNumerator p.x a
  let denominator ← add p.y p.y
  div numerator denominator

def addWithSlope (p q : PointRegister P) (slope : FieldRegister P) : Record (PointRegister P) := do
  let square ← mul slope slope
  let x ← sub square p.x
  let x ← sub x q.x
  let y ← sub p.x x
  let y ← mul slope y
  let y ← sub y p.y
  return ⟨x, y⟩

def chordAdd (p q : PointRegister P) : Record (PointRegister P) := do
  let slope ← chordSlope p q
  addWithSlope p q slope

def double (p : PointRegister P) (a : FieldRegister P) : Record (PointRegister P) := do
  let slope ← tangentSlope p a
  addWithSlope p p slope

def negPoint (p : PointRegister P) : Record (PointRegister P) := do
  let y ← neg p.y
  return ⟨p.x, y⟩

def selectPoint (bit : Register .bit) (p q : PointRegister P) : Record (PointRegister P) := do
  let x ← select bit p.x q.x
  let y ← select bit p.y q.y
  return ⟨x, y⟩

/--
The point `2 * t + q`, without the ordinate of `t + q`. With `t + q = (x, y)` the second slope is
`-(slope + 2 * t.y / (x - t.x))`, in which `y` cancels out.
-/
def doubleAndAdd (t q : PointRegister P) : Record (PointRegister P) := do
  let slope ← chordSlope t q
  let square ← mul slope slope
  let x ← sub square t.x
  let x ← sub x q.x
  let twice ← add t.y t.y
  let dx ← sub x t.x
  let ratio ← div twice dx
  let slope ← add slope ratio
  let square ← mul slope slope
  let xr ← sub square t.x
  let xr ← sub xr x
  let dx ← sub xr t.x
  let yr ← mul slope dx
  let yr ← sub yr t.y
  return ⟨xr, yr⟩

structure CompleteSum (P : FieldParams) where
  result : PointRegister P
  slope : FieldRegister P
  pIsIdentity : FieldRegister P
  qIsIdentity : FieldRegister P
  sameX : FieldRegister P
  oppositeY : FieldRegister P

def assertChord (slope dx dy : FieldRegister P) : Record Unit := do
  let rise ← mul slope dx
  let chord ← sub rise dy
  assertZero (← mul dx chord)

/--
Asserts that `slope` is the tangent's where two finite points are equal:
`(1 - pIsIdentity) * sameX * (1 - oppositeY) * (2 * p.y * slope - 3 * p.x^2 - a) = 0`.
-/
def assertTangent (p : PointRegister P) (slope one a pIsIdentity sameX oppositeY : FieldRegister P) :
    Record Unit := do
  let finite ← sub one pIsIdentity
  let notOpposite ← sub one oppositeY
  let equal ← mul finite sameX
  let equal ← mul equal notOpposite
  let twice ← add p.y p.y
  let lhs ← mul twice slope
  let rhs ← tangentNumerator p.x a
  let tangent ← sub lhs rhs
  assertZero (← mul equal tangent)

/--
Adds two points with no restriction on where they are: all cases are computed, the result is picked
by blends of the indicators, and its limbs are canonical.
-/
def completeSum (E : CurveParams) (p q : PointRegister E.base) : Record (CompleteSum E.base) := do
  let a ← constant E.base E.a
  let one ← one E.base
  let zero ← zero E.base
  let pIsIdentity ← isZero p.y
  let qIsIdentity ← isZero q.y
  let dx ← sub q.x p.x
  let dy ← sub q.y p.y
  let sameX ← isZero dx
  let ySum ← add p.y q.y
  let oppositeY ← isZero ySum
  let slope ← Record.alloc (.field E.base)
  Record.append (.slope E p q slope)
  assertChord slope dx dy
  assertTangent p slope one a pIsIdentity sameX oppositeY
  let generic ← addWithSlope p q slope
  let opposite ← mul sameX oppositeY
  let x ← blend opposite zero generic.x
  let y ← blend opposite zero generic.y
  let x ← blend qIsIdentity p.x x
  let y ← blend qIsIdentity p.y y
  let x ← blend pIsIdentity q.x x
  let y ← blend pIsIdentity q.y y
  assertCanonical x
  assertCanonical y
  return { result := ⟨x, y⟩, slope, pIsIdentity, qIsIdentity, sameX, oppositeY }

def addPoint (E : CurveParams) (p q : PointRegister E.base) : Record (PointRegister E.base) := do
  return (← completeSum E p q).result

def setToCopyPoint (source target : PointRegister P) : Record Unit := do
  setToCopy source.x target.x
  setToCopy source.y target.y

def setAddPoint (E : CurveParams) (p q result : PointRegister E.base) : Record Unit := do
  setToCopyPoint (← addPoint E p q) result

end ForeignCurve.Gadget
