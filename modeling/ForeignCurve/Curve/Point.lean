import ForeignCurve.Curve.Params

namespace ForeignCurve

namespace Point

def identity : Point := ⟨0, 0⟩

def isIdentity (P : Point) : Bool :=
  P.x = 0 ∧ P.y = 0

def onCurve (E : CurveParams) (P : Point) : Bool :=
  P.isIdentity ||
    P.y * P.y % E.base.modulus = (P.x * P.x * P.x + E.a * P.x + E.b) % E.base.modulus

def neg (E : CurveParams) (P : Point) : Except Abort Point := do
  let y ← checkedSub E.base.modulus P.y
  return ⟨P.x, y % E.base.modulus⟩

def divide (E : CurveParams) (numerator denominator : Nat) : Except Abort Nat := do
  let p := E.base.modulus
  let exponent ← checkedSub p 2
  return numerator * powMod denominator exponent p % p

def chord (E : CurveParams) (P : Point) (x slope : Nat) : Except Abort Point := do
  let p := E.base.modulus
  let u ← checkedSub (slope * slope + p + p) P.x
  let u ← checkedSub u x
  let x := u % p
  let v ← checkedSub (p + P.x) x
  let v ← checkedSub (slope * v + p) P.y
  return ⟨x, v % p⟩

def double (E : CurveParams) (P : Point) : Except Abort Point := do
  if P.y = 0 then
    return identity
  let p := E.base.modulus
  let slope ← divide E ((E.a + P.x * P.x * 3) % p) (P.y * 2 % p)
  chord E P P.x slope

/-- Complete addition. Abscissas are compared as integers. -/
def add (E : CurveParams) (P Q : Point) : Except Abort Point := do
  if P.isIdentity then
    return Q
  if Q.isIdentity then
    return P
  let p := E.base.modulus
  if P.x = Q.x then
    if (P.y + Q.y) % p = 0 then
      return identity
    return ← double E P
  let dy ← checkedSub (p + Q.y) P.y
  let dx ← checkedSub (p + Q.x) P.x
  let slope ← divide E (dy % p) (dx % p)
  chord E P Q.x slope

def mul (E : CurveParams) (P : Point) (scalar : Nat) : Except Abort Point :=
  go (bitLength scalar) scalar identity P
where
  go : Nat → Nat → Point → Point → Except Abort Point
    | 0, _, acc, _ => return acc
    | digits + 1, scalar, acc, power => do
      let acc ← if scalar % 2 = 1 then add E acc power else pure acc
      let power ← double E power
      go digits (scalar / 2) acc power

end Point

end ForeignCurve
