import ForeignCurve.Constraint.Assertion
import ForeignCurve.Instruction.Plan
import ForeignCurve.Poly

/-!
Foreign field operations. `a + b` or `a * b` equals `result + carry * p` over the integers; as
polynomials whose coefficients are limbs, the difference of the two sides vanishes at `2^b`, so it is
a multiple of `x - 2^b`. The quotient is the witness: every coefficient is shifted by the offset and
split into two limbs.
-/

namespace ForeignCurve

attribute [local instance] Native.natPow

structure Identity (P : FieldParams) where
  a : FieldRegister P
  b : FieldRegister P
  result : FieldRegister P
  carry : FieldRegister P
  low : RegisterArray (.limb P.limbBits)
  high : RegisterArray (.limb P.limbBits)
deriving DecidableEq

namespace Identity

variable {P : FieldParams}

def base (P : FieldParams) : Native :=
  Native.ofNat (2 ^ P.limbBits)

section Constraints

variable [Arith V]

def quotientConstraints (P : FieldParams) (vanishing low high : List V) : List V :=
  let shifted := Arith.polyAdd low (Arith.polyScale high (Arith.const (base P)))
  let w := Arith.polyShift shifted (Arith.const (Native.ofNat P.offset))
  Arith.polySub vanishing (Arith.polyMulConst w [-(base P), 1])

def assertions (combine : List V → List V → List V) (m : Identity P) (vs : CellValues V) :
    Except Abort (List (Assertion V)) := do
  let a ← vs.slice m.a.slice
  let b ← vs.slice m.b.slice
  let result ← vs.slice m.result.slice
  let carry ← vs.slice m.carry.slice
  let modulus ← P.encode P.modulus
  let vanishing :=
    Arith.polySub (Arith.polySub (combine a b) result)
      (Arith.polyMul carry (Arith.constPoly modulus))
  let low ← m.low.toList.mapM fun r => vs.get r.start
  let high ← m.high.toList.mapM fun r => vs.get r.start
  return (quotientConstraints P vanishing low high).map .vanishes

end Constraints

def quotient (P : FieldParams) (vanishing : Poly) : Except Fault (List Native) := do
  unless vanishing.eval (base P) = 0 do
    throw (.identityNotVanishing P.limbBits)
  (vanishing.rootQuotient (base P)).coeffs.mapM fun c => do
    let shifted := c + Native.ofNat P.offset
    unless shifted.val < 2 ^ (2 * P.limbBits) do
      throw .quotientOutOfRange
    return shifted

def witnessPlan (m : Identity P) (lhs : Poly) (result : List Native) (carry : Nat) :
    Except Failure Plan := do
  let modulus ← P.encode P.modulus
  let carry ← P.encode carry
  let w ← quotient P (lhs - ⟨result⟩ - (⟨carry⟩ * ⟨modulus⟩ : Poly))
  let low ← Native.ofWords (w.map fun c => c.val % 2 ^ P.limbBits)
  let high ← Native.ofWords (w.map fun c => c.val >>> P.limbBits)
  return .write m.carry.slice carry (.writeArray _ m.low low (.writeArray _ m.high high .done))

def sumPlan (m : Identity P) (a b : List Native) : Except Failure Plan := do
  let sum := P.decode a + P.decode b
  let result ← P.encode (← P.reduce sum)
  return .write m.result.slice result
    (.ofExcept (m.witnessPlan (⟨a⟩ + ⟨b⟩) result (sum / P.modulus)))

/--
Computes the summand `b` of an identity `a + b = result + carry * p` whose sum is given: the
difference of the result and `a`.
-/
def differencePlan (m : Identity P) (a result : List Native) : Except Failure Plan := do
  let subtrahend := P.decode a
  let minuend := P.decode result
  let d ← checkedSub (P.modulus + (← P.reduce minuend)) (← P.reduce subtrahend)
  let difference ← P.reduce d
  unless minuend ≤ subtrahend + difference do
    throw (.fault (.unreducedMinuend minuend P.modulus))
  let excess ← checkedSub (subtrahend + difference) minuend
  let b ← P.encode difference
  return .write m.b.slice b
    (.ofExcept (m.witnessPlan (⟨a⟩ + ⟨b⟩) result (excess / P.modulus)))

def productPlan (m : Identity P) (a b : List Native) : Except Failure Plan := do
  let product := P.decode a * P.decode b
  let residue ← P.reduce product
  unless product / P.modulus < 2 ^ P.bits do
    throw (.fault (.unreducedFactors P.modulus))
  let result ← P.encode residue
  return .write m.result.slice result
    (← m.witnessPlan (⟨a⟩ * ⟨b⟩) result (product / P.modulus))

end Identity

end ForeignCurve
