import ForeignCurve.Field.Params

/-!
Short Weierstrass curves `y^2 = x^3 + a x + b`. The group order is prime and `b` is not zero, so no
point has `y = 0` and `(0, 0)` is free to stand for the point at infinity.
-/

namespace ForeignCurve

attribute [local instance] Native.natPow

/-- An affine point. `(0, 0)` stands for the point at infinity. -/
structure Point where
  x : Nat
  y : Nat
deriving DecidableEq

structure CurveParams where
  base : FieldParams
  scalar : FieldParams
  a : Nat
  b : Nat
  generator : Point
deriving DecidableEq

namespace CurveParams

def groupOrder (E : CurveParams) : Nat :=
  E.scalar.modulus

end CurveParams

def curve32Base : FieldParams where
  limbBits := 16
  limbs := 2
  witnessLimbs := 2
  offset := 2 ^ (17 : Nat)
  modulus := 4294966981

def curve32Scalar : FieldParams :=
  { curve32Base with modulus := 4294939651 }

def curve32 : CurveParams where
  base := curve32Base
  scalar := curve32Scalar
  a := 0
  b := 13
  generator := ⟨2, 213086585⟩

def secp256k1Base : FieldParams where
  limbBits := 16
  limbs := 16
  witnessLimbs := 30
  offset := 2 ^ (21 : Nat)
  modulus := 2 ^ (256 : Nat) - 2 ^ (32 : Nat) - 977

def secp256k1Scalar : FieldParams :=
  { secp256k1Base with
    modulus := 0xFFFFFFFFFFFFFFFFFFFFFFFFFFFFFFFEBAAEDCE6AF48A03BBFD25E8CD0364141 }

def secp256k1 : CurveParams where
  base := secp256k1Base
  scalar := secp256k1Scalar
  a := 0
  b := 7
  generator :=
    ⟨0x79BE667EF9DCBBAC55A06295CE870B07029BFCDB2DCE28D959F2815B16F81798,
      0x483ADA7726A3C4655DA4FBFC0E1108A8FD17B448A68554199C47D08FFB10D4B8⟩

end ForeignCurve
