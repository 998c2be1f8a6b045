import ForeignCurve.Limbs

/-!
Parameters of a foreign field: its modulus and the way its elements are written in limbs. `headroom`
decides whether every identity of the field instructions is exact over the native field.
-/

namespace ForeignCurve

attribute [local instance] Native.natPow

/-- A foreign field and its limb encoding. -/
structure FieldParams where
  limbBits : Nat
  limbs : Nat
  witnessLimbs : Nat
  offset : Nat
  modulus : Nat
deriving DecidableEq

namespace FieldParams

def maxLimbBits : Nat := 28

def bits (P : FieldParams) : Nat :=
  P.limbBits * P.limbs

def complement (P : FieldParams) : Except Abort Nat :=
  checkedSub (2 ^ P.bits) P.modulus

def quotientBound (P : FieldParams) : Nat :=
  P.limbs * 2 ^ P.limbBits

def maxCoefficient (P : FieldParams) : Nat :=
  P.limbs * 2 ^ (3 * P.limbBits + 2)

/-- Checks that the identities of the field instructions are exact over the native field. -/
def headroom (P : FieldParams) : Except HeadroomFault Unit :=
  if P.limbs = 0 then .error .noLimbs
  else if P.limbBits = 0 ∨ maxLimbBits < P.limbBits then .error (.limbWidth P.limbBits)
  else if 2 ^ P.bits ≤ P.modulus then .error (.modulusTooWide P.modulus P.limbs P.limbBits)
  else if P.witnessLimbs ≠ 2 * P.limbs - 2 then
    .error (.witnessLength (2 * P.limbs - 2) P.witnessLimbs)
  else if P.offset < P.quotientBound then .error (.offsetTooSmall P.offset P.quotientBound)
  else if 2 ^ (2 * P.limbBits) < 2 * P.offset then .error (.offsetTooLarge P.offset)
  else if order ≤ P.maxCoefficient then .error (.nativeOverflow P.limbs P.limbBits)
  else .ok ()

def reduce (P : FieldParams) (value : Nat) : Except Abort Nat :=
  if P.modulus = 0 then .error .zeroModulus else .ok (value % P.modulus)

def encode (P : FieldParams) (value : Nat) : Except Abort (List Native) :=
  Native.ofWords (Limbs.encode P.limbBits P.limbs value)

def decode (P : FieldParams) (limbs : List Native) : Nat :=
  Limbs.decodeNative P.limbBits limbs

theorem reduce_eq_ok {P : FieldParams} (h : P.modulus ≠ 0) (value : Nat) :
    P.reduce value = .ok (value % P.modulus) := by
  simp [reduce, h]

theorem encode_eq_ok {P : FieldParams} (h : P.limbBits < 64) (value : Nat) :
    P.encode value = .ok ((Limbs.encode P.limbBits P.limbs value).map Native.ofNat) := by
  apply Native.ofWords_eq_ok
  intro w hw
  have hlt := Limbs.lt_of_mem_encode hw
  have hpow : 2 ^ P.limbBits ≤ 2 ^ 63 := Nat.pow_le_pow_right (by decide) (by omega)
  have horder : 2 ^ 63 < order := by decide
  omega

end FieldParams

def powMod (base exponent modulus : Nat) : Nat :=
  go (bitLength exponent) (base % modulus) exponent (1 % modulus)
where
  go : Nat → Nat → Nat → Nat → Nat
    | 0, _, _, acc => acc
    | digits + 1, square, exponent, acc =>
      go digits (square * square % modulus) (exponent / 2)
        (if exponent % 2 = 1 then acc * square % modulus else acc)

end ForeignCurve
