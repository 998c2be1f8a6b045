import ForeignCurve.Gadget.Limb

namespace ForeignCurve.Gadget

variable {P : FieldParams}

def constant (P : FieldParams) (value : Nat) : Record (FieldRegister P) := do
  Record.requireHeadroom P
  let a ← Record.alloc (.field P)
  setConstant a (← P.encode (← P.reduce value))
  return a

def zero (P : FieldParams) : Record (FieldRegister P) :=
  constant P 0

def one (P : FieldParams) : Record (FieldRegister P) :=
  constant P 1

def assertEqualConstant (a : FieldRegister P) (value : Nat) : Record Unit := do
  Record.requireHeadroom P
  assertConstant a (← P.encode (← P.reduce value))

def assertZero (a : FieldRegister P) : Record Unit :=
  assertEqualConstant a 0

def identity (a b result : FieldRegister P) : Record (Identity P) := do
  Record.requireHeadroom P
  let carry ← Record.alloc (.field P)
  let low ← Record.allocArray (.limb P.limbBits) P.witnessLimbs
  let high ← Record.allocArray (.limb P.limbBits) P.witnessLimbs
  return { a, b, result, carry, low, high }

def setAdd (a b result : FieldRegister P) : Record Unit := do
  Record.append (.fieldSum P (← identity a b result))

def setSub (a b result : FieldRegister P) : Record Unit := do
  Record.append (.fieldDifference P (← identity b result a))

def setMul (a b result : FieldRegister P) : Record Unit := do
  Record.append (.fieldProduct P (← identity a b result))

def add (a b : FieldRegister P) : Record (FieldRegister P) := do
  let result ← Record.alloc (.field P)
  setAdd a b result
  return result

def sub (a b : FieldRegister P) : Record (FieldRegister P) := do
  let result ← Record.alloc (.field P)
  setSub a b result
  return result

def mul (a b : FieldRegister P) : Record (FieldRegister P) := do
  let result ← Record.alloc (.field P)
  setMul a b result
  return result

def neg (a : FieldRegister P) : Record (FieldRegister P) := do
  sub (← zero P) a

def blend (selector a b : FieldRegister P) : Record (FieldRegister P) := do
  let difference ← sub a b
  let shift ← mul selector difference
  add b shift

def inverseHint (a : FieldRegister P) (allowZero : Bool) : Record (FieldRegister P) := do
  Record.requireHeadroom P
  let result ← Record.alloc (.field P)
  Record.append (.inverse P a result allowZero)
  return result

def div (a b : FieldRegister P) : Record (FieldRegister P) := do
  let inverse ← inverseHint b false
  let unit ← mul b inverse
  assertEqualConstant unit 1
  mul a inverse

/--
The inverse of `a`, or zero, together with the indicator of `a = 0`. With `z` for the inverse and
`ind` for the indicator, `ind = 1 - a * z`, `a * ind = 0` and `z * ind = 0`.
-/
def inverseOrZero (a : FieldRegister P) : Record (FieldRegister P × FieldRegister P) := do
  let inverse ← inverseHint a true
  let product ← mul a inverse
  let indicator ← sub (← one P) product
  assertZero (← mul a indicator)
  assertZero (← mul inverse indicator)
  return (inverse, indicator)

def isZero (a : FieldRegister P) : Record (FieldRegister P) := do
  return (← inverseOrZero a).2

/--
Asserts that the limbs of `a` are those of a number below `p`: the sum of `a` and the complement of
`p` has no carry out of the top limb.
-/
def assertCanonical (a : FieldRegister P) : Record Unit := do
  Record.requireHeadroom P
  let sum ← Record.alloc (.field P)
  let complement ← P.complement
  let limbs := Limbs.encode P.limbBits P.limbs complement
  let _ ← limbSum a.slice (.const limbs) (.cells sum.slice) P.limbBits

end ForeignCurve.Gadget
