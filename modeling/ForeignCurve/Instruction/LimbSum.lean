import ForeignCurve.Constraint.Assertion
import ForeignCurve.Instruction.Plan

namespace ForeignCurve

attribute [local instance] Native.natPow

inductive LimbOperand where
  | cells (s : CellSlice)
  | const (limbs : List Nat)
deriving DecidableEq

namespace LimbOperand

def length : LimbOperand → Nat
  | cells s => s.len
  | const limbs => limbs.length

def values [Arith V] (o : LimbOperand) (vs : CellValues V) : Except Abort (List V) :=
  match o with
  | cells s => vs.slice s
  | const limbs => do return (← Native.ofWords limbs).map Arith.const

def read (t : Trace) : LimbOperand → Except Fault (List Nat)
  | cells s => do return (← t.readSlice s).map (·.val)
  | const limbs => return limbs

end LimbOperand

/--
The sum `a + b = result`. The witness pass derives a result in cells; when the result is constant
and `b` is in cells, it derives `b`.
-/
structure LimbSum where
  a : CellSlice
  b : LimbOperand
  result : LimbOperand
  carries : RegisterArray .bit
  limbBits : Nat
deriving DecidableEq

namespace LimbSum

/--
The differences `a_i + b_i + carry_(i-1) - (result_i + carry_i * 2^b)`, lowest limb first. The carry
into the limb is `carryIn`, and the remaining carries are `carries`.
-/
def differences [Arith V] (base : Native) : Option V → List V → List V → List V → List V → List V
  | carryIn, a :: as, b :: bs, r :: rs, carries =>
    let lhs := Arith.add a b
    let lhs := match carryIn with
      | none => lhs
      | some c => Arith.add lhs c
    let rhs := match carries.head? with
      | none => r
      | some c => Arith.add r (Arith.mulConst c base)
    Arith.sub lhs rhs :: differences base carries.head? as bs rs carries.tail
  | _, _, _, _, _ => []

def assertions [Arith V] (s : LimbSum) (vs : CellValues V) : Except Abort (List (Assertion V)) := do
  let a ← vs.slice s.a
  let b ← s.b.values vs
  let result ← s.result.values vs
  let carries ← s.carries.toList.mapM fun r => vs.get r.start
  unless s.limbBits < 64 do
    throw .wordOverflow
  let base ← Native.ofWord (2 ^ s.limbBits)
  return (differences base none a b result carries).map .vanishes

def carryOut (limbBits i carry a b r : Nat) : Except Failure Nat := do
  let lhs := a + b + carry
  unless lhs < 2 ^ (64 : Nat) do
    throw (.abort .wordOverflow)
  unless r ≤ lhs do
    throw (.fault (.inconsistentLimb i))
  let excess := lhs - r
  unless limbBits < 64 do
    throw (.abort .wordOverflow)
  let carry := excess >>> limbBits
  unless excess = carry <<< limbBits ∧ carry ≤ 1 do
    throw (.fault (.inconsistentLimb i))
  return carry

/--
The carries between the limbs, from limb `i` on with carry `carry` into it. `limbs` is the number of
all limbs. The top limb has no carry.
-/
def carryBits (limbs limbBits : Nat) :
    Nat → Nat → List Nat → List Nat → List Nat → Except Failure (List Nat)
  | _, _, [], _, _ => return []
  | i, carry, a :: as, b :: bs, r :: rs => do
    let carry ← carryOut limbBits i carry a b r
    if as.isEmpty then
      unless carry = 0 do
        throw (.fault (.sumTooWide limbs))
      return []
    else
      return carry :: (← carryBits limbs limbBits (i + 1) carry as bs rs)
  | _, _, _ :: _, _, _ => throw (.abort .outOfBounds)

def carriesPlan (s : LimbSum) (a b result : List Nat) : Except Failure Plan := do
  let carries ← carryBits s.a.len s.limbBits 0 0 a b result
  return .writeArray .bit s.carries (carries.map Native.ofNat) .done

def derivedPlan (derived : CellSlice) (limbs : List Nat) (rest : Except Failure Plan) :
    Except Failure Plan := do
  return .write derived (← Native.ofWords limbs) (.ofExcept rest)

def plan (s : LimbSum) (t : Trace) : Except Failure Plan := do
  let limbs := s.a.len
  let a := (← t.readSlice s.a).map (·.val)
  match s.b, s.result with
  | b, .cells result => do
    let b ← b.read t
    let sum := Limbs.decode s.limbBits a + Limbs.decode s.limbBits b
    unless bitLength sum ≤ limbs * s.limbBits do
      throw (.fault (.sumTooWide limbs))
    let r := Limbs.encode s.limbBits limbs sum
    derivedPlan result r (s.carriesPlan a b r)
  | .cells b, .const r => do
    let subtrahend := Limbs.decode s.limbBits a
    let minuend := Limbs.decode s.limbBits r
    unless subtrahend ≤ minuend do
      throw (.fault (.negativeDifference subtrahend minuend))
    let difference ← checkedSub minuend subtrahend
    let d := Limbs.encode s.limbBits limbs difference
    derivedPlan b d (s.carriesPlan a d r)
  | .const b, .const r => s.carriesPlan a b r

end LimbSum

end ForeignCurve
