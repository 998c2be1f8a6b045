import ForeignCurve.Constraint.Calls
import ForeignCurve.Instruction.Basic

namespace ForeignCurve

attribute [local instance] Native.natPow

open Emitter

namespace LimbOperand

def emit : LimbOperand → Emit (List NodeId)
  | cells s => slice s
  | const limbs => do
    let words ← Native.ofWords limbs
    words.mapM Emitter.const

end LimbOperand

namespace LimbSum

def addCarryIn (lhs : NodeId) : Option NodeId → Emit NodeId
  | none => return lhs
  | some c => add lhs c

def addCarryOut (base : Native) (r : NodeId) : Option NodeId → Emit NodeId
  | none => return r
  | some c => do add r (← mulConst c base)

def emitLimbs (base : Native) :
    Option NodeId → List NodeId → List NodeId → List NodeId → List NodeId → Emit Unit
  | carryIn, a :: as, b :: bs, r :: rs, carries => do
    let lhs ← add a b
    let lhs ← addCarryIn lhs carryIn
    let rhs ← addCarryOut base r carries.head?
    constraint (← sub lhs rhs)
    emitLimbs base carries.head? as bs rs carries.tail
  | _, _, _, _, _ => return

def emit (s : LimbSum) : Emit Unit := do
  let a ← slice s.a
  let b ← s.b.emit
  let result ← s.result.emit
  let carries ← s.carries.toList.mapM fun r => cell r.start
  unless s.limbBits < 64 do
    throw .wordOverflow
  let base ← Native.ofWord (2 ^ s.limbBits)
  emitLimbs base none a b result carries

end LimbSum

namespace Identity

variable {P : FieldParams}

def emitQuotient (P : FieldParams) (vanishing low high : List NodeId) : Emit Unit := do
  let limb ← const (base P)
  let high ← polyScale high limb
  let shifted ← polyAdd low high
  let offset ← const (Native.ofNat P.offset)
  let w ← polyShift shifted offset
  let multiple ← polyMulConst w [-(base P), 1]
  (← polySub vanishing multiple).forM constraint

def emit (combine : List NodeId → List NodeId → Emit (List NodeId)) (m : Identity P) : Emit Unit := do
  let a ← slice m.a.slice
  let b ← slice m.b.slice
  let result ← slice m.result.slice
  let carry ← slice m.carry.slice
  let lhs ← combine a b
  let lhs ← polySub lhs result
  let modulus ← P.encode P.modulus
  let modulus ← constPoly modulus
  let multiple ← polyMul carry modulus
  let vanishing ← polySub lhs multiple
  let low ← m.low.toList.mapM fun r => cell r.start
  let high ← m.high.toList.mapM fun r => cell r.start
  emitQuotient P vanishing low high

end Identity

namespace Instruction

def emitConstants : List NodeId → List Native → Emit Unit
  | [], [] => return
  | v :: vs, c :: cs => do
    constraint (← subConst v c)
    emitConstants vs cs
  | _, _ => throw .unequalLengths

def emitSelect (bit : Register .bit) (ifTrue ifFalse result : CellSlice) : Emit Unit := do
  let bit ← cell bit.start
  let ts ← slice ifTrue
  let fs ← slice ifFalse
  let rs ← slice result
  ((ts.zip fs).zip rs).forM fun ((t, f), r) => do
    let delta ← sub t f
    let expected ← add f (← mul bit delta)
    constraint (← sub r expected)

def emitWeightedSum : NodeId → Native → List NodeId → Emit NodeId
  | acc, _, [] => return acc
  | acc, power, v :: vs => do
    let acc ← add acc (← mulConst v power)
    emitWeightedSum acc (power + power) vs

def emitDecompose (value : Register .element) (bits : RegisterArray .bit) : Emit Unit := do
  let value ← cell value.start
  let bits ← bits.toList.mapM fun r => cell r.start
  let acc ← const 0
  let acc ← emitWeightedSum acc 1 bits
  constraint (← sub acc value)

def emit : Instruction → Emit Unit
  | constant target values _ => do emitConstants (← slice target) values
  | copy source target => link source target
  | boolean cells => do
    (← slice cells).forM fun v => do
      let square ← mul v v
      constraint (← sub square v)
  | range bits cells => do
    (← slice cells).forM fun v => lookup (.range bits) [v]
  | select bit ifTrue ifFalse result => emitSelect bit ifTrue ifFalse result
  | decompose value bits => emitDecompose value bits
  | limbSum sum => sum.emit
  | fieldSum _ m | fieldDifference _ m => m.emit polyAdd
  | fieldProduct _ m => m.emit polyMul
  | greaterThan .. | inverse .. | slope .. => return

end Instruction

end ForeignCurve
