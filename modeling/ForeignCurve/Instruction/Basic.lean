import ForeignCurve.Instruction.Identity
import ForeignCurve.Instruction.LimbSum

/-!
The instructions of a schedule. Each one has a witness side, `plan` and `write`, and a constraint
side, `assertions`; both see the same registers. A hint has no constraints: whoever records it has to bind
its result by other instructions.
-/

namespace ForeignCurve

inductive Instruction where
  | constant (target : CellSlice) (values : List Native) (assign : Bool)
  | copy (source target : CellSlice)
  | boolean (cells : CellSlice)
  | range (bits : Nat) (cells : CellSlice)
  | select (bit : Register .bit) (ifTrue ifFalse result : CellSlice)
  | decompose (value : Register .element) (bits : RegisterArray .bit)
  | limbSum (sum : LimbSum)
  | greaterThan (value : CellSlice) (bound : List Nat) (limbBits : Nat) (result : Register .bit)
  | fieldSum (P : FieldParams) (m : Identity P)
  | fieldDifference (P : FieldParams) (m : Identity P)
  | fieldProduct (P : FieldParams) (m : Identity P)
  | inverse (P : FieldParams) (a result : FieldRegister P) (allowZero : Bool)
  | slope (E : CurveParams) (p q : PointRegister E.base) (result : FieldRegister E.base)

namespace Instruction

section Constraints

variable [Arith V]

def constantAssertions (target : CellSlice) (values : List Native) (vs : CellValues V) :
    Except Abort (List (Assertion V)) := do
  let pairs ← zipExact (← vs.slice target) values
  return pairs.map fun (v, c) => .vanishes (Arith.subConst v c)

def booleanAssertions (cells : CellSlice) (vs : CellValues V) :
    Except Abort (List (Assertion V)) := do
  return (← vs.slice cells).map fun v => .vanishes (Arith.sub (Arith.mul v v) v)

def rangeAssertions (bits : Nat) (cells : CellSlice) (vs : CellValues V) :
    Except Abort (List (Assertion V)) := do
  return (← vs.slice cells).map fun v => .lookup (.range bits) [v]

def selectAssertions (bit : Register .bit) (ifTrue ifFalse result : CellSlice) (vs : CellValues V) :
    Except Abort (List (Assertion V)) := do
  let bit ← vs.get bit.start
  let ts ← vs.slice ifTrue
  let fs ← vs.slice ifFalse
  let rs ← vs.slice result
  return ((ts.zip fs).zip rs).map fun ((t, f), r) =>
    .vanishes (Arith.sub r (Arith.add f (Arith.mul bit (Arith.sub t f))))

def weightedSum : V → Native → List V → V
  | acc, _, [] => acc
  | acc, power, v :: vs => weightedSum (Arith.add acc (Arith.mulConst v power)) (power + power) vs

def decomposeAssertions (value : Register .element) (bits : RegisterArray .bit)
    (vs : CellValues V) : Except Abort (List (Assertion V)) := do
  let value ← vs.get value.start
  let bits ← bits.toList.mapM fun r => vs.get r.start
  return [.vanishes (Arith.sub (weightedSum Arith.zero 1 bits) value)]

def assertions (i : Instruction) (vs : CellValues V) : Except Abort (List (Assertion V)) :=
  match i with
  | constant target values _ => constantAssertions target values vs
  | copy source target => return [.link source target]
  | boolean cells => booleanAssertions cells vs
  | range bits cells => rangeAssertions bits cells vs
  | select bit ifTrue ifFalse result => selectAssertions bit ifTrue ifFalse result vs
  | decompose value bits => decomposeAssertions value bits vs
  | limbSum sum => sum.assertions vs
  | fieldSum _ m | fieldDifference _ m => m.assertions Arith.polyAdd vs
  | fieldProduct _ m => m.assertions Arith.polyMul vs
  | greaterThan .. | inverse .. | slope .. => return []

end Constraints

section Witness

def selectPlan (bit : Register .bit) (ifTrue ifFalse result : CellSlice) (t : Trace) :
    Except Failure Plan := do
  unless ifTrue.len = result.len ∧ ifFalse.len = result.len do
    throw (.fault .selectLengths)
  let bit ← t.readFirst bit
  if bit = 1 then
    return .write result (← t.readSlice ifTrue) .done
  else if bit = 0 then
    return .write result (← t.readSlice ifFalse) .done
  else
    throw (.fault (.notABit bit.val))

def binaryDigits : Nat → Nat → List Native
  | 0, _ => []
  | count + 1, value => Native.ofNat (value % 2) :: binaryDigits count (value / 2)

def decomposePlan (value : Register .element) (bits : RegisterArray .bit) (t : Trace) :
    Except Failure Plan := do
  let value := (← t.readFirst value).val
  unless bits.length ≥ 64 ∨ value >>> bits.length = 0 do
    throw (.fault (.valueTooWide value bits.length))
  return .writeArray _ bits (binaryDigits bits.length value) .done

def greaterThanPlan (value : CellSlice) (bound : List Nat) (limbBits : Nat)
    (result : Register .bit) (t : Trace) : Except Failure Plan := do
  let value := Limbs.decodeNative limbBits (← t.readSlice value)
  return .write result.slice [Native.ofBool (value > Limbs.decode limbBits bound)] .done

def inverseMod (p a : Nat) : Except Abort Nat := do
  return powMod a (← checkedSub p 2) p

def inversePlan (P : FieldParams) (a result : FieldRegister P) (allowZero : Bool) (t : Trace) :
    Except Failure Plan := do
  let a ← P.reduce (← t.readField a)
  if a = 0 then
    unless allowZero do
      throw (.fault .divisionByZero)
    return .write result.slice (← P.encode 0) .done
  else
    return .write result.slice (← P.encode (← inverseMod P.modulus a)) .done

/--
The slope of the line through two points with reduced coordinates: the chord's for distinct
abscissas, the tangent's for a point that is neither its own nor the other's negative, zero for all
others.
-/
def lineSlope (E : CurveParams) (P Q : Point) : Except Abort Nat := do
  let p := E.base.modulus
  let dx := (← checkedSub (p + Q.x) P.x) % p
  if dx ≠ 0 then
    let dy := (← checkedSub (p + Q.y) P.y) % p
    return dy * (← inverseMod p dx) % p
  else if P.y ≠ 0 ∧ (P.y + Q.y) % p ≠ 0 then
    return (P.x * P.x * 3 + E.a) % p * (← inverseMod p (P.y * 2)) % p
  else
    return 0

def reducePoint (P : FieldParams) (p : Point) : Except Abort Point := do
  return ⟨← P.reduce p.x, ← P.reduce p.y⟩

def slopePlan (E : CurveParams) (p q : PointRegister E.base) (result : FieldRegister E.base)
    (t : Trace) : Except Failure Plan := do
  let P ← t.readPoint p
  let Q ← t.readPoint q
  let slope ← lineSlope E (← reducePoint E.base P) (← reducePoint E.base Q)
  return .write result.slice (← E.base.encode slope) .done

def plan (i : Instruction) (t : Trace) : Except Failure Plan :=
  match i with
  | constant target values assign => return if assign then .write target values .done else .done
  | copy source target => do return .write target (← t.readSlice source) .done
  | boolean _ | range .. => return .done
  | select bit ifTrue ifFalse result => selectPlan bit ifTrue ifFalse result t
  | decompose value bits => decomposePlan value bits t
  | limbSum sum => sum.plan t
  | greaterThan value bound limbBits result => greaterThanPlan value bound limbBits result t
  | fieldSum _ m => do m.sumPlan (← t.readSlice m.a.slice) (← t.readSlice m.b.slice)
  | fieldDifference _ m => do
    m.differencePlan (← t.readSlice m.a.slice) (← t.readSlice m.result.slice)
  | fieldProduct _ m => do m.productPlan (← t.readSlice m.a.slice) (← t.readSlice m.b.slice)
  | inverse P a result allowZero => inversePlan P a result allowZero t
  | slope E p q result => slopePlan E p q result t

def write (i : Instruction) : TraceM Unit := fun t =>
  match i.plan t with
  | .ok p => p.perform t
  | .error f => .error f t

end Witness

end Instruction

end ForeignCurve
