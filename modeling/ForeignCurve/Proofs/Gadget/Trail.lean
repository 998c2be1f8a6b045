import ForeignCurve.Proofs.Constants
import ForeignCurve.Proofs.Gadget.Fold

namespace ForeignCurve

namespace Gadget

variable {P : FieldParams}

structure DigitStep (P : FieldParams) where
  acc : PointRegister P
  twice : PointRegister P
  digit : PointRegister P

def pickDigit (bits : Array (Register .bit)) (m : OddMultiples P) (i : Nat) : Record (PointRegister P) := do
  let positive ← selectPoint (← bitAt bits (2 * i + 1)) m.p3 m.p1
  let negative ← selectPoint (← bitAt bits (2 * i + 1)) m.neg1 m.neg3
  selectPoint (← bitAt bits (2 * i + 2)) positive negative

def recordSteps (a : FieldRegister P) (bits : Array (Register .bit)) (m : OddMultiples P) :
    Nat → PointRegister P → Record (List (DigitStep P) × PointRegister P)
  | 0, acc => return ([], acc)
  | i + 1, acc => do
    let digit ← pickDigit bits m i
    let twice ← double acc a
    let next ← doubleAndAdd twice digit
    let rest ← recordSteps a bits m i next
    return (⟨acc, twice, digit⟩ :: rest.1, rest.2)

structure Trail (P : FieldParams) where
  multiples : OddMultiples P
  steps : List (DigitStep P)
  last : PointRegister P

def recordDigits (a : FieldRegister P) (bits : Array (Register .bit)) (digits : Nat) (p : PointRegister P) :
    Record (Trail P) := do
  let multiples ← oddMultiples a p
  let top ← selectPoint (← bitAt bits (2 * digits - 1)) multiples.p3 multiples.p1
  let rest ← recordSteps a bits multiples (digits - 1) top
  return ⟨multiples, rest.1, rest.2⟩

def scalarMulByDigits (E : CurveParams) (digits : Nat) (scalar : FieldRegister E.scalar)
    (point : PointRegister E.base) : Record (PointRegister E.base) := do
  let f ← fold E scalar point
  let bits := (f.bits.take (2 * digits)).toArray
  let trail ← recordDigits f.a bits digits f.point
  let even ← addPoint E trail.last trail.multiples.neg1
  let result ← selectPoint (← bitAt bits 0) trail.last even
  assertCanonical result.x
  assertCanonical result.y
  return result

section Erasure

theorem map_recordSteps (a : FieldRegister P) (bits : Array (Register .bit)) (m : OddMultiples P) (i : Nat)
    (acc : PointRegister P) : Prod.snd <$> recordSteps a bits m i acc = digitSteps a bits m i acc := by
  induction i generalizing acc with
  | zero =>
    unfold recordSteps digitSteps
    rw [map_eq_pure_bind, pure_bind]
  | succ i ih =>
    unfold recordSteps digitSteps pickDigit
    simp only [map_eq_pure_bind, bind_assoc, pure_bind] at ih ⊢
    simp only [ih]

theorem multiplyFolded_eq (E : CurveParams) (digits : Nat) (f : Folding E) :
    multiplyFolded E digits f = (do
      let trail ← recordDigits f.a f.bits.toArray digits f.point
      let even ← addPoint E trail.last trail.multiples.neg1
      let result ← selectPoint (← bitAt f.bits.toArray 0) trail.last even
      assertCanonical result.x
      assertCanonical result.y
      return result) := by
  unfold multiplyFolded recordDigits
  simp only [← map_recordSteps, map_eq_pure_bind, bind_assoc, pure_bind]

end Erasure

section Bits

variable (rs : List (Register .bit)) {count i : Nat}

theorem bitAt_take (h : i < count) : bitAt (rs.take count).toArray i = bitAt rs.toArray i := by
  unfold bitAt
  rw [List.getElem?_toArray, List.getElem?_toArray, List.getElem?_take_of_lt h]

theorem digitSteps_take (a : FieldRegister P) (m : OddMultiples P) (h : 2 * i < count)
    (acc : PointRegister P) :
    digitSteps a (rs.take count).toArray m i acc = digitSteps a rs.toArray m i acc := by
  induction i generalizing acc with
  | zero => rfl
  | succ i ih =>
    unfold digitSteps
    rw [bitAt_take rs (by omega), bitAt_take rs (by omega)]
    simp only [ih (by omega)]

theorem multiplyFolded_take (E : CurveParams) {digits : Nat} (h : 0 < digits) (f : Folding E) :
    multiplyFolded E digits { f with bits := f.bits.take (2 * digits) } = multiplyFolded E digits f := by
  have hsteps : 2 * (digits - 1) < 2 * digits := by omega
  have htop : 2 * digits - 1 < 2 * digits := by omega
  have hlow : 0 < 2 * digits := by omega
  unfold multiplyFolded
  simp only [digitSteps_take f.bits f.a _ hsteps, bitAt_take f.bits htop, bitAt_take f.bits hlow]

theorem scalarMul_eq_byDigits {E : CurveParams} (hpos : 1 ≤ E.groupOrder) (scalar : FieldRegister E.scalar)
    (point : PointRegister E.base) : scalarMul E scalar point =
      scalarMulByDigits E (CurveParams.digitCount ((E.groupOrder - 1) / 2)) scalar point := by
  rw [scalarMul_eq, CurveParams.halfOrder_eq_ok hpos]
  change fold E scalar point >>= _ = _
  refine bind_congr fun f => ?_
  rw [← multiplyFolded_take E (CurveParams.digitCount_pos _), multiplyFolded_eq]

end Bits

end Gadget

namespace Grows

variable {P : FieldParams}

instance pickDigit (bits : Array (Register .bit)) (m : Gadget.OddMultiples P) (i : Nat) :
    Grows (Gadget.pickDigit bits m i) := by
  unfold Gadget.pickDigit
  infer_instance

instance recordSteps (a : FieldRegister P) (bits : Array (Register .bit)) (m : Gadget.OddMultiples P)
    (i : Nat) (acc : PointRegister P) : Grows (Gadget.recordSteps a bits m i acc) := by
  induction i generalizing acc with
  | zero =>
    unfold Gadget.recordSteps
    infer_instance
  | succ i ih =>
    unfold Gadget.recordSteps
    infer_instance

end Grows

end ForeignCurve
