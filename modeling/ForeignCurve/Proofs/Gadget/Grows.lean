import ForeignCurve.Component
import ForeignCurve.Proofs.Builder

namespace ForeignCurve

-- the instance for the rest of a gadget is as large as the gadget is long
set_option synthInstance.maxSize 1000000

namespace Grows

variable {P : FieldParams}

instance setConstant {k : Kind} (target : Register k) (values : List Native) :
    Grows (Gadget.setConstant target values) := by
  unfold Gadget.setConstant
  infer_instance

instance assertConstant {k : Kind} (target : Register k) (values : List Native) :
    Grows (Gadget.assertConstant target values) := by
  unfold Gadget.assertConstant
  infer_instance

instance setToCopy {k : Kind} (source target : Register k) :
    Grows (Gadget.setToCopy source target) := by
  unfold Gadget.setToCopy
  infer_instance

instance setSelect {k : Kind} (bit : Register .bit) (ifTrue ifFalse result : Register k) :
    Grows (Gadget.setSelect bit ifTrue ifFalse result) := by
  unfold Gadget.setSelect
  infer_instance

instance select {k : Kind} (bit : Register .bit) (ifTrue ifFalse : Register k) :
    Grows (Gadget.select bit ifTrue ifFalse) := by
  unfold Gadget.select
  infer_instance

instance decompose (value : Register .element) (count : Nat) :
    Grows (Gadget.decompose value count) := by
  unfold Gadget.decompose
  infer_instance

instance limbSum (a : CellSlice) (b result : LimbOperand) (limbBits : Nat) :
    Grows (Gadget.limbSum a b result limbBits) := by
  unfold Gadget.limbSum
  infer_instance

instance greaterThan (value : CellSlice) (bound limbBits : Nat) :
    Grows (Gadget.greaterThan value bound limbBits) := by
  unfold Gadget.greaterThan
  infer_instance

instance constant (value : Nat) : Grows (Gadget.constant P value) := by
  unfold Gadget.constant
  infer_instance

instance zero : Grows (Gadget.zero P) := by
  unfold Gadget.zero
  infer_instance

instance one : Grows (Gadget.one P) := by
  unfold Gadget.one
  infer_instance

instance assertEqualConstant (a : FieldRegister P) (value : Nat) :
    Grows (Gadget.assertEqualConstant a value) := by
  unfold Gadget.assertEqualConstant
  infer_instance

instance assertZero (a : FieldRegister P) : Grows (Gadget.assertZero a) := by
  unfold Gadget.assertZero
  infer_instance

instance identity (a b result : FieldRegister P) : Grows (Gadget.identity a b result) := by
  unfold Gadget.identity
  infer_instance

instance setAdd (a b result : FieldRegister P) : Grows (Gadget.setAdd a b result) := by
  unfold Gadget.setAdd
  infer_instance

instance setSub (a b result : FieldRegister P) : Grows (Gadget.setSub a b result) := by
  unfold Gadget.setSub
  infer_instance

instance setMul (a b result : FieldRegister P) : Grows (Gadget.setMul a b result) := by
  unfold Gadget.setMul
  infer_instance

instance add (a b : FieldRegister P) : Grows (Gadget.add a b) := by
  unfold Gadget.add
  infer_instance

instance sub (a b : FieldRegister P) : Grows (Gadget.sub a b) := by
  unfold Gadget.sub
  infer_instance

instance mul (a b : FieldRegister P) : Grows (Gadget.mul a b) := by
  unfold Gadget.mul
  infer_instance

instance neg (a : FieldRegister P) : Grows (Gadget.neg a) := by
  unfold Gadget.neg
  infer_instance

instance blend (selector a b : FieldRegister P) : Grows (Gadget.blend selector a b) := by
  unfold Gadget.blend
  infer_instance

instance inverseHint (a : FieldRegister P) (allowZero : Bool) :
    Grows (Gadget.inverseHint a allowZero) := by
  unfold Gadget.inverseHint
  infer_instance

instance div (a b : FieldRegister P) : Grows (Gadget.div a b) := by
  unfold Gadget.div
  infer_instance

instance inverseOrZero (a : FieldRegister P) : Grows (Gadget.inverseOrZero a) := by
  unfold Gadget.inverseOrZero
  infer_instance

instance isZero (a : FieldRegister P) : Grows (Gadget.isZero a) := by
  unfold Gadget.isZero
  infer_instance

instance assertCanonical (a : FieldRegister P) : Grows (Gadget.assertCanonical a) := by
  unfold Gadget.assertCanonical
  infer_instance

section Point

variable (p q : PointRegister P)

instance constantPoint (p : Point) : Grows (Gadget.constantPoint P p) := by
  unfold Gadget.constantPoint
  infer_instance

instance chordSlope : Grows (Gadget.chordSlope p q) := by
  unfold Gadget.chordSlope
  infer_instance

instance tangentNumerator (x a : FieldRegister P) : Grows (Gadget.tangentNumerator x a) := by
  unfold Gadget.tangentNumerator
  infer_instance

instance tangentSlope (a : FieldRegister P) : Grows (Gadget.tangentSlope p a) := by
  unfold Gadget.tangentSlope
  infer_instance

instance addWithSlope (slope : FieldRegister P) : Grows (Gadget.addWithSlope p q slope) := by
  unfold Gadget.addWithSlope
  infer_instance

instance chordAdd : Grows (Gadget.chordAdd p q) := by
  unfold Gadget.chordAdd
  infer_instance

instance double (a : FieldRegister P) : Grows (Gadget.double p a) := by
  unfold Gadget.double
  infer_instance

instance negPoint : Grows (Gadget.negPoint p) := by
  unfold Gadget.negPoint
  infer_instance

instance selectPoint (bit : Register .bit) : Grows (Gadget.selectPoint bit p q) := by
  unfold Gadget.selectPoint
  infer_instance

instance doubleAndAdd : Grows (Gadget.doubleAndAdd p q) := by
  unfold Gadget.doubleAndAdd
  infer_instance

instance assertChord (slope dx dy : FieldRegister P) : Grows (Gadget.assertChord slope dx dy) := by
  unfold Gadget.assertChord
  infer_instance

instance assertTangent (slope one a pIsIdentity sameX oppositeY : FieldRegister P) :
    Grows (Gadget.assertTangent p slope one a pIsIdentity sameX oppositeY) := by
  unfold Gadget.assertTangent
  infer_instance

instance completeSum (E : CurveParams) (p q : PointRegister E.base) :
    Grows (Gadget.completeSum E p q) := by
  unfold Gadget.completeSum
  infer_instance

instance addPoint (E : CurveParams) (p q : PointRegister E.base) :
    Grows (Gadget.addPoint E p q) := by
  unfold Gadget.addPoint
  infer_instance

instance setToCopyPoint : Grows (Gadget.setToCopyPoint p q) := by
  unfold Gadget.setToCopyPoint
  infer_instance

instance setAddPoint (E : CurveParams) (p q result : PointRegister E.base) :
    Grows (Gadget.setAddPoint E p q result) := by
  unfold Gadget.setAddPoint
  infer_instance

end Point

section ScalarMul

variable (E : CurveParams)

instance foldScalar (scalar : FieldRegister E.scalar) : Grows (Gadget.foldScalar E scalar) := by
  unfold Gadget.foldScalar
  infer_instance

instance scalarBitsGo (cell limbs : Nat) : Grows (Gadget.scalarBits.go (S := P) cell limbs) := by
  induction limbs generalizing cell with
  | zero =>
    unfold Gadget.scalarBits.go
    infer_instance
  | succ limbs ih =>
    unfold Gadget.scalarBits.go
    infer_instance

instance scalarBits (scalar : FieldRegister P) : Grows (Gadget.scalarBits scalar) := by
  unfold Gadget.scalarBits
  infer_instance

instance oddMultiples (a : FieldRegister P) (p : PointRegister P) :
    Grows (Gadget.oddMultiples a p) := by
  unfold Gadget.oddMultiples
  infer_instance

instance bitAt (bits : Array (Register .bit)) (i : Nat) : Grows (Gadget.bitAt bits i) := by
  unfold Gadget.bitAt
  cases bits[i]? with
  | none => exact .throw _
  | some bit => exact .pure bit

instance digitSteps (a : FieldRegister P) (bits : Array (Register .bit))
    (m : Gadget.OddMultiples P) (i : Nat) (acc : PointRegister P) :
    Grows (Gadget.digitSteps a bits m i acc) := by
  induction i generalizing acc with
  | zero =>
    unfold Gadget.digitSteps
    infer_instance
  | succ i ih =>
    unfold Gadget.digitSteps
    infer_instance

instance scalarMul (scalar : FieldRegister E.scalar) (point : PointRegister E.base) :
    Grows (Gadget.scalarMul E scalar point) := by
  unfold Gadget.scalarMul
  infer_instance

instance setScalarMul (scalar : FieldRegister E.scalar) (point result : PointRegister E.base) :
    Grows (Gadget.setScalarMul E scalar point result) := by
  unfold Gadget.setScalarMul
  infer_instance

end ScalarMul

end Grows

end ForeignCurve
