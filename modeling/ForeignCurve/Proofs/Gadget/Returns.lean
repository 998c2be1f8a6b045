import ForeignCurve.Proofs.Gadget.Preconditions

namespace ForeignCurve

-- the instance for the rest of a gadget is as large as the gadget is long
set_option synthInstance.maxSize 1000000

namespace Returns

section Basic

instance append (i : Instruction) : Returns (Record.append i) :=
  Record.AddsAt.returns fun k => ⟨_, _, _, .append k i⟩

instance alloc (k : Kind) : Returns (Record.alloc k) :=
  Record.AddsAt.returns fun i => ⟨_, _, _, .alloc i k⟩

theorem allocArray {k : Kind} (hk : k.size ≠ 0) (length : Nat) : Returns (Record.allocArray k length) :=
  Record.AddsAt.returns fun i => ⟨_, _, _, .allocCellArray i hk length⟩

instance allocBits (length : Nat) : Returns (Record.allocArray .bit length) :=
  allocArray (k := .bit) Nat.one_ne_zero length

instance allocLimbs (limbBits length : Nat) : Returns (Record.allocArray (.limb limbBits) length) :=
  allocArray (k := .limb limbBits) Nat.one_ne_zero length

instance allocPoint (P : FieldParams) : Returns (Record.allocPoint P) := by
  unfold Record.allocPoint
  infer_instance

instance setConstant {k : Kind} (target : Register k) (values : List Native) :
    Returns (Gadget.setConstant target values) := by
  unfold Gadget.setConstant
  infer_instance

instance assertConstant {k : Kind} (target : Register k) (values : List Native) :
    Returns (Gadget.assertConstant target values) := by
  unfold Gadget.assertConstant
  infer_instance

instance select {k : Kind} (bit : Register .bit) (ifTrue ifFalse : Register k) :
    Returns (Gadget.select bit ifTrue ifFalse) := by
  unfold Gadget.select Gadget.setSelect
  infer_instance

instance decompose (value : Register .element) (count : Nat) : Returns (Gadget.decompose value count) := by
  unfold Gadget.decompose
  infer_instance

instance greaterThan (value : CellSlice) (bound limbBits : Nat) :
    Returns (Gadget.greaterThan value bound limbBits) := by
  unfold Gadget.greaterThan
  infer_instance

instance setToCopyPoint {P : FieldParams} (source target : PointRegister P) :
    Returns (Gadget.setToCopyPoint source target) := by
  unfold Gadget.setToCopyPoint Gadget.setToCopy
  infer_instance

theorem limbSum (a : CellSlice) {b c : LimbOperand} (limbBits : Nat) (ha : a.len ≠ 0)
    (hb : b.length = a.len) (hc : c.length = a.len) : Returns (Gadget.limbSum a b c limbBits) := by
  unfold Gadget.limbSum
  dsimp only
  rw [if_neg ha, if_pos hb, if_pos hc]
  infer_instance

end Basic

section Field

variable {P : FieldParams}

instance identity (a b result : FieldRegister P) : Returns (Gadget.identity a b result) := by
  unfold Gadget.identity
  infer_instance

instance setAdd (a b result : FieldRegister P) : Returns (Gadget.setAdd a b result) := by
  unfold Gadget.setAdd
  infer_instance

instance setSub (a b result : FieldRegister P) : Returns (Gadget.setSub a b result) := by
  unfold Gadget.setSub
  infer_instance

instance setMul (a b result : FieldRegister P) : Returns (Gadget.setMul a b result) := by
  unfold Gadget.setMul
  infer_instance

instance add (a b : FieldRegister P) : Returns (Gadget.add a b) := by
  unfold Gadget.add
  infer_instance

instance sub (a b : FieldRegister P) : Returns (Gadget.sub a b) := by
  unfold Gadget.sub
  infer_instance

instance mul (a b : FieldRegister P) : Returns (Gadget.mul a b) := by
  unfold Gadget.mul
  infer_instance

instance inverseHint (a : FieldRegister P) (allowZero : Bool) :
    Returns (Gadget.inverseHint a allowZero) := by
  unfold Gadget.inverseHint
  infer_instance

instance blend (selector a b : FieldRegister P) : Returns (Gadget.blend selector a b) := by
  unfold Gadget.blend
  infer_instance

theorem encode {α : Type} {value : Nat} (h : P.Encodes value) {f : List Native → Record α}
    [hf : ∀ limbs, Returns (f limbs)] : Returns (do f (← P.encode (← P.reduce value))) := by
  obtain ⟨limbs, hlimbs⟩ := FieldParams.encodes_iff.mp h
  obtain ⟨residue, hreduce, hencode⟩ := bind_eq_ok_iff.mp hlimbs
  exact lift_bind hreduce (lift_bind hencode (hf limbs))

instance constant (value : Nat) [h : P.Encodes value] : Returns (Gadget.constant P value) := by
  have hencode (r : FieldRegister P) : Returns (do
      Gadget.setConstant r (← P.encode (← P.reduce value))
      return r) :=
    encode h
  unfold Gadget.constant
  infer_instance

instance assertEqualConstant (a : FieldRegister P) (value : Nat) [h : P.Encodes value] :
    Returns (Gadget.assertEqualConstant a value) := by
  have hencode : Returns (do Gadget.assertConstant a (← P.encode (← P.reduce value))) :=
    encode h
  unfold Gadget.assertEqualConstant
  infer_instance

instance assertCanonical (a : FieldRegister P) [hP : P.Comparable] : Returns (Gadget.assertCanonical a) := by
  have hcomplement : Returns (liftM P.complement : Record Nat) := lift FieldParams.complement_eq_ok
  have hsum (sum : FieldRegister P) (value : Nat) : Returns (Gadget.limbSum a.slice
      (.const (Limbs.encode P.limbBits P.limbs value)) (.cells sum.slice) P.limbBits) :=
    limbSum a.slice P.limbBits hP.limbs_ne_zero (Limbs.length_encode _ _ _) rfl
  unfold Gadget.assertCanonical
  infer_instance

variable [NeZero P.modulus]

instance zero : Returns (Gadget.zero P) := by
  unfold Gadget.zero
  infer_instance

instance one : Returns (Gadget.one P) := by
  unfold Gadget.one
  infer_instance

instance neg (a : FieldRegister P) : Returns (Gadget.neg a) := by
  unfold Gadget.neg
  infer_instance

instance assertZero (a : FieldRegister P) : Returns (Gadget.assertZero a) := by
  unfold Gadget.assertZero
  infer_instance

instance div (a b : FieldRegister P) : Returns (Gadget.div a b) := by
  unfold Gadget.div
  infer_instance

instance inverseOrZero (a : FieldRegister P) : Returns (Gadget.inverseOrZero a) := by
  unfold Gadget.inverseOrZero
  infer_instance

instance isZero (a : FieldRegister P) : Returns (Gadget.isZero a) := by
  unfold Gadget.isZero
  infer_instance

end Field

section Point

variable {P : FieldParams} (p q : PointRegister P)

instance tangentNumerator (x a : FieldRegister P) : Returns (Gadget.tangentNumerator x a) := by
  unfold Gadget.tangentNumerator
  infer_instance

instance addWithSlope (slope : FieldRegister P) : Returns (Gadget.addWithSlope p q slope) := by
  unfold Gadget.addWithSlope
  infer_instance

instance selectPoint (bit : Register .bit) : Returns (Gadget.selectPoint bit p q) := by
  unfold Gadget.selectPoint
  infer_instance

instance constantPoint (p : Point) [P.Encodes p.x] [P.Encodes p.y] :
    Returns (Gadget.constantPoint P p) := by
  unfold Gadget.constantPoint
  infer_instance

variable [NeZero P.modulus]

instance chordSlope : Returns (Gadget.chordSlope p q) := by
  unfold Gadget.chordSlope
  infer_instance

instance tangentSlope (a : FieldRegister P) : Returns (Gadget.tangentSlope p a) := by
  unfold Gadget.tangentSlope
  infer_instance

instance chordAdd : Returns (Gadget.chordAdd p q) := by
  unfold Gadget.chordAdd
  infer_instance

instance double (a : FieldRegister P) : Returns (Gadget.double p a) := by
  unfold Gadget.double
  infer_instance

instance negPoint : Returns (Gadget.negPoint p) := by
  unfold Gadget.negPoint
  infer_instance

instance doubleAndAdd : Returns (Gadget.doubleAndAdd p q) := by
  unfold Gadget.doubleAndAdd
  infer_instance

instance assertChord (slope dx dy : FieldRegister P) : Returns (Gadget.assertChord slope dx dy) := by
  unfold Gadget.assertChord
  infer_instance

instance assertTangent (slope one a pIsIdentity sameX oppositeY : FieldRegister P) :
    Returns (Gadget.assertTangent p slope one a pIsIdentity sameX oppositeY) := by
  unfold Gadget.assertTangent
  infer_instance

instance oddMultiples (a : FieldRegister P) : Returns (Gadget.oddMultiples a p) := by
  unfold Gadget.oddMultiples
  infer_instance

end Point

section Complete

variable (E : CurveParams) [hE : E.Addable] (p q : PointRegister E.base)

instance completeSum : Returns (Gadget.completeSum E p q) := by
  have hcoefficient := hE.coefficient
  have hmodulus : NeZero E.base.modulus := ⟨hcoefficient.modulus_ne_zero⟩
  have hcomparable := hE.comparable
  unfold Gadget.completeSum
  infer_instance

instance addPoint : Returns (Gadget.addPoint E p q) := by
  unfold Gadget.addPoint
  infer_instance

instance setAddPoint (result : PointRegister E.base) : Returns (Gadget.setAddPoint E p q result) := by
  unfold Gadget.setAddPoint
  infer_instance

end Complete

section ScalarMul

instance scalarBits_go {S : FieldParams} (cell limbs : Nat) :
    Returns (Gadget.scalarBits.go (S := S) cell limbs) := by
  induction limbs generalizing cell with
  | zero => exact pure []
  | succ limbs ih =>
    unfold Gadget.scalarBits.go
    infer_instance

instance scalarBits {S : FieldParams} (scalar : FieldRegister S) : Returns (Gadget.scalarBits scalar) :=
  scalarBits_go scalar.start S.limbs

theorem bitAt {bits : Array (Register .bit)} {i : Nat} (h : i < bits.size) :
    Returns (Gadget.bitAt bits i) := by
  unfold Gadget.bitAt
  rw [Array.getElem?_eq_getElem h]
  exact pure _

theorem digitSteps {P : FieldParams} [NeZero P.modulus] (a : FieldRegister P)
    {bits : Array (Register .bit)} (m : Gadget.OddMultiples P) (i : Nat) (acc : PointRegister P)
    (h : 2 * i < bits.size) : Returns (Gadget.digitSteps a bits m i acc) := by
  induction i generalizing acc with
  | zero =>
    unfold Gadget.digitSteps
    infer_instance
  | succ i ih =>
    have hlow : Returns (Gadget.bitAt bits (2 * i + 1)) := bitAt (by omega)
    have hhigh : Returns (Gadget.bitAt bits (2 * i + 2)) := bitAt (by omega)
    have hrest (acc : PointRegister P) := ih acc (by omega)
    unfold Gadget.digitSteps
    infer_instance

variable (E : CurveParams) [hE : E.Scalable] (scalar : FieldRegister E.scalar)
  (point : PointRegister E.base)

instance foldScalar : Returns (Gadget.foldScalar E scalar) := by
  have hscalar := hE.scalar_comparable
  have hhalf : Returns (liftM E.halfOrder : Record Nat) :=
    lift (CurveParams.halfOrder_eq_ok hE.order_pos)
  have hsum (a slack : FieldRegister E.scalar) (value : Nat) : Returns (Gadget.limbSum a.slice
      (.cells slack.slice) (.const (Limbs.encode E.scalar.limbBits E.scalar.limbs value))
      E.scalar.limbBits) :=
    limbSum a.slice E.scalar.limbBits hscalar.limbs_ne_zero rfl (Limbs.length_encode _ _ _)
  unfold Gadget.foldScalar
  infer_instance

instance scalarMul : Returns (Gadget.scalarMul E scalar point) := by
  have hcount := CurveParams.two_mul_digitCount_le E
  have hpos := CurveParams.digitCount_pos ((E.groupOrder - 1) / 2)
  have hcoefficient := hE.coefficient
  have hmodulus : NeZero E.base.modulus := ⟨hcoefficient.modulus_ne_zero⟩
  have hcomparable := hE.comparable
  unfold Gadget.scalarMul
  apply lift_bind (CurveParams.halfOrder_eq_ok hE.order_pos)
  refine @bind _ _ _ _ (foldScalar E scalar) ?_
  rintro ⟨negate, folded⟩
  apply bind_of (Q := fun bits : List (Register .bit) => bits.toArray.size = E.scalar.bits)
  · intro b bits b' hrun
    rw [List.size_toArray]
    exact Needs.length_of_scalarBits_go hrun
  intro bits hlen
  have htop : Returns (Gadget.bitAt bits.toArray
    (2 * CurveParams.digitCount ((E.groupOrder - 1) / 2) - 1)) := bitAt (by omega)
  have hlow : Returns (Gadget.bitAt bits.toArray 0) := bitAt (by omega)
  have hsteps (a : FieldRegister E.base) (m : Gadget.OddMultiples E.base)
      (acc : PointRegister E.base) : Returns (Gadget.digitSteps a bits.toArray m
        (CurveParams.digitCount ((E.groupOrder - 1) / 2) - 1) acc) :=
    digitSteps a m _ acc (by omega)
  infer_instance

instance setScalarMul (result : PointRegister E.base) :
    Returns (Gadget.setScalarMul E scalar point result) := by
  unfold Gadget.setScalarMul
  infer_instance

end ScalarMul

end Returns

end ForeignCurve
