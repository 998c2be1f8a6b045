import ForeignCurve.Proofs.Constants
import ForeignCurve.Proofs.Gadget.Grows

namespace ForeignCurve

-- the instance for the rest of a gadget is as large as the gadget is long
set_option synthInstance.maxSize 1000000

variable {α β : Type} {P : FieldParams}

class Needs (C : Prop) (g : Record α) : Prop where
  needs : ∀ {b : Builder} {a : α} {b' : Builder}, g.run b = .ok (a, b') → C

class Requires (P : FieldParams) (g : Record α) : Prop where
  headroom_eq : ∀ {b : Builder} {a : α} {b' : Builder}, g.run b = .ok (a, b') →
    b'.headroomFault? = none → P.headroom = .ok ()

namespace Needs

variable {C : Prop}

theorem mono {D : Prop} {g : Record α} (hg : Needs C g) (h : C → D) : Needs D g where
  needs hrun := h (hg.needs hrun)

instance bind_right (g : Record α) (f : α → Record β) [hf : ∀ a, Needs C (f a)] : Needs C (g >>= f) where
  needs h := by
    obtain ⟨a, b', -, h⟩ := Record.run_bind_eq_ok_iff.mp h
    exact (hf a).needs h

instance bind_left (g : Record α) (f : α → Record β) [hg : Needs C g] : Needs C (g >>= f) where
  needs h := by
    obtain ⟨a, b', hrun, -⟩ := Record.run_bind_eq_ok_iff.mp h
    exact hg.needs hrun

instance ite (c : Prop) [Decidable c] (g g' : Record α) [Needs C g] [Needs C g'] :
    Needs C (if c then g else g') := by
  split
  · infer_instance
  · infer_instance

instance ofSlice (k : Kind) (s : CellSlice) :
    Needs (k.size ≠ 0) (liftM (RegisterArray.ofSlice k s) : Record (RegisterArray k)) where
  needs h hzero := by
    unfold RegisterArray.ofSlice at h
    rw [if_pos hzero] at h
    contradiction

instance allocArray (k : Kind) (length : Nat) : Needs (k.size ≠ 0) (Record.allocArray k length) := by
  unfold Record.allocArray
  dsimp only
  infer_instance

theorem encode {f : List Native → Record α} (value : Nat) :
    Needs (P.Encodes value) (do f (← P.encode (← P.reduce value))) where
  needs h := by
    obtain ⟨residue, b₁, hreduce, h⟩ := Record.run_bind_eq_ok_iff.mp h
    obtain ⟨limbs, b₂, hencode, -⟩ := Record.run_bind_eq_ok_iff.mp h
    exact FieldParams.encodes_iff.mpr ⟨limbs, bind_eq_ok_iff.mpr
      ⟨residue, (Record.run_lift_eq_ok_iff.mp hreduce).1, (Record.run_lift_eq_ok_iff.mp hencode).1⟩⟩

section Field

variable (a b : FieldRegister P) (value : Nat)

instance constant : Needs (P.Encodes value) (Gadget.constant P value) := by
  have hencode (r : FieldRegister P) : Needs (P.Encodes value) (do
      Gadget.setConstant r (← P.encode (← P.reduce value))
      return r) :=
    encode value
  unfold Gadget.constant
  infer_instance

instance assertEqualConstant : Needs (P.Encodes value) (Gadget.assertEqualConstant a value) := by
  have hencode : Needs (P.Encodes value) (do
      Gadget.assertConstant a (← P.encode (← P.reduce value))) :=
    encode value
  unfold Gadget.assertEqualConstant
  infer_instance

instance zero : Needs (P.modulus ≠ 0) (Gadget.zero P) :=
  (constant 0).mono fun h => h.modulus_ne_zero

instance one : Needs (P.modulus ≠ 0) (Gadget.one P) :=
  (constant 1).mono fun h => h.modulus_ne_zero

instance neg : Needs (P.modulus ≠ 0) (Gadget.neg a) := by
  unfold Gadget.neg
  infer_instance

instance div : Needs (P.modulus ≠ 0) (Gadget.div a b) := by
  have hunit (u : FieldRegister P) : Needs (P.modulus ≠ 0) (Gadget.assertEqualConstant u 1) :=
    (assertEqualConstant u 1).mono fun h => h.modulus_ne_zero
  unfold Gadget.div
  infer_instance

instance inverseOrZero : Needs (P.modulus ≠ 0) (Gadget.inverseOrZero a) := by
  unfold Gadget.inverseOrZero
  infer_instance

instance isZero : Needs (P.modulus ≠ 0) (Gadget.isZero a) := by
  unfold Gadget.isZero
  infer_instance

end Field

section Limbs

instance limbSum (a : CellSlice) (b c : LimbOperand) (limbBits : Nat) :
    Needs (a.len ≠ 0 ∧ b.length = a.len ∧ c.length = a.len) (Gadget.limbSum a b c limbBits) where
  needs h := by
    unfold Gadget.limbSum at h
    dsimp only at h
    split at h
    · obtain ⟨_, _, hthrow, -⟩ := Record.run_bind_eq_ok_iff.mp h
      contradiction
    · next ha =>
      split at h
      · next hb =>
        split at h
        · next hc => exact ⟨ha, hb, hc⟩
        · obtain ⟨_, _, hthrow, -⟩ := Record.run_bind_eq_ok_iff.mp h
          contradiction
      · obtain ⟨_, _, hthrow, -⟩ := Record.run_bind_eq_ok_iff.mp h
        contradiction

instance complement : Needs (P.modulus ≤ 2 ^ P.bits) (liftM P.complement : Record Nat) where
  needs h := by
    by_contra hle
    obtain ⟨hcomplement, -⟩ := Record.run_lift_eq_ok_iff.mp h
    rw [FieldParams.complement, checkedSub, if_neg hle] at hcomplement
    contradiction

instance assertCanonical (a : FieldRegister P) : Needs P.Comparable (Gadget.assertCanonical a) where
  needs h := by
    have hsum (b c : LimbOperand) : Needs (P.limbs ≠ 0) (Gadget.limbSum a.slice b c P.limbBits) :=
      (limbSum a.slice b c P.limbBits).mono And.left
    unfold Gadget.assertCanonical at h
    exact ⟨needs h, needs h⟩

end Limbs

section Point

variable (p q : PointRegister P)

instance constantPoint_x (p : Point) : Needs (P.Encodes p.x) (Gadget.constantPoint P p) := by
  unfold Gadget.constantPoint
  infer_instance

instance constantPoint_y (p : Point) : Needs (P.Encodes p.y) (Gadget.constantPoint P p) := by
  unfold Gadget.constantPoint
  infer_instance

instance chordSlope : Needs (P.modulus ≠ 0) (Gadget.chordSlope p q) := by
  unfold Gadget.chordSlope
  infer_instance

instance tangentSlope (a : FieldRegister P) : Needs (P.modulus ≠ 0) (Gadget.tangentSlope p a) := by
  unfold Gadget.tangentSlope
  infer_instance

instance chordAdd : Needs (P.modulus ≠ 0) (Gadget.chordAdd p q) := by
  unfold Gadget.chordAdd
  infer_instance

instance double (a : FieldRegister P) : Needs (P.modulus ≠ 0) (Gadget.double p a) := by
  unfold Gadget.double
  infer_instance

instance doubleAndAdd : Needs (P.modulus ≠ 0) (Gadget.doubleAndAdd p q) := by
  unfold Gadget.doubleAndAdd
  infer_instance

instance negPoint : Needs (P.modulus ≠ 0) (Gadget.negPoint p) := by
  unfold Gadget.negPoint
  infer_instance

end Point

section Complete

variable (E : CurveParams) (p q : PointRegister E.base)

instance completeSum : Needs E.Addable (Gadget.completeSum E p q) where
  needs h := by
    unfold Gadget.completeSum at h
    exact ⟨needs h, needs h⟩

instance addPoint : Needs E.Addable (Gadget.addPoint E p q) := by
  unfold Gadget.addPoint
  infer_instance

instance setAddPoint (r : PointRegister E.base) : Needs E.Addable (Gadget.setAddPoint E p q r) := by
  unfold Gadget.setAddPoint
  infer_instance

end Complete

section ScalarMul

instance halfOrder (E : CurveParams) : Needs (1 ≤ E.groupOrder) (liftM E.halfOrder : Record Nat) where
  needs h := by
    by_contra hle
    obtain ⟨hhalf, -⟩ := Record.run_lift_eq_ok_iff.mp h
    rw [CurveParams.halfOrder, checkedSub, if_neg hle] at hhalf
    contradiction

instance foldScalar (E : CurveParams) (scalar : FieldRegister E.scalar) :
    Needs E.scalar.Comparable (Gadget.foldScalar E scalar) := by
  unfold Gadget.foldScalar
  infer_instance

instance bitAt (bits : Array (Register .bit)) (i : Nat) : Needs (i < bits.size) (Gadget.bitAt bits i) where
  needs h := by
    by_contra hi
    rw [Gadget.bitAt, Array.getElem?_eq_none (by omega)] at h
    contradiction

theorem length_of_scalarBits_go {S : FieldParams} {limbs cell : Nat} {b b' : Builder}
    {rs : List (Register .bit)} (h : (Gadget.scalarBits.go (S := S) cell limbs).run b = .ok (rs, b')) :
    rs.length = S.limbBits * limbs := by
  induction limbs generalizing cell b b' rs with
  | zero =>
    cases h
    rfl
  | succ limbs ih =>
    obtain ⟨bits, b₁, hdecompose, h⟩ := Record.run_bind_eq_ok_iff.mp h
    obtain ⟨rest, b₂, hrest, h⟩ := Record.run_bind_eq_ok_iff.mp h
    cases h
    obtain ⟨array, b₃, halloc, h⟩ := Record.run_bind_eq_ok_iff.mp hdecompose
    cases h
    obtain ⟨rfl, -⟩ := (Record.AddsAt.allocArray b.numCells rfl S.limbBits).of_run halloc
    rw [List.length_append, ih hrest, RegisterArray.toList, List.length_map, List.length_range,
      Nat.mul_succ, Nat.add_comm]

variable (E : CurveParams) (scalar : FieldRegister E.scalar) (point : PointRegister E.base)

instance scalarMul_bits : Needs (2 ≤ E.scalar.bits) (Gadget.scalarMul E scalar point) where
  needs h := by
    unfold Gadget.scalarMul at h
    obtain ⟨half, b₁, -, h⟩ := Record.run_bind_eq_ok_iff.mp h
    obtain ⟨⟨negate, folded⟩, b₂, -, h⟩ := Record.run_bind_eq_ok_iff.mp h
    obtain ⟨bits, b₃, hbits, h⟩ := Record.run_bind_eq_ok_iff.mp h
    have hlen : bits.length = E.scalar.bits := length_of_scalarBits_go hbits
    have htop : 2 * CurveParams.digitCount half - 1 < bits.toArray.size := needs h
    have hpos := CurveParams.digitCount_pos half
    rw [List.size_toArray] at htop
    omega

instance scalarMul : Needs E.Scalable (Gadget.scalarMul E scalar point) where
  needs h := by
    have hbits : 2 ≤ E.scalar.bits := needs h
    unfold Gadget.scalarMul at h
    have hadd : E.Addable := needs h
    exact ⟨needs h, needs h, hbits⟩

instance setScalarMul (result : PointRegister E.base) :
    Needs E.Scalable (Gadget.setScalarMul E scalar point result) := by
  unfold Gadget.setScalarMul
  infer_instance

end ScalarMul

end Needs

namespace Requires

instance bind_right (g : Record α) (f : α → Record β) [hf : ∀ a, Requires P (f a)] :
    Requires P (g >>= f) where
  headroom_eq h hfault := by
    obtain ⟨a, b', -, h⟩ := Record.run_bind_eq_ok_iff.mp h
    exact (hf a).headroom_eq h hfault

instance bind_left (g : Record α) (f : α → Record β) [hg : Requires P g] [hf : ∀ a, Grows (f a)] :
    Requires P (g >>= f) where
  headroom_eq h hfault := by
    obtain ⟨a, b', hrun, h⟩ := Record.run_bind_eq_ok_iff.mp h
    exact hg.headroom_eq hrun (((hf a).grows h).headroomFault?_eq_none hfault)

instance requireHeadroom (P : FieldParams) : Requires P (Record.requireHeadroom P) where
  headroom_eq {b a b'} h hfault := by
    cases h
    cases hP : P.headroom with
    | ok u => rfl
    | error f =>
      dsimp only at hfault
      rw [hP] at hfault
      cases hb : b.headroomFault? with
      | none => simp [hb] at hfault
      | some f' => simp [hb] at hfault

section Field

variable (a b result : FieldRegister P) (value : Nat)

instance constant : Requires P (Gadget.constant P value) := by
  unfold Gadget.constant
  infer_instance

instance zero : Requires P (Gadget.zero P) := by
  unfold Gadget.zero
  infer_instance

instance assertEqualConstant : Requires P (Gadget.assertEqualConstant a value) := by
  unfold Gadget.assertEqualConstant
  infer_instance

instance identity : Requires P (Gadget.identity a b result) := by
  unfold Gadget.identity
  infer_instance

instance setAdd : Requires P (Gadget.setAdd a b result) := by
  unfold Gadget.setAdd
  infer_instance

instance setSub : Requires P (Gadget.setSub a b result) := by
  unfold Gadget.setSub
  infer_instance

instance setMul : Requires P (Gadget.setMul a b result) := by
  unfold Gadget.setMul
  infer_instance

instance add : Requires P (Gadget.add a b) := by
  unfold Gadget.add
  infer_instance

instance sub : Requires P (Gadget.sub a b) := by
  unfold Gadget.sub
  infer_instance

instance mul : Requires P (Gadget.mul a b) := by
  unfold Gadget.mul
  infer_instance

instance neg : Requires P (Gadget.neg a) := by
  unfold Gadget.neg
  infer_instance

instance blend (selector : FieldRegister P) : Requires P (Gadget.blend selector a b) := by
  unfold Gadget.blend
  infer_instance

instance inverseHint (allowZero : Bool) : Requires P (Gadget.inverseHint a allowZero) := by
  unfold Gadget.inverseHint
  infer_instance

instance div : Requires P (Gadget.div a b) := by
  unfold Gadget.div
  infer_instance

instance inverseOrZero : Requires P (Gadget.inverseOrZero a) := by
  unfold Gadget.inverseOrZero
  infer_instance

instance isZero : Requires P (Gadget.isZero a) := by
  unfold Gadget.isZero
  infer_instance

instance assertCanonical : Requires P (Gadget.assertCanonical a) := by
  unfold Gadget.assertCanonical
  infer_instance

end Field

section Point

variable (p q : PointRegister P) (a : FieldRegister P)

instance constantPoint (p : Point) : Requires P (Gadget.constantPoint P p) := by
  unfold Gadget.constantPoint
  infer_instance

instance chordSlope : Requires P (Gadget.chordSlope p q) := by
  unfold Gadget.chordSlope
  infer_instance

instance tangentNumerator (x : FieldRegister P) : Requires P (Gadget.tangentNumerator x a) := by
  unfold Gadget.tangentNumerator
  infer_instance

instance tangentSlope : Requires P (Gadget.tangentSlope p a) := by
  unfold Gadget.tangentSlope
  infer_instance

instance chordAdd : Requires P (Gadget.chordAdd p q) := by
  unfold Gadget.chordAdd
  infer_instance

instance double : Requires P (Gadget.double p a) := by
  unfold Gadget.double
  infer_instance

instance negPoint : Requires P (Gadget.negPoint p) := by
  unfold Gadget.negPoint
  infer_instance

instance doubleAndAdd : Requires P (Gadget.doubleAndAdd p q) := by
  unfold Gadget.doubleAndAdd
  infer_instance

end Point

section Curve

variable (E : CurveParams) (p q : PointRegister E.base) (scalar : FieldRegister E.scalar)

instance completeSum : Requires E.base (Gadget.completeSum E p q) := by
  unfold Gadget.completeSum
  infer_instance

instance addPoint : Requires E.base (Gadget.addPoint E p q) := by
  unfold Gadget.addPoint
  infer_instance

instance foldScalar : Requires E.scalar (Gadget.foldScalar E scalar) := by
  unfold Gadget.foldScalar
  infer_instance

instance scalarMul_scalar : Requires E.scalar (Gadget.scalarMul E scalar p) := by
  unfold Gadget.scalarMul
  infer_instance

instance scalarMul_base : Requires E.base (Gadget.scalarMul E scalar p) := by
  unfold Gadget.scalarMul
  infer_instance

instance setAddPoint (r : PointRegister E.base) : Requires E.base (Gadget.setAddPoint E p q r) := by
  unfold Gadget.setAddPoint
  infer_instance

instance setScalarMul (P : FieldParams) (r : PointRegister E.base)
    [Requires P (Gadget.scalarMul E scalar p)] : Requires P (Gadget.setScalarMul E scalar p r) := by
  unfold Gadget.setScalarMul
  infer_instance

end Curve

end Requires

end ForeignCurve
