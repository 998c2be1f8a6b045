import ForeignCurve.Proofs.Gadget.Report
import ForeignCurve.Proofs.Gadget.Returns
import ForeignCurve.Proofs.Gadget.ScalarMul

namespace ForeignCurve

namespace Records

instance append (i : Instruction) : Records (Record.append i) where
  records _ := ⟨(), _, rfl, rfl⟩

instance setToCopyPoint {P : FieldParams} (source target : PointRegister P) :
    Records (Gadget.setToCopyPoint source target) := by
  unfold Gadget.setToCopyPoint Gadget.setToCopy
  infer_instance

def logic : RecordLogic :=
  (PrimitiveLogic.reporting fun P => P.headroom = .ok ()).toRecordLogic

theorem of_step {α : Type} {g : Record α} {R : α → α → Prop} [Returns g] (h : logic.Step g g R) :
    Records g :=
  of_returns fun b a b' hrun => (h b a b' hrun).1.eq_of_headroom fun _ hP => hP

theorem same {k : Kind} (r : Register k) : logic.Same r r :=
  (rfl : r.slice.len = r.slice.len)

theorem samePoint {P : FieldParams} (p : PointRegister P) : logic.SamePoint p p :=
  ⟨same p.x, same p.y⟩

section Field

variable {P : FieldParams} [hP : P.HasHeadroom]

omit hP in
instance select (bit : Register .bit) (ifTrue ifFalse : FieldRegister P) :
    Records (Gadget.select bit ifTrue ifFalse) :=
  of_step (logic.select (same bit) (same ifTrue) (same ifFalse))

instance add (a b : FieldRegister P) : Records (Gadget.add a b) :=
  of_step (logic.add hP.headroom_eq (same a) (same b))

instance sub (a b : FieldRegister P) : Records (Gadget.sub a b) :=
  of_step (logic.sub hP.headroom_eq (same a) (same b))

instance mul (a b : FieldRegister P) : Records (Gadget.mul a b) :=
  of_step (logic.mul hP.headroom_eq (same a) (same b))

instance blend (selector a b : FieldRegister P) : Records (Gadget.blend selector a b) :=
  of_step (RecordLogic.blend hP.headroom_eq (same selector) (same a) (same b))

instance assertCanonical (a : FieldRegister P) : Records (Gadget.assertCanonical a) :=
  of_step (logic.assertCanonical hP.headroom_eq (same a))

variable [NeZero P.modulus]

instance constant (value : Nat) : Records (Gadget.constant P value) :=
  of_step (logic.constant value hP.headroom_eq)

instance neg (a : FieldRegister P) : Records (Gadget.neg a) :=
  of_step (RecordLogic.neg hP.headroom_eq (same a))

instance div (a b : FieldRegister P) : Records (Gadget.div a b) :=
  of_step (RecordLogic.div hP.headroom_eq (same a) (same b))

instance inverseOrZero (a : FieldRegister P) : Records (Gadget.inverseOrZero a) :=
  of_step (RecordLogic.inverseOrZero hP.headroom_eq (same a))

end Field

section Point

variable {P : FieldParams} [hP : P.HasHeadroom] [NeZero P.modulus] (p q : PointRegister P)

instance chordAdd : Records (Gadget.chordAdd p q) :=
  of_step (RecordLogic.chordAdd hP.headroom_eq (samePoint p) (samePoint q))

instance double (a : FieldRegister P) : Records (Gadget.double p a) :=
  of_step (RecordLogic.double hP.headroom_eq (samePoint p) (same a))

instance negPoint : Records (Gadget.negPoint p) :=
  of_step (RecordLogic.negPoint hP.headroom_eq (samePoint p))

instance doubleAndAdd : Records (Gadget.doubleAndAdd p q) :=
  of_step (RecordLogic.doubleAndAdd hP.headroom_eq (samePoint p) (samePoint q))

end Point

section Curve

instance completeSum (E : CurveParams) [hE : E.base.HasHeadroom] [NeZero E.base.modulus] (p q : PointRegister E.base) :
    Records (Gadget.completeSum E p q) :=
  of_step (RecordLogic.completeSum hE.headroom_eq (samePoint p) (samePoint q))

instance addPoint (E : CurveParams) [hE : E.base.HasHeadroom] [NeZero E.base.modulus] (p q : PointRegister E.base) :
    Records (Gadget.addPoint E p q) :=
  of_step (RecordLogic.addPoint hE.headroom_eq (samePoint p) (samePoint q))

instance scalarMul {E : CurveParams} [hS : E.scalar.HasHeadroom] [hB : E.base.HasHeadroom] [E.Scalable]
    (scalar : FieldRegister E.scalar) (point : PointRegister E.base) :
    Records (Gadget.scalarMul E scalar point) :=
  of_step (RecordLogic.scalarMul hS.headroom_eq hB.headroom_eq (same scalar) (samePoint point))

end Curve

end Records

end ForeignCurve
