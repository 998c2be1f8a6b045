import ForeignCurve.Proofs.Curve.Group
import ForeignCurve.Proofs.Field.Headroom

/-!
The points of a nonsingular curve over a prime field of odd order. The reference arithmetic on their
reduced coordinates is the group law, points of order two included, and its multiples are those of the
group.
-/

namespace ForeignCurve

/-- A point of the curve, with reduced coordinates. The point at infinity is one. -/
structure Point.On (E : CurveParams) (P : Point) : Prop where
  reduced : P.Reduced E.base.modulus
  onCurve : P.onCurve E = true

namespace CurveParams

/-- A nonsingular curve over a prime field of odd order. No finite point of it is `(0, 0)`. -/
class Elliptic (E : CurveParams) : Prop where
  base_prime : E.base.modulus.Prime
  base_odd : E.base.modulus ≠ 2
  nonsingular : (4 * E.a ^ 3 + 27 * E.b ^ 2) % E.base.modulus ≠ 0
  b_ne_zero : E.b % E.base.modulus ≠ 0

abbrev Group (E : CurveParams) [Fact E.base.modulus.Prime] : Type :=
  (shortCurve (E.a : ZMod E.base.modulus) E.b).Point

variable {E : CurveParams}

theorem natCast_ne_zero {n : Nat} (h : n % E.base.modulus ≠ 0) : (n : ZMod E.base.modulus) ≠ 0 := by
  intro hzero
  exact h (Nat.mod_eq_zero_of_dvd ((ZMod.natCast_eq_zero_iff _ _).mp hzero))

open Coordinates

theorem onCurve_toPoint_iff [Fact E.base.modulus.Prime] {X : Coordinates (ZMod E.base.modulus)} :
    X.toPoint.onCurve E = true ↔ X = 0 ∨ X.Solves (E.a : ZMod E.base.modulus) E.b := by
  have hcast : X.toPoint.y * X.toPoint.y % E.base.modulus = (X.toPoint.x * X.toPoint.x * X.toPoint.x +
      E.a * X.toPoint.x + E.b) % E.base.modulus ↔ X.Solves (E.a : ZMod E.base.modulus) E.b := by
    rw [← ZMod.natCast_eq_natCast_iff']
    unfold toPoint Solves
    push_cast
    rw [ZMod.natCast_zmod_val, ZMod.natCast_zmod_val]
  unfold Point.onCurve
  rw [Bool.or_eq_true, isIdentity_toPoint, decide_eq_true_iff, hcast]

variable [hE : E.Elliptic]

instance : Fact E.base.modulus.Prime := ⟨hE.base_prime⟩

theorem b_ne_zero : (E.b : ZMod E.base.modulus) ≠ 0 :=
  natCast_ne_zero hE.b_ne_zero

theorem onCurve_iff {X : Coordinates (ZMod E.base.modulus)} :
    X.toPoint.onCurve E = true ↔ ∃ A : E.Group, of A = X := by
  have hΔ : (4 * (E.a : ZMod E.base.modulus) ^ 3 + 27 * (E.b : ZMod E.base.modulus) ^ 2) ≠ 0 := by
    have h := natCast_ne_zero hE.nonsingular
    push_cast at h
    exact h
  have hns (x y : ZMod E.base.modulus) :=
    nonsingular_shortCurve (x := x) (y := y) hΔ (two_ne_zero_of_odd hE.base_odd)
  rw [onCurve_toPoint_iff]
  constructor
  · rintro (rfl | h)
    · exact ⟨0, rfl⟩
    · exact ⟨.some X.x X.y ((hns _ _).mpr h), rfl⟩
  · rintro ⟨A, rfl⟩
    cases A with
    | zero => exact .inl rfl
    | some x y h => exact .inr ((hns x y).mp h)

theorem on_of (A : E.Group) : (of A).toPoint.On E where
  reduced := ⟨ZMod.val_lt _, ZMod.val_lt _⟩
  onCurve := onCurve_iff.mpr ⟨A, rfl⟩

theorem exists_of_on {P : Point} (h : P.On E) : ∃ A : E.Group, (of A).toPoint = P := by
  have hpoint : (ofPoint E.base.modulus P).toPoint = P := by
    rw [toPoint_ofPoint, Point.reduce_of_reduced h.reduced]
  have hcurve := h.onCurve
  rw [← hpoint] at hcurve
  obtain ⟨A, hA⟩ := onCurve_iff.mp hcurve
  exact ⟨A, by rw [hA, hpoint]⟩

section Reference

theorem neg_eq_ok (A : E.Group) : Point.neg E (of A).toPoint = .ok (of (-A)).toPoint := by
  rw [Point.neg_eq_ok, of_neg]

theorem double_of (A : E.Group) : (of A).double (E.a : ZMod E.base.modulus) = of (A + A) := by
  unfold double
  by_cases hy : (of A).y = 0
  · have hneg : A = -A := (two_mul_y_eq_zero_iff b_ne_zero).mp (by rw [hy, mul_zero])
    rw [if_pos hy, add_eq_zero_iff_eq_neg.mpr hneg]
    rfl
  · have hA : A ≠ 0 := fun h => hy (by rw [h]; rfl)
    rw [if_neg hy,
      of_double_eq_chord b_ne_zero hA (mul_ne_zero (two_ne_zero_of_odd hE.base_odd) hy)]

theorem add_eq_ok (A B : E.Group) :
    Point.add E (of A).toPoint (of B).toPoint = .ok (of (A + B)).toPoint := by
  rw [Point.add_eq_ok hE.base_odd, of_add b_ne_zero]

theorem mul_go_eq_ok {digits scalar : Nat} (h : scalar < 2 ^ digits) (acc power : E.Group) :
    Point.mul.go E digits scalar (of acc).toPoint (of power).toPoint =
      .ok (of (acc + scalar • power)).toPoint := by
  -- what is left of the scalar times the power is still to be added: with every digit the lowest one is taken
  -- off the scalar, and the power is doubled
  induction digits generalizing scalar acc power with
  | zero =>
    rw [Nat.pow_zero, Nat.lt_one_iff] at h
    rw [h, zero_nsmul, add_zero]
    rfl
  | succ digits ih =>
    have hlt : scalar / 2 < 2 ^ digits := by
      rw [Nat.pow_succ] at h
      omega
    have hsplit : scalar • power = (scalar % 2) • power + (scalar / 2) • (power + power) := by
      rw [← two_nsmul, ← mul_nsmul', ← add_nsmul, Nat.mul_comm, Nat.mod_add_div]
    have hdouble : Point.double E (of power).toPoint = .ok (of (power + power)).toPoint := by
      rw [Point.double_eq_ok hE.base_odd, double_of]
    rw [Point.mul.go]
    rcases Nat.mod_two_eq_zero_or_one scalar with hbit | hbit
    · rw [if_neg (by rw [hbit]; decide)]
      refine bind_eq_ok_iff.mpr ⟨_, rfl, bind_eq_ok_iff.mpr ⟨_, hdouble, ?_⟩⟩
      rw [ih hlt, hsplit, hbit, zero_nsmul, zero_add]
    · rw [if_pos hbit]
      refine bind_eq_ok_iff.mpr ⟨_, add_eq_ok acc power, ?_⟩
      refine bind_eq_ok_iff.mpr ⟨_, hdouble, ?_⟩
      rw [ih hlt, hsplit, hbit, one_nsmul, add_assoc]

theorem mul_eq_ok (A : E.Group) (scalar : Nat) :
    Point.mul E (of A).toPoint scalar = .ok (of (scalar • A)).toPoint := by
  unfold Point.mul
  rw [← toPoint_zero (p := E.base.modulus), ← of_zero (a := (E.a : ZMod E.base.modulus)) (b := E.b),
    mul_go_eq_ok (lt_two_pow_bitLength scalar), zero_add]

end Reference

section Action

variable {P : Point}

/--
The naturals act on the points of a curve by the reference multiple: it takes sums to sums, products to
multiples of multiples, and negatives to negatives.
-/
theorem mul_action (hP : P.On E) (m n : Nat) :
    Point.mul E P 0 = .ok .identity ∧ Point.mul E P 1 = .ok P ∧
      (∃ S, S.On E ∧ Point.mul E P (m + n) = .ok S ∧
        (do Point.add E (← Point.mul E P m) (← Point.mul E P n)) = .ok S) ∧
      (∃ S, S.On E ∧ Point.mul E P (m * n) = .ok S ∧
        (do Point.mul E (← Point.mul E P m) n) = .ok S) ∧
      (∃ S, S.On E ∧ (do Point.mul E (← Point.neg E P) m) = .ok S ∧
        (do Point.neg E (← Point.mul E P m)) = .ok S) := by
  obtain ⟨A, rfl⟩ := exists_of_on hP
  refine ⟨rfl, ?_, ⟨_, on_of ((m + n) • A), mul_eq_ok A _, ?_⟩,
    ⟨_, on_of ((m * n) • A), mul_eq_ok A _, ?_⟩, ⟨_, on_of (m • -A), ?_, ?_⟩⟩
  · rw [mul_eq_ok, one_nsmul]
  · refine bind_eq_ok_iff.mpr ⟨_, mul_eq_ok A m, bind_eq_ok_iff.mpr ⟨_, mul_eq_ok A n, ?_⟩⟩
    rw [add_eq_ok, add_nsmul]
  · refine bind_eq_ok_iff.mpr ⟨_, mul_eq_ok A m, ?_⟩
    rw [mul_eq_ok, mul_nsmul]
  · exact bind_eq_ok_iff.mpr ⟨_, neg_eq_ok A, mul_eq_ok (-A) m⟩
  · refine bind_eq_ok_iff.mpr ⟨_, mul_eq_ok A m, ?_⟩
    rw [neg_eq_ok, neg_nsmul]

def tinyBase : FieldParams where
  limbBits := 8
  limbs := 1
  witnessLimbs := 0
  offset := 256
  modulus := 7

def evenCurve : CurveParams where
  base := tinyBase
  scalar := { tinyBase with modulus := 12 }
  a := 3
  b := 1
  generator := ⟨2, 1⟩

instance : evenCurve.Elliptic where
  base_prime := by decide
  base_odd := by decide
  nonsingular := by decide
  b_ne_zero := by decide

theorem mul_action_evenCurve :
    let E := evenCurve
    let P := E.generator
    P.On E ∧ Point.mul E P 6 = .ok ⟨4, 0⟩ ∧ Point.mul E P 1 = .ok P ∧
      (∃ S, S.On E ∧ Point.mul E P (6 + 7) = .ok S ∧
        (do Point.add E (← Point.mul E P 6) (← Point.mul E P 7)) = .ok S) ∧
      (∃ S, S.On E ∧ Point.mul E P (6 * 7) = .ok S ∧
        (do Point.mul E (← Point.mul E P 6) 7) = .ok S) ∧
      (∃ S, S.On E ∧ (do Point.mul E (← Point.neg E P) 6) = .ok S ∧
        (do Point.neg E (← Point.mul E P 6)) = .ok S) := by
  have hon : evenCurve.generator.On evenCurve := ⟨⟨by decide, by decide⟩, by decide⟩
  exact ⟨hon, by decide, (mul_action hon 6 7).2⟩

end Action

end CurveParams

end ForeignCurve
