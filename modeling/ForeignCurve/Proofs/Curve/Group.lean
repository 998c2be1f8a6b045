import Mathlib.AlgebraicGeometry.EllipticCurve.Affine.Point
import ForeignCurve.Proofs.Curve.Formulas

namespace ForeignCurve

open WeierstrassCurve.Affine

section Curve

variable {F : Type} [Field F]

def shortCurve (a b : F) : WeierstrassCurve.Affine F where
  a₁ := 0
  a₂ := 0
  a₃ := 0
  a₄ := a
  a₆ := b

variable {a b : F}

theorem equation_shortCurve (x y : F) :
    (shortCurve a b).Equation x y ↔ y * y = x * x * x + a * x + b := by
  rw [equation_iff]
  have hlhs : y ^ 2 + (shortCurve a b).a₁ * x * y + (shortCurve a b).a₃ * y = y * y := by
    change y ^ 2 + 0 * x * y + 0 * y = y * y
    ring
  have hrhs : x ^ 3 + (shortCurve a b).a₂ * x ^ 2 + (shortCurve a b).a₄ * x +
      (shortCurve a b).a₆ = x * x * x + a * x + b := by
    change x ^ 3 + 0 * x ^ 2 + a * x + b = x * x * x + a * x + b
    ring
  rw [hlhs, hrhs]

theorem negY_shortCurve (x y : F) : (shortCurve a b).negY x y = -y := by
  change -y - 0 * x - 0 = -y
  ring

theorem nonsingular_shortCurve (hΔ : 4 * a ^ 3 + 27 * b ^ 2 ≠ 0) (htwo : (2 : F) ≠ 0) {x y : F} :
    (shortCurve a b).Nonsingular x y ↔ y * y = x * x * x + a * x + b := by
  have hdisc : (shortCurve a b).Δ = -(2 * 2 * 2 * 2) * (4 * a ^ 3 + 27 * b ^ 2) := by
    simp only [WeierstrassCurve.Δ, WeierstrassCurve.b₂, WeierstrassCurve.b₄, WeierstrassCurve.b₆,
      WeierstrassCurve.b₈, shortCurve]
    ring
  have hne : (shortCurve a b).Δ ≠ 0 := by
    rw [hdisc]
    exact mul_ne_zero (neg_ne_zero.mpr (by simp [htwo])) hΔ
  rw [← equation_iff_nonsingular_of_Δ_ne_zero hne, equation_shortCurve]

namespace Coordinates

def of : (shortCurve a b).Point → Coordinates F
  | .zero => 0
  | .some x y _ => ⟨x, y⟩

variable {A B : (shortCurve a b).Point}

theorem of_zero : of (0 : (shortCurve a b).Point) = 0 := rfl

theorem of_some {x y : F} (h : (shortCurve a b).Nonsingular x y) :
    of (.some x y h) = ⟨x, y⟩ := rfl

theorem of_solves (hA : A ≠ 0) : (of A).Solves a b := by
  cases A with
  | zero => exact absurd rfl hA
  | some x y h => exact (equation_shortCurve x y).mp h.1

theorem of_neg (A : (shortCurve a b).Point) : of (-A) = -of A := by
  cases A with
  | zero => exact Coordinates.ext rfl neg_zero.symm
  | some x y h => exact Coordinates.ext rfl (negY_shortCurve x y)

section Identity

variable (hb : b ≠ 0)

include hb

theorem Solves.ne_zero {P : Coordinates F} (h : P.Solves a b) : P ≠ 0 := by
  rintro rfl
  unfold Solves at h
  change (0 : F) * 0 = 0 * 0 * 0 + a * 0 + b at h
  rw [mul_zero, mul_zero, mul_zero, zero_add, zero_add] at h
  exact hb h.symm

theorem of_some_ne_zero {x y : F} (h : (shortCurve a b).Nonsingular x y) :
    (⟨x, y⟩ : Coordinates F) ≠ 0 :=
  Solves.ne_zero hb ((equation_shortCurve x y).mp h.1)

theorem of_eq_zero_iff : of A = 0 ↔ A = 0 := by
  cases A with
  | zero => exact ⟨fun _ => rfl, fun _ => rfl⟩
  | some x y h =>
    exact ⟨fun hzero => absurd hzero (of_some_ne_zero hb h), fun hzero => absurd hzero (by simp)⟩

theorem of_injective : Function.Injective (of (a := a) (b := b)) := by
  intro A B h
  cases A with
  | zero => exact ((of_eq_zero_iff hb).mp h.symm).symm
  | some x y hA =>
    cases B with
    | zero => exact (of_eq_zero_iff hb).mp h
    | some x' y' hB =>
      obtain ⟨hx, hy⟩ := Coordinates.ext_iff.mp h
      change x = x' at hx
      change y = y' at hy
      subst hx hy
      rfl

end Identity

theorem x_eq_iff (hA : A ≠ 0) (hB : B ≠ 0) : (of A).x = (of B).x ↔ A = B ∨ A = -B := by
  cases A with
  | zero => exact absurd rfl hA
  | some x y h =>
    cases B with
    | zero => exact absurd rfl hB
    | some x' y' h' => exact Point.X_eq_iff

theorem two_mul_y_eq_zero_iff (hb : b ≠ 0) : 2 * (of A).y = 0 ↔ A = -A := by
  rw [two_mul, add_eq_zero_iff_eq_neg]
  constructor
  · intro hy
    apply of_injective hb
    rw [of_neg]
    exact Coordinates.ext rfl hy
  · intro h
    have hy := congrArg (fun B => (of B).y) h
    rw [of_neg] at hy
    exact hy

theorem addX_shortCurve (x x' s : F) : (shortCurve a b).addX x x' s = s * s - x - x' := by
  change s ^ 2 + 0 * s - 0 - x - x' = _
  ring

theorem addY_shortCurve (x x' y s : F) :
    (shortCurve a b).addY x x' y s = s * (x - (s * s - x - x')) - y := by
  change (shortCurve a b).negY _ _ = _
  rw [negY_shortCurve, negAddY, addX_shortCurve]
  ring

variable [DecidableEq F]

theorem slope_shortCurve {x x' y y' : F} (hx : x ≠ x') :
    (shortCurve a b).slope x x' y y' = chordSlope ⟨x, y⟩ ⟨x', y'⟩ := by
  rw [slope_of_X_ne hx, chordSlope_comm]
  rfl

theorem Solves.chord {P Q : Coordinates F} (hP : P.Solves a b) (hQ : Q.Solves a b) (hx : P.x ≠ Q.x) :
    (P.chord Q.x (P.chordSlope Q)).Solves a b := by
  have h := equation_add ((equation_shortCurve P.x P.y).mpr hP) ((equation_shortCurve Q.x Q.y).mpr hQ)
    fun heq => hx heq.1
  rwa [slope_shortCurve hx, addX_shortCurve, addY_shortCurve, equation_shortCurve] at h

theorem add_add_eq_doubleAndAdd (hb : b ≠ 0) {T Q : Coordinates F} (hT : T.Solves a b)
    (hQ : Q.Solves a b) (hx : T.x ≠ Q.x) (hx' : (T.add Q a).x ≠ T.x) :
    (T.add Q a).add T a = T.doubleAndAdd Q := by
  have hT' := hT.ne_zero hb
  -- the sum is on the curve, so it is not mistaken for the point at infinity
  have hsum := (hT.chord hQ hx).ne_zero hb
  rw [add_eq_chord hT' (hQ.ne_zero hb) hx] at hx' ⊢
  rw [add_eq_chord hsum hT' hx', chord_comm hx'.symm, doubleAndAdd_eq_chord hx']

theorem of_add_some {x x' y y' : F} {h : (shortCurve a b).Nonsingular x y}
    {h' : (shortCurve a b).Nonsingular x' y'} (hne : ¬(x = x' ∧ y = -y')) :
    of (.some x y h + .some x' y' h') =
      chord ⟨x, y⟩ x' ((shortCurve a b).slope x x' y y') := by
  have hxy : ¬(x = x' ∧ y = (shortCurve a b).negY x' y') := by
    rw [negY_shortCurve]
    exact hne
  rw [Point.add_some hxy]
  exact Coordinates.ext (addX_shortCurve x x' _) (addY_shortCurve x x' y _)

theorem of_add (hb : b ≠ 0) (A B : (shortCurve a b).Point) :
    of (A + B) = (of A).add (of B) a := by
  unfold add
  by_cases hA : A = 0
  · rw [hA, zero_add, of_zero, if_pos rfl]
  rw [if_neg (fun h => hA ((of_eq_zero_iff hb).mp h))]
  by_cases hB : B = 0
  · rw [hB, add_zero, of_zero, if_pos rfl]
  rw [if_neg (fun h => hB ((of_eq_zero_iff hb).mp h))]
  cases A with
  | zero => exact absurd rfl hA
  | some x y h =>
    cases B with
    | zero => exact absurd rfl hB
    | some x' y' h' =>
      rw [of_some h, of_some h']
      dsimp only
      by_cases hx : x = x'
      · rw [if_pos hx]
        by_cases hy : y + y' = 0
        · rw [if_pos hy]
          have hneg := eq_neg_of_add_eq_zero_left hy
          rw [Point.add_of_Y_eq hx (by rw [negY_shortCurve]; exact hneg)]
          rfl
        · have hne : y ≠ (shortCurve a b).negY x' y' := by
            rw [negY_shortCurve]
            exact fun hneg => hy (by rw [hneg, neg_add_cancel])
          -- equal abscissas and not opposite: the two points are the same, and it is doubled
          have hyy : y = y' := Y_eq_of_Y_ne h.1 h'.1 hx hne
          have hpos : y ≠ 0 := by
            intro hzero
            rw [← hyy, hzero, add_zero] at hy
            exact hy rfl
          rw [if_neg hy, of_add_some (fun hxy => hy (by rw [hxy.2, neg_add_cancel])),
            slope_of_Y_ne hx hne, negY_shortCurve]
          unfold double tangentSlope
          dsimp only
          rw [if_neg hpos, ← hx]
          congr 1
          change (3 * x ^ 2 + 2 * 0 * x + a - 0 * y) / (y - -y) = _
          congr 1
          · ring
          · ring
      · rw [if_neg hx, of_add_some (fun hxy => hx hxy.1), slope_shortCurve hx]

section Incomplete

variable (hb : b ≠ 0) (hA : A ≠ 0)

include hb hA

theorem of_add_eq_chord (hB : B ≠ 0) (hx : (of A).x ≠ (of B).x) :
    of (A + B) = (of A).chord (of B).x ((of A).chordSlope (of B)) := by
  rw [of_add hb, add_eq_chord (mt (of_eq_zero_iff hb).mp hA) (mt (of_eq_zero_iff hb).mp hB) hx]

theorem of_double_eq_chord (hy : 2 * (of A).y ≠ 0) :
    of (A + A) = (of A).chord (of A).x ((of A).tangentSlope a) := by
  have hzero : ¬(of A).y + (of A).y = 0 := by
    rw [← two_mul]
    exact hy
  have hy' : (of A).y ≠ 0 := fun h => hy (by rw [h, mul_zero])
  have hne : of A ≠ 0 := mt (of_eq_zero_iff hb).mp hA
  rw [of_add hb, add, if_neg hne, if_neg hne, if_pos rfl, if_neg hzero, double_eq_chord hy']

theorem of_doubleAndAdd (hB : B ≠ 0) (hx : (of A).x ≠ (of B).x)
    (hx' : (of (A + B)).x ≠ (of A).x) :
    of (A + (A + B)) = (of A).doubleAndAdd (of B) := by
  rw [of_add hb] at hx'
  rw [add_comm, of_add hb, of_add hb, add_add_eq_doubleAndAdd hb (of_solves hA) (of_solves hB) hx hx']

end Incomplete

end Coordinates

end Curve

end ForeignCurve
