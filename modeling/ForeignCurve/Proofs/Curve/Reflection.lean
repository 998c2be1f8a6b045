import ForeignCurve.Proofs.Curve.Formulas

namespace ForeignCurve

namespace Coordinates

variable {F : Type} [Field F]

def reflect (ε : F) (P : Coordinates F) : Coordinates F :=
  ⟨P.x, ε * P.y⟩

variable {ε : F} {P Q : Coordinates F}

theorem reflect_one (P : Coordinates F) : P.reflect 1 = P :=
  Coordinates.ext rfl (one_mul P.y)

theorem reflect_neg_one (P : Coordinates F) : P.reflect (-1) = -P :=
  Coordinates.ext rfl (neg_one_mul P.y)

theorem neg_reflect (ε : F) (P : Coordinates F) : -P.reflect ε = (-P).reflect ε :=
  Coordinates.ext rfl (mul_neg ε P.y).symm

theorem zero_reflect (ε : F) : (0 : Coordinates F).reflect ε = 0 :=
  Coordinates.ext rfl (mul_zero ε)

theorem reflect_y_add (ε : F) (P Q : Coordinates F) :
    (P.reflect ε).y + (Q.reflect ε).y = ε * (P.y + Q.y) :=
  (mul_add ε P.y Q.y).symm

theorem two_mul_reflect_y (ε : F) (P : Coordinates F) : 2 * (P.reflect ε).y = ε * (2 * P.y) :=
  mul_left_comm 2 ε P.y

theorem chordSlope_reflect (ε : F) (P Q : Coordinates F) :
    (P.reflect ε).chordSlope (Q.reflect ε) = ε * P.chordSlope Q := by
  unfold chordSlope reflect
  rw [← mul_sub, mul_div_assoc]

section Sign

variable (hε : ε * ε = 1)

include hε

theorem sign_ne_zero : ε ≠ 0 :=
  left_ne_zero_of_mul_eq_one hε

theorem sign_mul_eq_zero_iff {x : F} : ε * x = 0 ↔ x = 0 :=
  mul_eq_zero.trans (or_iff_right (sign_ne_zero hε))

theorem square_sign_mul (x : F) : ε * x * (ε * x) = x * x := by
  rw [mul_mul_mul_comm, hε, one_mul]

theorem reflect_y_eq_zero_iff : (P.reflect ε).y = 0 ↔ P.y = 0 :=
  sign_mul_eq_zero_iff hε

theorem two_mul_reflect_y_eq_zero_iff : 2 * (P.reflect ε).y = 0 ↔ 2 * P.y = 0 := by
  rw [two_mul_reflect_y]
  exact sign_mul_eq_zero_iff hε

theorem div_sign_mul (x y : F) : x / (ε * y) = ε * (x / y) := by
  rw [div_mul_eq_div_div, ← mul_div_assoc]
  congr 1
  rw [div_eq_iff (sign_ne_zero hε), mul_right_comm, hε, one_mul]

theorem tangentSlope_reflect (a : F) : (P.reflect ε).tangentSlope a = ε * P.tangentSlope a := by
  unfold tangentSlope
  rw [two_mul_reflect_y, div_sign_mul hε]
  rfl

theorem chord_reflect (x s : F) : (P.reflect ε).chord x (ε * s) = (P.chord x s).reflect ε := by
  unfold chord reflect
  rw [square_sign_mul hε]
  apply Coordinates.ext
  · rfl
  · ring

theorem doubleAndAdd_reflect :
    (P.reflect ε).doubleAndAdd (Q.reflect ε) = (P.doubleAndAdd Q).reflect ε := by
  -- the two slopes have the same sign, so the second one is reflected with the first
  unfold doubleAndAdd
  rw [chordSlope_reflect]
  unfold reflect
  dsimp only
  rw [square_sign_mul hε, ← mul_add, mul_div_assoc, ← mul_add, square_sign_mul hε]
  apply Coordinates.ext
  · rfl
  · ring

variable [DecidableEq F]

theorem slope_reflect (a : F) : (P.reflect ε).slope (Q.reflect ε) a = ε * P.slope Q a := by
  unfold slope
  rw [reflect_y_add, chordSlope_reflect, tangentSlope_reflect hε, ← mul_zero ε, mul_ite, mul_ite]
  simp only [mul_zero, ne_eq, reflect_y_eq_zero_iff hε, sign_mul_eq_zero_iff hε]
  rfl

theorem sumWithSlope_reflect (s : F) :
    (P.reflect ε).sumWithSlope (Q.reflect ε) (ε * s) = (P.sumWithSlope Q s).reflect ε := by
  have hite (c : Prop) [Decidable c] (R S : Coordinates F) :
      (if c then R.reflect ε else S.reflect ε) = (if c then R else S).reflect ε :=
    (apply_ite (reflect ε) c R S).symm
  unfold sumWithSlope
  rw [reflect_y_add, chord_reflect hε, ← hite, ← hite, ← hite, zero_reflect]
  simp only [reflect_y_eq_zero_iff hε, sign_mul_eq_zero_iff hε]
  rfl

end Sign

end Coordinates

end ForeignCurve
