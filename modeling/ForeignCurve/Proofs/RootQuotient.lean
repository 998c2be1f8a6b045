import Mathlib.Algebra.Polynomial.Monic
import ForeignCurve.Proofs.Coefficients

namespace ForeignCurve.Poly

open Polynomial Fin.CommRing

def coeff (p : Poly) (i : Nat) : Native :=
  p.coeffs[i]?.getD 0

def constant (c : Native) : Poly :=
  ⟨[c]⟩

def linear (root : Native) : Poly :=
  ⟨[-root, 1]⟩

section Denotation

variable (p q : Poly)

theorem coeff_eq (i : Nat) : p.coeff i = (ofCoeffs p.coeffs).coeff i :=
  (coeff_ofCoeffs p.coeffs i).symm

theorem ofCoeffs_coeffs_add : ofCoeffs (p + q).coeffs = ofCoeffs p.coeffs + ofCoeffs q.coeffs :=
  ofCoeffs_addCoeffs p.coeffs q.coeffs

theorem ofCoeffs_coeffs_sub : ofCoeffs (p - q).coeffs = ofCoeffs p.coeffs - ofCoeffs q.coeffs :=
  ofCoeffs_subCoeffs p.coeffs q.coeffs

theorem ofCoeffs_coeffs_neg : ofCoeffs (-p).coeffs = -ofCoeffs p.coeffs :=
  ofCoeffs_map_neg p.coeffs

theorem ofCoeffs_coeffs_mul : ofCoeffs (p * q).coeffs = ofCoeffs p.coeffs * ofCoeffs q.coeffs :=
  ofCoeffs_mulCoeffs p.coeffs q.coeffs

theorem ofCoeffs_coeffs_constant (c : Native) : ofCoeffs (constant c).coeffs = C c := by
  simp [constant]

theorem ofCoeffs_coeffs_linear (root : Native) : ofCoeffs (linear root).coeffs = X - C root := by
  simp only [linear, ofCoeffs_cons, ofCoeffs_nil, C_neg, C_1]
  ring

variable {p q}

theorem eq_of_ofCoeffs_eq (hlen : p.coeffs.length = q.coeffs.length)
    (h : ofCoeffs p.coeffs = ofCoeffs q.coeffs) : p = q :=
  congrArg mk (ofCoeffs_injective hlen h)

protected theorem mul_comm (p q : Poly) : p * q = q * p := by
  apply eq_of_ofCoeffs_eq
  · change (mulCoeffs p.coeffs q.coeffs).length = (mulCoeffs q.coeffs p.coeffs).length
    rw [length_mulCoeffs_eq, length_mulCoeffs_eq]
    exact if_congr or_comm rfl (by rw [Nat.add_comm])
  · rw [ofCoeffs_coeffs_mul, ofCoeffs_coeffs_mul, mul_comm]

end Denotation

section Evaluation

variable (p q : Poly) (x : Native)

protected theorem eval_add : (p + q).eval x = p.eval x + q.eval x := by
  simp only [eval_eq, ofCoeffs_coeffs_add, Polynomial.eval_add]

protected theorem eval_sub : (p - q).eval x = p.eval x - q.eval x := by
  simp only [eval_eq, ofCoeffs_coeffs_sub, Polynomial.eval_sub]

protected theorem eval_neg : (-p).eval x = -p.eval x := by
  simp only [eval_eq, ofCoeffs_coeffs_neg, Polynomial.eval_neg]

protected theorem eval_mul : (p * q).eval x = p.eval x * q.eval x := by
  simp only [eval_eq, ofCoeffs_coeffs_mul, Polynomial.eval_mul]

end Evaluation

section Division

variable {p w : Poly} {root : Native}

theorem length_rootQuotient (p : Poly) (root : Native) :
    (p.rootQuotient root).coeffs.length = p.coeffs.length - 1 := by
  rw [rootQuotient, length_suffixEvals, List.length_tail]

theorem ofCoeffs_rootQuotient (p : Poly) (root : Native) :
    ofCoeffs p.coeffs = (X - C root) * ofCoeffs (p.rootQuotient root).coeffs + C (p.eval root) := by
  rw [eval_eq, rootQuotient]
  cases p.coeffs with
  | nil => simp [suffixEvals]
  | cons c cs => exact ofCoeffs_suffixEvals root c cs

theorem coeff_linear_mul_rootQuotient (p : Poly) (root : Native) (i : Nat) :
    (linear root * p.rootQuotient root + constant (p.eval root)).coeff i = p.coeff i := by
  rw [coeff_eq, coeff_eq, ofCoeffs_coeffs_add, ofCoeffs_coeffs_mul, ofCoeffs_coeffs_linear,
    ofCoeffs_coeffs_constant, ← ofCoeffs_rootQuotient]

theorem length_linear_mul (hw : w.coeffs ≠ []) :
    (linear root * w).coeffs.length = w.coeffs.length + 1 := by
  have hlen : (linear root * w).coeffs.length = 2 + w.coeffs.length - 1 :=
    length_mulCoeffs (List.cons_ne_nil _ _) hw
  omega

theorem linear_mul_eq_iff (heval : p.eval root = 0) (hlen : 2 ≤ p.coeffs.length)
    (hw : w.coeffs.length = p.coeffs.length - 1) :
    linear root * w = p ↔ w = p.rootQuotient root := by
  have hquotient := ofCoeffs_rootQuotient p root
  rw [heval, C_0, add_zero] at hquotient
  have hproduct (w : Poly) : ofCoeffs (linear root * w).coeffs = (X - C root) * ofCoeffs w.coeffs := by
    rw [ofCoeffs_coeffs_mul, ofCoeffs_coeffs_linear]
  constructor
  · intro h
    apply eq_of_ofCoeffs_eq
    · rw [hw, length_rootQuotient]
    · -- a monic factor cancels, whatever the ring
      apply (monic_X_sub_C root).isRegular.left
      change (X - C root) * ofCoeffs w.coeffs = (X - C root) * _
      rw [← hproduct, h, hquotient]
  · rintro rfl
    apply eq_of_ofCoeffs_eq
    · have hne : (p.rootQuotient root).coeffs ≠ [] := List.ne_nil_of_length_pos (by omega)
      rw [length_linear_mul hne]
      omega
    · rw [hproduct, ← hquotient]

end Division

/--
Evaluation at a point respects sums, differences, negations and products. A polynomial is `x - root` times
its quotient and its value at the root, which is the remainder. At a root of it the product with `x - root`
gives the list of its coefficients back, and it does so for no other list as long as the quotient.
-/
theorem eval_rootQuotient_exact (p q : Poly) (root : Native) :
    ((p + q).eval root = p.eval root + q.eval root ∧ (p - q).eval root = p.eval root - q.eval root ∧
        (-p).eval root = -p.eval root ∧ (p * q).eval root = p.eval root * q.eval root) ∧
      (p.rootQuotient root).coeffs.length = p.coeffs.length - 1 ∧
      (∀ i, p.coeff i = (linear root * p.rootQuotient root + constant (p.eval root)).coeff i) ∧
      (p.eval root = 0 → 2 ≤ p.coeffs.length →
        linear root * p.rootQuotient root = p ∧ p.rootQuotient root * linear root = p ∧
          ∀ w : Poly, w.coeffs.length = p.coeffs.length - 1 →
            linear root * w = p ∨ w * linear root = p → w = p.rootQuotient root) := by
  refine ⟨⟨p.eval_add q root, p.eval_sub q root, p.eval_neg root, p.eval_mul q root⟩,
    length_rootQuotient p root, fun i => (coeff_linear_mul_rootQuotient p root i).symm, ?_⟩
  intro heval hlen
  have hproduct : linear root * p.rootQuotient root = p :=
    (linear_mul_eq_iff heval hlen (length_rootQuotient p root)).mpr rfl
  refine ⟨hproduct, (Poly.mul_comm _ _).trans hproduct, fun w hw h => ?_⟩
  rw [Poly.mul_comm w, or_self] at h
  exact (linear_mul_eq_iff heval hlen hw).mp h

theorem eval_rootQuotient_exact_cubic :
    let p : Poly := ⟨[-15, -1, -1, 1, 0]⟩
    p.eval 3 = 0 ∧ 2 ≤ p.coeffs.length ∧ p.rootQuotient 3 = ⟨[5, 2, 1, 0]⟩ ∧
      linear 3 * p.rootQuotient 3 = p ∧ ∀ w : Poly, w.coeffs.length = 4 → w * linear 3 = p →
        w = p.rootQuotient 3 := by
  -- the product of `x - 3` and `x^2 + 2x + 5`, written with a leading zero
  intro p
  have heval : p.eval 3 = 0 := by decide
  have hlen : 2 ≤ p.coeffs.length := by decide
  obtain ⟨-, -, -, hdivision⟩ := eval_rootQuotient_exact p p 3
  obtain ⟨hproduct, -, hunique⟩ := hdivision heval hlen
  exact ⟨heval, hlen, by decide, hproduct, fun w hw h => hunique w hw (.inr h)⟩

end ForeignCurve.Poly
