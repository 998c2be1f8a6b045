import ForeignCurve.Proofs.Field.Quotient

namespace ForeignCurve

open Polynomial Fin.CommRing

inductive Side where
  | sum
  | product
deriving DecidableEq

namespace Side

def apply {R : Type} [Add R] [Mul R] : Side → R → R → R
  | sum, a, b => a + b
  | product, a, b => a * b

def combine {V : Type} [Arith V] : Side → List V → List V → List V
  | sum => Arith.polyAdd
  | product => Arith.polyMul

def poly : Side → List Native → List Native → Poly
  | sum, a, b => ⟨a⟩ + ⟨b⟩
  | product, a, b => ⟨a⟩ * ⟨b⟩

theorem map_apply {R S : Type} [CommRing R] [CommRing S] (f : R →+* S) (s : Side) (a b : R) :
    f (s.apply a b) = s.apply (f a) (f b) := by
  cases s with
  | sum => exact map_add f a b
  | product => exact map_mul f a b

theorem natCast_apply {R : Type} [CommRing R] (s : Side) (a b : Nat) :
    ((s.apply a b : Nat) : R) = s.apply (a : R) (b : R) := by
  cases s with
  | sum => exact Nat.cast_add a b
  | product => exact Nat.cast_mul a b

theorem ofCoeffs_combine (s : Side) (a b : List Native) :
    ofCoeffs (s.combine a b) = s.apply (ofCoeffs a) (ofCoeffs b) := by
  cases s with
  | sum => exact Arith.ofCoeffs_polyAdd a b
  | product => exact Arith.ofCoeffs_polyMul a b

theorem coeffs_poly (s : Side) (a b : List Native) : (s.poly a b).coeffs = s.combine a b := by
  cases s with
  | sum => exact Poly.addCoeffs_eq a b
  | product => exact Poly.mulCoeffs_eq a b

theorem length_combine_le (s : Side) {a b : List Native} {k : Nat} (hk : 0 < k)
    (ha : a.length = k) (hb : b.length = k) :
    k ≤ (s.combine a b).length ∧ (s.combine a b).length ≤ 2 * k - 1 := by
  cases s with
  | sum =>
    rw [combine, Arith.length_polyAdd, ha, hb]
    omega
  | product =>
    rw [combine, Arith.length_polyMul (List.length_pos_iff.mp (by omega))
      (List.length_pos_iff.mp (by omega)), ha, hb]
    omega

end Side

namespace Identity

def vanishing (P : FieldParams) (s : Side) (a b result carry : List Native) : List Native :=
  Arith.polySub (Arith.polySub (s.combine a b) result)
    (Arith.polyMul carry (Arith.constPoly (P.digits P.modulus)))

noncomputable def vanishingInt (P : FieldParams) (s : Side) (a b result carry : List Native) :
    ℤ[X] :=
  s.apply (liftCoeffs a) (liftCoeffs b) - liftCoeffs result -
    liftCoeffs carry * liftCoeffs (P.digits P.modulus)

variable {P : FieldParams} [P.HasHeadroom] {s : Side} {a b result carry : List Native}

theorem length_vanishing (ha : a.length = P.limbs) (hb : b.length = P.limbs)
    (hr : result.length = P.limbs) (hc : carry.length = P.limbs) :
    (vanishing P s a b result carry).length = 2 * P.limbs - 1 := by
  have hpos := FieldParams.limbs_pos (P := P)
  have hside := s.length_combine_le hpos ha hb
  unfold vanishing
  rw [Arith.length_polySub, Arith.length_polySub, Arith.constPoly_native,
    Arith.length_polyMul (List.length_pos_iff.mp (by omega))
      (List.length_pos_iff.mp (by rw [FieldParams.length_digits]; omega)),
    FieldParams.length_digits, hr, hc]
  omega

omit [P.HasHeadroom] in
theorem map_vanishingInt (s : Side) (a b result carry : List Native) :
    (vanishingInt P s a b result carry).map Native.cast =
      ofCoeffs (vanishing P s a b result carry) := by
  have hside : (s.apply (liftCoeffs a) (liftCoeffs b)).map Native.cast =
      s.apply (ofCoeffs a) (ofCoeffs b) := by
    rw [← map_liftCoeffs a, ← map_liftCoeffs b]
    exact s.map_apply (mapRingHom Native.cast) _ _
  unfold vanishing vanishingInt
  rw [Arith.ofCoeffs_polySub, Arith.ofCoeffs_polySub, Arith.constPoly_native,
    Arith.ofCoeffs_polyMul, s.ofCoeffs_combine, Polynomial.map_sub, Polynomial.map_sub,
    Polynomial.map_mul, hside, map_liftCoeffs, map_liftCoeffs, map_liftCoeffs]

theorem eval_vanishingInt (s : Side) (a b result carry : List Native) :
    (vanishingInt P s a b result carry).eval P.intBase =
      (s.apply (P.decode a) (P.decode b) : Nat) -
        ((P.decode result + P.decode carry * P.modulus : Nat) : ℤ) := by
  have hlift (limbs : List Native) : (liftCoeffs limbs).eval P.intBase = (P.decode limbs : ℤ) :=
    eval_liftCoeffs P.limbBits limbs
  have hside : (s.apply (liftCoeffs a) (liftCoeffs b)).eval P.intBase =
      (s.apply (P.decode a) (P.decode b) : Nat) := by
    rw [s.natCast_apply, ← hlift a, ← hlift b]
    exact s.map_apply (evalRingHom P.intBase) _ _
  unfold vanishingInt
  rw [eval_sub, eval_sub, eval_mul, hside, hlift, hlift, hlift,
    FieldParams.decode_digits_of_lt FieldParams.modulus_lt]
  push_cast
  ring

theorem coeff_liftCoeffs_mem {limbs : List Native} (h : P.InRange limbs) (i : Nat) :
    0 ≤ (liftCoeffs limbs).coeff i ∧ (liftCoeffs limbs).coeff i ≤ P.intBase - 1 := by
  have hB := FieldParams.two_le_intBase (P := P)
  apply coeff_ofCoeffs_mem (le_refl 0) (by linarith)
  intro c hc
  obtain ⟨limb, hlimb, rfl⟩ := List.mem_map.mp hc
  have hlt := FieldParams.val_lt_intBase h hlimb
  exact ⟨Int.natCast_nonneg _, by linarith⟩

theorem coeff_liftCoeffs_mul_mem {x y : List Native} (hx : P.InRange x) (hy : P.InRange y)
    (hlen : x.length = P.limbs) (i : Nat) :
    0 ≤ (liftCoeffs x * liftCoeffs y).coeff i ∧ (liftCoeffs x * liftCoeffs y).coeff i ≤
      P.limbs * ((P.intBase - 1) * (P.intBase - 1)) := by
  have hmem : ∀ c ∈ x.map (fun limb => (limb.val : ℤ)), 0 ≤ c ∧ c ≤ P.intBase - 1 := by
    intro c hc
    obtain ⟨limb, hlimb, rfl⟩ := List.mem_map.mp hc
    have hlt := FieldParams.val_lt_intBase hx hlimb
    exact ⟨Int.natCast_nonneg _, by linarith⟩
  have h := coeff_mul_mem hmem (coeff_liftCoeffs_mem hy) i
  rwa [List.length_map, hlen] at h

theorem coeff_apply_mem (s : Side) (ha : P.InRange a) (hb : P.InRange b)
    (hlen : a.length = P.limbs) (i : Nat) :
    0 ≤ (s.apply (liftCoeffs a) (liftCoeffs b)).coeff i ∧
      (s.apply (liftCoeffs a) (liftCoeffs b)).coeff i ≤ P.coefficientBound := by
  have hB := FieldParams.two_le_intBase (P := P)
  have hk := FieldParams.one_le_limbs (P := P)
  unfold FieldParams.coefficientBound
  cases s with
  | sum =>
    have hai := coeff_liftCoeffs_mem ha i
    have hbi := coeff_liftCoeffs_mem hb i
    have hone : 1 ≤ P.limbs * (P.intBase - 1) := one_le_mul_of_one_le_of_one_le hk (by linarith)
    have hle : P.intBase - 1 ≤ (P.intBase - 1) * (P.limbs * (P.intBase - 1)) :=
      le_mul_of_one_le_right (by linarith) hone
    rw [Side.apply, coeff_add]
    constructor <;> linarith [hai.1, hai.2, hbi.1, hbi.2]
  | product =>
    have hmul := coeff_liftCoeffs_mul_mem ha hb hlen i
    rw [Side.apply]
    constructor <;> linarith [hmul.1, hmul.2]

theorem abs_coeff_vanishingInt_le (s : Side) (ha : P.InRange a) (hb : P.InRange b)
    (hr : P.InRange result) (hc : P.InRange carry) (hlena : a.length = P.limbs)
    (hlenc : carry.length = P.limbs) (i : Nat) :
    |(vanishingInt P s a b result carry).coeff i| ≤ P.coefficientBound := by
  have hB := FieldParams.two_le_intBase (P := P)
  have hside := coeff_apply_mem s ha hb hlena i
  have hri := coeff_liftCoeffs_mem hr i
  have hmul := coeff_liftCoeffs_mul_mem hc (P.inRange_digits P.modulus) hlenc i
  have hbound : P.coefficientBound =
      P.limbs * ((P.intBase - 1) * (P.intBase - 1)) + (P.intBase - 1) := by
    unfold FieldParams.coefficientBound
    ring
  unfold vanishingInt
  rw [coeff_sub, coeff_sub, abs_le]
  constructor <;> linarith [hside.1, hside.2, hri.1, hri.2, hmul.1, hmul.2]

omit [P.HasHeadroom] in
theorem natDegree_liftCoeffs_le (limbs : List Native) :
    (liftCoeffs limbs).natDegree ≤ limbs.length - 1 := by
  rw [natDegree_le_iff_coeff_eq_zero]
  intro i hi
  apply coeff_ofCoeffs_of_le
  rw [List.length_map]
  omega

theorem coeff_vanishingInt_eq_zero (s : Side) (ha : a.length = P.limbs) (hb : b.length = P.limbs)
    (hr : result.length = P.limbs) (hc : carry.length = P.limbs) (i : Nat)
    (hi : 2 * P.limbs - 1 ≤ i) : (vanishingInt P s a b result carry).coeff i = 0 := by
  have hpos := FieldParams.limbs_pos (P := P)
  have hzero {limbs : List Native} (hlen : limbs.length = P.limbs) :
      (liftCoeffs limbs).coeff i = 0 := by
    apply coeff_ofCoeffs_of_le
    rw [List.length_map]
    omega
  have hmul {x y : List Native} (hx : x.length = P.limbs) (hy : y.length = P.limbs) :
      (liftCoeffs x * liftCoeffs y).coeff i = 0 := by
    apply coeff_eq_zero_of_natDegree_lt
    have hdx := natDegree_liftCoeffs_le x
    have hdy := natDegree_liftCoeffs_le y
    have hle := natDegree_mul_le (p := liftCoeffs x) (q := liftCoeffs y)
    omega
  unfold vanishingInt
  rw [coeff_sub, coeff_sub, hzero hr, hmul hc (FieldParams.length_digits _)]
  cases s with
  | sum =>
    rw [Side.apply, coeff_add, hzero ha, hzero hb]
    rfl
  | product =>
    rw [Side.apply, hmul ha hb]
    rfl

section Limbs

variable (hlena : a.length = P.limbs) (hlenb : b.length = P.limbs)
  (hlenr : result.length = P.limbs) (hlenc : carry.length = P.limbs)
  (ha : P.InRange a) (hb : P.InRange b) (hr : P.InRange result) (hc : P.InRange carry)

include hlena hlenc ha hb hr hc

theorem apply_eq_of_constraints {low high : List Native} (hlow : P.InRange low)
    (hhigh : P.InRange high) (hlen : low.length = high.length)
    (h : ∀ c ∈ quotientConstraints P (vanishing P s a b result carry) low high, c = 0) :
    s.apply (P.decode a) (P.decode b) = P.decode result + P.decode carry * P.modulus := by
  have hzero := eval_eq_zero_of_constraints (map_vanishingInt s a b result carry)
    (abs_coeff_vanishingInt_le s ha hb hr hc hlena hlenc) hlow hhigh hlen h
  rw [eval_vanishingInt, sub_eq_zero] at hzero
  exact_mod_cast hzero

include hlenb hlenr

theorem exists_quotient
    (h : s.apply (P.decode a) (P.decode b) = P.decode result + P.decode carry * P.modulus) :
    ∃ w, quotient P ⟨vanishing P s a b result carry⟩ = .ok w ∧
      w.length = P.witnessLimbs ∧ (∀ c ∈ w, c.val < 2 ^ (2 * P.limbBits)) ∧
      ∀ c ∈ quotientConstraints P (vanishing P s a b result carry)
        (w.map fun c => Native.ofNat (c.val % 2 ^ P.limbBits))
        (w.map fun c => Native.ofNat (c.val >>> P.limbBits)), c = 0 := by
  have hpos := FieldParams.limbs_pos (P := P)
  have hlen := length_vanishing (s := s) hlena hlenb hlenr hlenc
  have hmap := map_vanishingInt (P := P) s a b result carry
  have hzero : (vanishingInt P s a b result carry).eval P.intBase = 0 := by
    rw [eval_vanishingInt, h, sub_self]
  obtain ⟨hok, hlt⟩ := quotient_eq_ok hlen hmap
    (coeff_vanishingInt_eq_zero s hlena hlenb hlenr hlenc)
    (abs_coeff_vanishingInt_le s ha hb hr hc hlena hlenc) hzero
  refine ⟨_, hok, ?_, ?_, constraints_of_quotient hok rfl⟩
  · rw [List.length_map, Poly.length_suffixEvals, List.length_tail, hlen,
      FieldParams.witnessLimbs_eq]
    omega
  · intro c hc
    obtain ⟨q, hq, rfl⟩ := List.mem_map.mp hc
    exact hlt q hq

end Limbs

end Identity

end ForeignCurve
