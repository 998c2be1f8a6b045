import Mathlib.Algebra.CharP.Basic
import Mathlib.Algebra.Order.Ring.Abs
import Mathlib.Algebra.Polynomial.BigOperators
import Mathlib.Tactic.Linarith
import Mathlib.Tactic.Positivity
import ForeignCurve.Instruction.Identity
import ForeignCurve.Proofs.Coefficients
import ForeignCurve.Proofs.Except
import ForeignCurve.Proofs.Field.Headroom

/-!
Headroom makes the native constraints of an identity exact. A polynomial with small integer
coefficients vanishes at the limb base if its quotient by `X - 2^b` satisfies the constraints, and if
it vanishes there, then the coefficients of its quotient are small enough to be split into limbs.
-/

namespace ForeignCurve

open Polynomial Fin.CommRing

abbrev Native.cast : ℤ →+* Native :=
  Int.castRingHom Native

noncomputable def liftCoeffs (limbs : List Native) : ℤ[X] :=
  ofCoeffs (limbs.map fun limb => (limb.val : ℤ))

theorem map_liftCoeffs (limbs : List Native) :
    (liftCoeffs limbs).map Native.cast = ofCoeffs limbs := by
  rw [liftCoeffs, map_ofCoeffs, List.map_map]
  congr 1
  conv => rhs; rw [← List.map_id limbs]
  apply List.map_congr_left
  intro x _
  simp

theorem eval_liftCoeffs (bits : Nat) (limbs : List Native) :
    (liftCoeffs limbs).eval (2 ^ bits) = (Limbs.decodeNative bits limbs : ℤ) := by
  unfold liftCoeffs Limbs.decodeNative
  induction limbs with
  | nil => simp [Limbs.decode]
  | cons limb limbs ih =>
    simp only [List.map_cons, ofCoeffs_cons, eval_add, eval_C, eval_mul, eval_X, ih,
      Limbs.decode_cons]
    push_cast
    ring

theorem eq_zero_of_cast_eq_zero {z : ℤ} (hz : Native.cast z = 0) (hlt : |z| < order) : z = 0 := by
  have hdvd : (order : ℤ) ∣ z := (CharP.intCast_eq_zero_iff Native order z).mp hz
  exact Int.eq_zero_of_abs_lt_dvd hdvd hlt

theorem poly_eq_zero_of_map_eq_zero {z : ℤ[X]} (hz : z.map Native.cast = 0)
    (hlt : ∀ i, |z.coeff i| < order) : z = 0 := by
  ext i
  rw [coeff_zero]
  apply eq_zero_of_cast_eq_zero
  · rw [← coeff_map, hz, coeff_zero]
  · exact hlt i

section Bounds

theorem coeff_ofCoeffs_mem {cs : List ℤ} {lo hi : ℤ} (hlo : lo ≤ 0) (hhi : 0 ≤ hi)
    (h : ∀ c ∈ cs, lo ≤ c ∧ c ≤ hi) (i : Nat) :
    lo ≤ (ofCoeffs cs).coeff i ∧ (ofCoeffs cs).coeff i ≤ hi := by
  rw [coeff_ofCoeffs]
  cases hget : cs[i]? with
  | none => exact ⟨hlo, hhi⟩
  | some c => exact h c (List.mem_of_getElem? hget)

theorem coeff_mul_mem {cs : List ℤ} {q : ℤ[X]} {a b : ℤ} (hcs : ∀ c ∈ cs, 0 ≤ c ∧ c ≤ a)
    (hq : ∀ i, 0 ≤ q.coeff i ∧ q.coeff i ≤ b) (i : Nat) :
    0 ≤ (ofCoeffs cs * q).coeff i ∧ (ofCoeffs cs * q).coeff i ≤ cs.length * (a * b) := by
  induction cs generalizing i with
  | nil => simp
  | cons c cs ih =>
    rw [List.forall_mem_cons] at hcs
    have hc := hcs.1
    have hq0 := hq i
    have hprod : 0 ≤ c * q.coeff i ∧ c * q.coeff i ≤ a * b :=
      ⟨mul_nonneg hc.1 hq0.1, mul_le_mul hc.2 hq0.2 hq0.1 (le_trans hc.1 hc.2)⟩
    have hrest : 0 ≤ (X * (ofCoeffs cs * q)).coeff i ∧
        (X * (ofCoeffs cs * q)).coeff i ≤ cs.length * (a * b) := by
      cases i with
      | zero =>
        rw [coeff_X_mul_zero]
        exact ⟨le_refl _, le_trans (ih hcs.2 0).1 (ih hcs.2 0).2⟩
      | succ i =>
        rw [coeff_X_mul]
        exact ih hcs.2 i
    -- Horner: the head contributes one product, the tail moves up by one power.
    have hsplit : (ofCoeffs (c :: cs) * q).coeff i =
        c * q.coeff i + (X * (ofCoeffs cs * q)).coeff i := by
      rw [ofCoeffs_cons, add_mul, coeff_add, coeff_C_mul, mul_assoc]
    rw [hsplit, List.length_cons]
    push_cast
    constructor <;> linarith [hprod.1, hprod.2, hrest.1, hrest.2]

end Bounds

namespace FieldParams

variable (P : FieldParams)

def intBase : ℤ := 2 ^ P.limbBits

def coefficientBound : ℤ :=
  (P.intBase - 1) * (P.limbs * (P.intBase - 1) + 1)

variable {P}

theorem cast_intBase : Native.cast P.intBase = Identity.base P := by
  change ((2 ^ P.limbBits : ℤ) : Native) = ((2 ^ P.limbBits : Nat) : Native)
  push_cast
  rfl

theorem val_lt_intBase {limbs : List Native} (h : P.InRange limbs) {limb : Native}
    (hlimb : limb ∈ limbs) : (limb.val : ℤ) < P.intBase := by
  unfold intBase
  exact_mod_cast h limb hlimb

section HasHeadroom

variable [P.HasHeadroom]

theorem two_le_intBase : 2 ≤ P.intBase := by
  have hpow : 2 ^ 1 ≤ 2 ^ P.limbBits := Nat.pow_le_pow_right (by decide) limbBits_pos
  unfold intBase
  exact_mod_cast hpow

theorem one_le_limbs : (1 : ℤ) ≤ P.limbs := by
  exact_mod_cast limbs_pos (P := P)

theorem limbs_mul_intBase_le : (P.limbs : ℤ) * P.intBase ≤ P.offset := by
  unfold intBase
  exact_mod_cast quotientBound_le_offset (P := P)

theorem two_mul_offset_le_sq : 2 * (P.offset : ℤ) ≤ P.intBase ^ 2 := by
  have h := two_mul_offset_le (P := P)
  rw [Nat.mul_comm 2 P.limbBits, Nat.pow_mul] at h
  unfold intBase
  exact_mod_cast h

theorem four_mul_cube_lt : 4 * (P.limbs * P.intBase ^ 3) < (order : ℤ) := by
  have h := maxCoefficient_lt (P := P)
  rw [Nat.pow_add, Nat.mul_comm 3 P.limbBits, Nat.pow_mul] at h
  have hcast : (P.limbs : ℤ) * ((2 ^ P.limbBits) ^ 3 * 2 ^ 2) < order := by exact_mod_cast h
  unfold intBase
  linarith

theorem coefficientBound_add_lt :
    P.coefficientBound + P.intBase ^ 2 + P.intBase * P.intBase ^ 2 < (order : ℤ) := by
  have hk := one_le_limbs (P := P)
  have hB := two_le_intBase (P := P)
  have hlt := four_mul_cube_lt (P := P)
  unfold coefficientBound
  generalize P.intBase = B at *
  generalize (P.limbs : ℤ) = k at *
  have hcube : B ^ 3 ≤ k * B ^ 3 := le_mul_of_one_le_left (by positivity) hk
  have hsquare : 2 * B ^ 2 ≤ B ^ 3 := by nlinarith [sq_nonneg B]
  have hM : (B - 1) * (k * (B - 1) + 1) ≤ k * B ^ 2 := by nlinarith
  have hkB : k * (2 * B ^ 2) ≤ k * B ^ 3 := mul_le_mul_of_nonneg_left hsquare (by linarith)
  nlinarith

end HasHeadroom

end FieldParams

namespace Identity

variable {P : FieldParams}

def quotientInts (P : FieldParams) (low high : List Native) : List ℤ :=
  List.zipWith (fun l h => (l.val : ℤ) + P.intBase * h.val - P.offset) low high

theorem shifted_eq_map_cast {low high : List Native} (hlen : low.length = high.length) :
    Arith.polyShift (Arith.polyAdd low (Arith.polyScale high (Arith.const (base P))))
      (Arith.const (Native.ofNat P.offset)) = (quotientInts P low high).map Native.cast := by
  induction low generalizing high with
  | nil =>
    obtain rfl := List.length_eq_zero_iff.mp hlen.symm
    rfl
  | cons l low ih =>
    cases high with
    | nil => simp at hlen
    | cons h high =>
      rw [List.length_cons, List.length_cons, Nat.add_right_cancel_iff] at hlen
      have hrest := ih hlen
      unfold Arith.polyShift Arith.polyScale quotientInts at hrest ⊢
      rw [List.map_cons, Arith.polyAdd, List.map_cons, hrest, List.zipWith_cons_cons,
        List.map_cons]
      congr 1
      rw [map_sub, map_add, map_mul, FieldParams.cast_intBase, Arith.sub_eq, Arith.add_eq,
        Arith.mul_eq, Arith.const_eq, Arith.const_eq, mul_comm h]
      have hl : Native.cast l.val = l := by simp
      have hh : Native.cast h.val = h := by simp
      rw [hl, hh]
      rfl

theorem ofCoeffs_quotientConstraints (vanishing : List Native) {low high : List Native}
    (hlen : low.length = high.length) :
    ofCoeffs (quotientConstraints P vanishing low high) = ofCoeffs vanishing -
      (ofCoeffs (quotientInts P low high) * (X - C P.intBase)).map Native.cast := by
  unfold quotientConstraints
  simp only [shifted_eq_map_cast hlen]
  rw [Arith.ofCoeffs_polySub, Arith.ofCoeffs_polyMulConst, Polynomial.map_mul, map_ofCoeffs,
    Polynomial.map_sub, map_X, map_C, FieldParams.cast_intBase]
  simp only [ofCoeffs_cons, ofCoeffs_nil, C_neg, C_1]
  ring

section Exact

variable [P.HasHeadroom] {vanishing low high : List Native} {v : ℤ[X]}

theorem quotientInts_mem (hlow : P.InRange low) (hhigh : P.InRange high) :
    ∀ z ∈ quotientInts P low high, -(P.intBase ^ 2) ≤ z ∧ z ≤ P.intBase ^ 2 := by
  intro z hz
  obtain ⟨i, hi, rfl⟩ := List.getElem_of_mem hz
  unfold quotientInts at hi ⊢
  rw [List.length_zipWith] at hi
  rw [List.getElem_zipWith]
  have hB := FieldParams.two_le_intBase (P := P)
  have hoff := FieldParams.two_mul_offset_le_sq (P := P)
  have hlB : (low[i].val : ℤ) + 1 ≤ P.intBase :=
    FieldParams.val_lt_intBase hlow (List.getElem_mem _)
  have hhB : (high[i].val : ℤ) + 1 ≤ P.intBase :=
    FieldParams.val_lt_intBase hhigh (List.getElem_mem _)
  have hl0 : (0 : ℤ) ≤ low[i].val := Int.natCast_nonneg _
  have hh0 : (0 : ℤ) ≤ high[i].val := Int.natCast_nonneg _
  have hoff0 : (0 : ℤ) ≤ P.offset := Int.natCast_nonneg _
  constructor <;> nlinarith

theorem eval_eq_zero_of_constraints (hv : v.map Native.cast = ofCoeffs vanishing)
    (hbound : ∀ i, |v.coeff i| ≤ P.coefficientBound) (hlow : P.InRange low)
    (hhigh : P.InRange high) (hlen : low.length = high.length)
    (h : ∀ c ∈ quotientConstraints P vanishing low high, c = 0) : v.eval P.intBase = 0 := by
  rw [forall_eq_zero_iff_ofCoeffs, ofCoeffs_quotientConstraints vanishing hlen, ← hv,
    ← Polynomial.map_sub] at h
  have hw := coeff_ofCoeffs_mem (by nlinarith [sq_nonneg P.intBase])
    (sq_nonneg P.intBase) (quotientInts_mem hlow hhigh)
  have hzero := poly_eq_zero_of_map_eq_zero h (by
    intro i
    -- a coefficient of `v - (X - 2^b) * w` is made of one of `v` and two of `w`
    generalize ofCoeffs (quotientInts P low high) = w at hw ⊢
    have hB := FieldParams.two_le_intBase (P := P)
    have hlt := FieldParams.coefficientBound_add_lt (P := P)
    have hvi := hbound i
    have hX : |(w * X).coeff i| ≤ P.intBase ^ 2 := by
      cases i with
      | zero =>
        rw [coeff_mul_X_zero, abs_zero]
        positivity
      | succ i =>
        rw [coeff_mul_X]
        exact abs_le.mpr (hw i)
    have hC : |(w * C P.intBase).coeff i| ≤ P.intBase * P.intBase ^ 2 := by
      rw [coeff_mul_C, abs_mul, mul_comm, abs_of_nonneg (by linarith : (0 : ℤ) ≤ P.intBase)]
      exact mul_le_mul_of_nonneg_left (abs_le.mpr (hw i)) (by linarith)
    rw [mul_sub, coeff_sub, coeff_sub]
    rw [abs_le] at hvi hX hC
    rw [abs_lt]
    constructor <;> linarith [hvi.1, hvi.2, hX.1, hX.2, hC.1, hC.2])
  rw [sub_eq_zero] at hzero
  rw [hzero, eval_mul, eval_sub, eval_X, eval_C, sub_self, mul_zero]

theorem suffixEvals_mem {M : ℤ} (cs : List ℤ) (hcs : ∀ c ∈ cs, |c| ≤ M) (i : Nat) (r : ℤ)
    (hr : r + P.intBase ^ i * (ofCoeffs cs).eval P.intBase = 0)
    (hbound : (P.intBase - 1) * |r| ≤ M * (P.intBase ^ i - 1)) :
    ∀ q ∈ Poly.suffixEvals (base P) (cs.map Native.cast),
      ∃ z : ℤ, Native.cast z = q ∧ (P.intBase - 1) * |z| ≤ M := by
  have hB := FieldParams.two_le_intBase (P := P)
  -- `r` is the value of the first `i` coefficients, which the suffix cancels
  induction cs generalizing i r with
  | nil => simp [Poly.suffixEvals]
  | cons c cs ih =>
    rw [List.forall_mem_cons] at hcs
    have hM : 0 ≤ M := le_trans (abs_nonneg c) hcs.1
    have hpow : 0 < P.intBase ^ i := by positivity
    rw [List.map_cons, Poly.suffixEvals, List.forall_mem_cons]
    constructor
    · refine ⟨(ofCoeffs (c :: cs)).eval P.intBase, ?_, ?_⟩
      · rw [Poly.headD_suffixEvals, ← map_ofCoeffs, ← FieldParams.cast_intBase, eval_map,
          eval₂_at_apply]
        simp only [ofCoeffs_cons, eval_add, eval_C, eval_mul, eval_X, map_add, map_mul]
        ring
      · have habs : |r| = P.intBase ^ i * |(ofCoeffs (c :: cs)).eval P.intBase| := by
          rw [eq_neg_of_add_eq_zero_left hr, abs_neg, abs_mul, abs_of_pos hpow]
        rw [habs] at hbound
        have hle : P.intBase ^ i * ((P.intBase - 1) * |(ofCoeffs (c :: cs)).eval P.intBase|) ≤
            P.intBase ^ i * M := by linarith
        exact le_of_mul_le_mul_left hle hpow
    · apply ih hcs.2 (i + 1) (r + P.intBase ^ i * c)
      · rw [← hr, ofCoeffs_cons, eval_add, eval_C, eval_mul, eval_X]
        ring
      · have hadd : |r + P.intBase ^ i * c| ≤ |r| + P.intBase ^ i * M := by
          apply le_trans (abs_add_le _ _)
          rw [abs_mul, abs_of_pos hpow]
          have := mul_le_mul_of_nonneg_left hcs.1 hpow.le
          linarith
        have hmul := mul_le_mul_of_nonneg_left hadd (by linarith : 0 ≤ P.intBase - 1)
        rw [pow_succ]
        linarith

omit [P.HasHeadroom] in
theorem exists_coeffs {n : Nat} (hlen : vanishing.length = n)
    (hv : v.map Native.cast = ofCoeffs vanishing) (hdegree : ∀ i, n ≤ i → v.coeff i = 0) :
    ∃ cs : List ℤ, cs.map Native.cast = vanishing ∧ ofCoeffs cs = v := by
  have hcoeffs : ofCoeffs ((List.range n).map v.coeff) = v := by
    ext i
    rw [coeff_ofCoeffs]
    rcases Nat.lt_or_ge i n with hi | hi
    · simp [hi]
    · simp [hi, hdegree i hi]
  refine ⟨(List.range n).map v.coeff, ?_, hcoeffs⟩
  apply ofCoeffs_injective
  · rw [List.length_map, List.length_map, List.length_range, hlen]
  · rw [← map_ofCoeffs, hcoeffs, hv]

theorem val_add_offset_lt {q : Native} {z : ℤ} (hq : Native.cast z = q)
    (hz : (P.intBase - 1) * |z| ≤ P.coefficientBound) (hk : 2 ≤ P.limbs) :
    (q + Native.ofNat P.offset).val < 2 ^ (2 * P.limbBits) := by
  have hB := FieldParams.two_le_intBase (P := P)
  have hkB := FieldParams.limbs_mul_intBase_le (P := P)
  have hoff := FieldParams.two_mul_offset_le_sq (P := P)
  have hk' : (2 : ℤ) ≤ P.limbs := by exact_mod_cast hk
  have hle : |z| ≤ P.limbs * (P.intBase - 1) + 1 :=
    le_of_mul_le_mul_left hz (by linarith)
  have hlt : |z| < P.offset := by linarith
  rw [abs_lt] at hlt
  -- the offset makes the coefficient a natural number of two limbs
  obtain ⟨n, hn⟩ := Int.eq_ofNat_of_zero_le (by linarith : 0 ≤ z + P.offset)
  have hsq : n < 2 ^ (2 * P.limbBits) := by
    have hlt' : z + P.offset < P.intBase ^ 2 := by linarith
    rw [hn, FieldParams.intBase, ← pow_mul, Nat.mul_comm] at hlt'
    exact_mod_cast hlt'
  have horder : 2 ^ (2 * P.limbBits) < order := by
    have hbits := FieldParams.limbBits_le (P := P)
    have hpow : 2 ^ (2 * P.limbBits) ≤ 2 ^ 56 := Nat.pow_le_pow_right (by decide) (by omega)
    have h56 : 2 ^ 56 < order := by decide
    omega
  have hcast : q + Native.ofNat P.offset = Native.ofNat n := by
    rw [← hq]
    calc
      Native.cast z + Native.cast (P.offset : ℤ) = Native.cast (z + P.offset) := (map_add _ _ _).symm
      _ = Native.cast (n : ℤ) := by rw [hn]
      _ = Native.ofNat n := rfl
  rw [hcast, Native.val_ofNat, Nat.mod_eq_of_lt (Nat.lt_trans hsq horder)]
  exact hsq

theorem suffixEvals_tail_lt {cs : List ℤ} (hlen : cs.length = 2 * P.limbs - 1)
    (hbound : ∀ i, |(ofCoeffs cs).coeff i| ≤ P.coefficientBound)
    (hzero : (ofCoeffs cs).eval P.intBase = 0) :
    ∀ q ∈ Poly.suffixEvals (base P) (cs.map Native.cast).tail,
      (q + Native.ofNat P.offset).val < 2 ^ (2 * P.limbBits) := by
  -- with the offset, the coefficients of the quotient by a root fit in two limbs
  have hpos := FieldParams.limbs_pos (P := P)
  have hB := FieldParams.two_le_intBase (P := P)
  cases cs with
  | nil =>
    rw [List.length_nil] at hlen
    omega
  | cons c cs =>
    rw [List.map_cons, List.tail_cons]
    intro q hq
    have hmem : ∀ d ∈ c :: cs, |d| ≤ P.coefficientBound := by
      intro d hd
      obtain ⟨i, hi, rfl⟩ := List.getElem_of_mem hd
      have hi' := hbound i
      rwa [coeff_ofCoeffs, List.getElem?_eq_getElem hi, Option.getD_some] at hi'
    rw [List.forall_mem_cons] at hmem
    -- the prefix in front of the first suffix is the lowest coefficient
    have hcancel : c + P.intBase ^ 1 * (ofCoeffs cs).eval P.intBase = 0 := by
      rw [← hzero, ofCoeffs_cons, eval_add, eval_C, eval_mul, eval_X, pow_one]
    have hlow : (P.intBase - 1) * |c| ≤ P.coefficientBound * (P.intBase ^ 1 - 1) := by
      rw [pow_one, mul_comm]
      exact mul_le_mul_of_nonneg_right hmem.1 (by linarith)
    obtain ⟨z, hz, hbz⟩ := suffixEvals_mem cs hmem.2 1 c hcancel hlow q hq
    apply val_add_offset_lt hz hbz
    rw [List.length_cons] at hlen
    have hne : cs ≠ [] := by
      rintro rfl
      simp [Poly.suffixEvals] at hq
    have hcs := List.length_pos_iff.mpr hne
    omega

theorem quotient_eq_ok (hlen : vanishing.length = 2 * P.limbs - 1)
    (hv : v.map Native.cast = ofCoeffs vanishing)
    (hdegree : ∀ i, 2 * P.limbs - 1 ≤ i → v.coeff i = 0)
    (hbound : ∀ i, |v.coeff i| ≤ P.coefficientBound) (hzero : v.eval P.intBase = 0) :
    quotient P ⟨vanishing⟩ = .ok
        ((Poly.suffixEvals (base P) vanishing.tail).map (· + Native.ofNat P.offset)) ∧
      ∀ q ∈ Poly.suffixEvals (base P) vanishing.tail,
        (q + Native.ofNat P.offset).val < 2 ^ (2 * P.limbBits) := by
  obtain ⟨cs, rfl, rfl⟩ := exists_coeffs hlen hv hdegree
  rw [List.length_map] at hlen
  have hlt := suffixEvals_tail_lt hlen hbound hzero
  refine ⟨?_, hlt⟩
  have heval : Poly.eval ⟨cs.map Native.cast⟩ (base P) = 0 := by
    rw [Poly.eval_eq, ← map_ofCoeffs, ← FieldParams.cast_intBase, eval_map, eval₂_at_apply, hzero,
      map_zero]
  unfold quotient Poly.rootQuotient
  rw [heval]
  apply mapM_eq_ok
  intro q hq
  rw [if_pos (hlt q hq)]
  rfl

omit [P.HasHeadroom] in
theorem quotient_eq_ok_imp {v : Poly} {w : List Native} (h : quotient P v = .ok w) :
    v.eval (base P) = 0 ∧ w = (v.rootQuotient (base P)).coeffs.map (· + Native.ofNat P.offset) := by
  unfold quotient at h
  split at h
  · next hzero =>
    refine ⟨hzero, ?_⟩
    have hshift := mapM_eq_ok_iff.mp h
    rw [← List.forall₂_eq_eq_eq, List.forall₂_map_right_iff]
    refine hshift.flip.imp fun c q hc => ?_
    dsimp only at hc
    split at hc
    · cases hc
      rfl
    · contradiction
  · contradiction

omit [P.HasHeadroom] in
theorem joined_halves (qs : List Native) :
    Arith.polyShift (Arith.polyAdd
      ((qs.map (· + Native.ofNat P.offset)).map fun c => Native.ofNat (c.val % 2 ^ P.limbBits))
      (Arith.polyScale
        ((qs.map (· + Native.ofNat P.offset)).map fun c => Native.ofNat (c.val >>> P.limbBits))
        (Arith.const (base P)))) (Arith.const (Native.ofNat P.offset)) = qs := by
  have hjoin (c : Native) : Native.ofNat (c.val % 2 ^ P.limbBits) +
      Native.ofNat (c.val >>> P.limbBits) * base P = c := by
    rw [Nat.shiftRight_eq_div_pow, base]
    change ((c.val % 2 ^ P.limbBits : Nat) : Native) +
      ((c.val / 2 ^ P.limbBits : Nat) : Native) * ((2 ^ P.limbBits : Nat) : Native) = c
    rw [← Nat.cast_mul, ← Nat.cast_add, Nat.mod_add_div']
    exact Native.ofNat_val c
  induction qs with
  | nil => rfl
  | cons q qs ih =>
    unfold Arith.polyShift Arith.polyScale at ih ⊢
    rw [List.map_cons, List.map_cons, List.map_cons, List.map_cons, Arith.polyAdd, List.map_cons, ih]
    congr 1
    rw [Arith.sub_eq, Arith.add_eq, Arith.mul_eq, Arith.const_eq, Arith.const_eq, hjoin,
      add_sub_cancel_right]

omit [P.HasHeadroom] in
theorem constraints_of_quotient {v : Poly} {w : List Native} (h : quotient P v = .ok w)
    (hv : ofCoeffs v.coeffs = ofCoeffs vanishing) :
    ∀ c ∈ quotientConstraints P vanishing
      (w.map fun c => Native.ofNat (c.val % 2 ^ P.limbBits))
      (w.map fun c => Native.ofNat (c.val >>> P.limbBits)), c = 0 := by
  obtain ⟨hzero, rfl⟩ := quotient_eq_ok_imp h
  rw [Poly.eval_eq] at hzero
  rw [forall_eq_zero_iff_ofCoeffs]
  unfold quotientConstraints
  simp only [joined_halves]
  rw [Arith.ofCoeffs_polySub, Arith.ofCoeffs_polyMulConst, ← hv]
  unfold Poly.rootQuotient
  generalize v.coeffs = cs at hzero ⊢
  cases cs with
  | nil => simp [Poly.suffixEvals]
  | cons c cs =>
    rw [List.tail_cons, Poly.ofCoeffs_suffixEvals (base P) c cs, hzero]
    simp only [ofCoeffs_cons, ofCoeffs_nil, C_neg, C_1, C_0]
    ring

end Exact

end Identity

end ForeignCurve
