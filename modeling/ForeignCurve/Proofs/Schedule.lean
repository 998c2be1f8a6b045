import ForeignCurve.Proofs.Gadget.Returns
import ForeignCurve.Proofs.Gadget.ScalarMul

/-!
The schedule of a scalar multiplication: the digits that it goes through, the multiples that it holds on
the way, and why no incomplete formula in it meets an exceptional case. The order of the point is odd and
at least five. It need not be prime, nor the order of the curve.
-/

namespace ForeignCurve

open Coordinates CurveParams

/--
The schedule for a folded scalar `c` and points of order `n`, where `half` is the largest folded scalar.
-/
structure ExactSchedule (n half c : Nat) : Prop where
  sum : ∑ i ∈ Finset.range (digitCount half), digitAt half c i * 4 ^ i = (c ||| 1 : Nat)
  safe : ∀ i, i + 1 < digitCount half → SafeStep n (digitsFrom half c (i + 1)) (digitAt half c i)
  apart : ∀ {F : Type} [Field F] [DecidableEq F] {a b : F} (P : (shortCurve a b).Point), addOrderOf P = n →
    (P ≠ 0 ∧ (2 : Int) • P ≠ 0 ∧ (of ((2 : Int) • P)).x ≠ (of P).x) ∧
      ∀ i, i + 1 < digitCount half → Apart ((2 * digitsFrom half c (i + 1)) • P) (digitAt half c i • P)
  positions : ∀ S : FieldParams, n < 2 ^ (S.limbBits * S.limbs) →
    2 * digitCount half - 1 < S.limbBits * S.limbs ∧
      ∀ bits : Array (Register .bit), bits.size = S.limbBits * S.limbs →
        ∀ i ≤ 2 * digitCount half - 1, Returns (Gadget.bitAt bits i)
  program : ∀ {E : CurveParams}, E.groupOrder = n → ∀ scalar point,
    Gadget.scalarMul E scalar point = Gadget.scalarMulByDigits E (digitCount half) scalar point
  picks : ∀ {P : FieldParams} [P.HasHeadroom] {w : Scenario} {X : Int → Coordinates (ZMod P.modulus)}
    {rs : List (Register .bit)} {count : Nat} {m : Gadget.OddMultiples P}, w.Digits rs count c →
      w.HoldsMultiples X m → 2 * digitCount half ≤ count → ∀ i, i + 1 < digitCount half →
        w.Triple (Gadget.pickDigit rs.toArray m i) (fun r => w.At r (X (digitAt half c i)))
  holds : ∀ {E : CurveParams} [E.Elliptic] [E.base.HasHeadroom] {w : Scenario} {rs : List (Register .bit)}
    {count : Nat} {a : FieldRegister E.base} {p : PointRegister E.base} {P : E.Group},
      addOrderOf P = n → w.Digits rs count c → 2 * digitCount half ≤ count → w.Residue a E.a →
        w.At p (of P) →
          w.Triple (Gadget.recordDigits a rs.toArray (digitCount half) p) (w.HoldsTrail P half c)

/--
The digits of a schedule are exact, and its incomplete additions are never exceptional: the odd multiples
that are held before the steps stay below the order, and twice each of them is neither the multiple of
the digit nor its negative.
-/
theorem schedule_exact {n c : Nat} (hodd : n % 2 = 1) (hfive : 5 ≤ n) (hc : c ≤ (n - 1) / 2) :
    ExactSchedule n ((n - 1) / 2) c where
  sum := by
    rw [← digitsFrom_zero hc]
    unfold digitsFrom
    simp only [Nat.sub_zero, Nat.zero_add]
  safe _ hi := safeStep_digits (by omega) hc hi
  apart P hP := by
    have hsmall {k : Int} (hk : k = 3 ∨ k = 2 ∨ k = 1 ∨ k = -1 ∨ k = -3) : k • P ≠ 0 :=
      zsmul_ne_zero_of_abs_lt hP (by omega) (by rw [abs_lt]; omega)
    have hone := hsmall (k := 1) (by decide)
    rw [one_zsmul] at hone
    refine ⟨⟨hone, hsmall (by decide), x_two_zsmul_ne hP hfive⟩, fun i hi => ?_⟩
    have hdigit := digitAt_cases ((n - 1) / 2) c i
    exact (safeStep_digits (by omega) hc hi).apart hP hodd (hsmall (by omega))
  positions S hS := by
    have htwo : 2 ≤ S.limbBits * S.limbs := by
      by_contra hlt
      have hpow : 2 ^ (S.limbBits * S.limbs) ≤ 2 ^ 1 := Nat.pow_le_pow_right (by decide) (by omega)
      omega
    have hcount := two_mul_digitCount_le_of_le (by omega) (Nat.le_of_lt hS) htwo
    have hpos := digitCount_pos ((n - 1) / 2)
    exact ⟨by omega, fun bits hbits i hi => Returns.bitAt (by omega)⟩
  program hE scalar point := by
    subst hE
    exact Gadget.scalarMul_eq_byDigits (by omega) scalar point
  picks hbits hm hcount _ hi := Scenario.pickDigit_spec hbits hm hi (by omega)
  holds hP hbits hcount ha hp := by
    have htrail := Scenario.recordDigits_spec hodd hfive hc hbits hcount ha hp (fun _ => hP)
      fun _ => ne_neg_of_three_le hP (by omega)
    exact htrail.weaken fun _ ht => ht.2

theorem schedule_exact_thirteen : 13 % 2 = 1 ∧ 5 ≤ 13 ∧ 6 ≤ (13 - 1) / 2 ∧ ExactSchedule 13 ((13 - 1) / 2) 6 ∧
    digitAt 6 6 1 = 1 ∧ digitAt 6 6 0 = 3 ∧ SafeStep 13 1 3 ∧
      ∃ P : tinyCurve.Group, addOrderOf P = 13 ∧ Apart ((2 : Int) • P) ((3 : Int) • P) := by
  -- six is recoded from seven, by the digits one and three
  have h : ExactSchedule 13 ((13 - 1) / 2) 6 := schedule_exact (by decide) (by decide) (by decide)
  have hleading : digitsFrom 6 6 1 = 1 := by decide
  have hdigit : digitAt 6 6 0 = 3 := by decide
  have hsafe := h.safe 0 (by decide)
  change SafeStep 13 (digitsFrom 6 6 1) (digitAt 6 6 0) at hsafe
  rw [hleading, hdigit] at hsafe
  refine ⟨by decide, by decide, by decide, h, by decide, hdigit, hsafe, ?_⟩
  obtain ⟨P, hP⟩ := exists_of_on (E := tinyCurve) (P := ⟨1, 2⟩) ⟨⟨by decide, by decide⟩, by decide⟩
  have hne : P ≠ 0 := by
    rintro rfl
    exact absurd (congrArg Point.x hP) (by decide)
  have horder : addOrderOf P = 13 := addOrderOf_eq hne
  have hapart := (h.apart P horder).2 0 (by decide)
  change Apart ((2 * digitsFrom 6 6 1) • P) (digitAt 6 6 0 • P) at hapart
  rw [hleading, hdigit] at hapart
  exact ⟨P, horder, hapart⟩

end ForeignCurve
