import Mathlib.Algebra.BigOperators.Intervals
import ForeignCurve.Proofs.Constants
import ForeignCurve.Proofs.Curve.Order

namespace ForeignCurve

def oddPart (c i : Nat) : Nat :=
  2 * (c / 2 ^ (2 * i + 1)) + 1

def signedDigit (high low : Bool) : Int :=
  if high then (if low then 3 else 1) else (if low then -1 else -3)

theorem oddPart_eq (c i : Nat) :
    (oddPart c i : Int) = 4 * oddPart c (i + 1) +
      signedDigit (c.testBit (2 * i + 2)) (c.testBit (2 * i + 1)) := by
  have hpow : 2 ^ (2 * (i + 1) + 1) = 2 ^ (2 * i + 1) * 2 * 2 := by
    rw [← Nat.pow_succ, ← Nat.pow_succ]
    congr 1
  have hpow' : 2 ^ (2 * i + 2) = 2 ^ (2 * i + 1) * 2 := pow_succ 2 (2 * i + 1)
  unfold oddPart signedDigit
  rw [Nat.testBit_eq_decide_div_mod_eq, Nat.testBit_eq_decide_div_mod_eq, hpow, hpow',
    ← Nat.div_div_eq_div_mul, ← Nat.div_div_eq_div_mul]
  generalize c / 2 ^ (2 * i + 1) = m
  by_cases hlow : m % 2 = 1
  · by_cases hhigh : m / 2 % 2 = 1
    · rw [decide_eq_true hlow, decide_eq_true hhigh, if_pos rfl, if_pos rfl]
      omega
    · rw [decide_eq_true hlow, decide_eq_false hhigh, if_neg (by decide), if_pos rfl]
      omega
  · by_cases hhigh : m / 2 % 2 = 1
    · rw [decide_eq_false hlow, decide_eq_true hhigh, if_pos rfl, if_neg (by decide)]
      omega
    · rw [decide_eq_false hlow, decide_eq_false hhigh, if_neg (by decide), if_neg (by decide)]
      omega

theorem oddPart_le (c i : Nat) : oddPart c i ≤ c + 1 := by
  have hle : 2 * (c / 2 ^ (2 * i + 1)) ≤ c := by
    calc
      2 * (c / 2 ^ (2 * i + 1)) ≤ 2 ^ (2 * i + 1) * (c / 2 ^ (2 * i + 1)) := by
        apply Nat.mul_le_mul_right
        rw [Nat.pow_succ]
        have hpos := Nat.two_pow_pos (2 * i)
        omega
      _ ≤ c := Nat.mul_div_le c _
  unfold oddPart
  omega

theorem oddPart_zero (c : Nat) : oddPart c 0 = c ||| 1 := by
  unfold oddPart
  rw [Nat.mul_zero, Nat.zero_add, Nat.pow_one]
  apply Nat.eq_of_testBit_eq
  intro i
  rw [Nat.testBit_or]
  cases i with
  | zero => simp
  | succ i =>
    rw [Nat.testBit_succ, Nat.testBit_succ, Nat.testBit_succ]
    have hhalf : (2 * (c / 2) + 1) / 2 = c / 2 := by omega
    rw [hhalf]
    simp

theorem signedDigit_cases (high low : Bool) :
    signedDigit high low = 3 ∨ signedDigit high low = 1 ∨ signedDigit high low = -1 ∨
      signedDigit high low = -3 := by
  cases high <;> cases low <;> decide

structure SafeStep (n : Nat) (A d : Int) : Prop where
  odd : Odd A
  pos : 0 < A
  lt : A < n
  twice : ¬ 2 * A ≡ d [ZMOD n]
  twice_neg : ¬ 2 * A ≡ -d [ZMOD n]
  next : ¬ 4 * A + d ≡ 0 [ZMOD n]

theorem safeStep_oddPart {n c : Nat} (hnine : 9 ≤ n) (hc : 2 * c < n) (i : Nat) :
    SafeStep n (oddPart c (i + 1)) (signedDigit (c.testBit (2 * i + 2)) (c.testBit (2 * i + 1))) := by
  have hstep := oddPart_eq c i
  have hle := oddPart_le c i
  have hpos : 0 < oddPart c (i + 1) := Nat.succ_pos _
  have hpos' : 0 < oddPart c i := Nat.succ_pos _
  have hodd : Odd (oddPart c (i + 1) : Int) := ⟨(c / 2 ^ (2 * (i + 1) + 1) : Nat), by simp [oddPart]⟩
  have hdigit := signedDigit_cases (c.testBit (2 * i + 2)) (c.testBit (2 * i + 1))
  generalize signedDigit (c.testBit (2 * i + 2)) (c.testBit (2 * i + 1)) = d at hstep hdigit ⊢
  generalize oddPart c (i + 1) = A at hstep hpos hodd ⊢
  refine ⟨hodd, by omega, by omega, ?_, ?_, ?_⟩
  · exact not_modEq_of_abs_sub_lt (by omega) (by rw [abs_lt]; omega)
  · exact not_modEq_of_abs_sub_lt (by omega) (by rw [abs_lt]; omega)
  · exact not_modEq_of_abs_sub_lt (by omega) (by rw [abs_lt]; omega)

section Curve

variable {F : Type} [Field F] [DecidableEq F] {a b : F} {A : (shortCurve a b).Point} {n : Nat}
  {k l : Int}

theorem SafeStep.two_mul_zsmul_ne_zero (h : SafeStep n k l) (hA : addOrderOf A = n) (hodd : n % 2 = 1) :
    (2 * k) • A ≠ 0 := by
  intro hzero
  rw [← addOrderOf_dvd_iff_zsmul_eq_zero, hA] at hzero
  have hcoprime : Int.gcd n 2 = 1 := by
    rw [Int.gcd_comm]
    exact (Nat.coprime_two_left).mpr (Nat.odd_iff.mpr hodd)
  have hle := Int.le_of_dvd h.pos (Int.dvd_of_dvd_mul_right_of_gcd_one hzero hcoprime)
  have hlt := h.lt
  omega

theorem SafeStep.apart (h : SafeStep n k l) (hA : addOrderOf A = n) (hodd : n % 2 = 1) (hl : l • A ≠ 0) :
    Apart ((2 * k) • A) (l • A) where
  left_ne_zero := h.two_mul_zsmul_ne_zero hA hodd
  right_ne_zero := hl
  x_ne := x_zsmul_ne hA (h.two_mul_zsmul_ne_zero hA hodd) hl h.twice h.twice_neg
  add_ne_neg := by
    intro hneg
    apply zsmul_ne_zsmul_of_not_modEq hA h.next
    have hsum : 4 * k + l = 2 * k + l + 2 * k := by ring
    rw [zero_zsmul, hsum, add_zsmul, add_zsmul, add_eq_zero_iff_eq_neg]
    exact hneg

end Curve

namespace CurveParams

theorem lt_two_pow_digitCount {half c : Nat} (h : c ≤ half) : c < 2 ^ (2 * digitCount half) := by
  apply Nat.lt_of_lt_of_le (Nat.lt_of_le_of_lt h (lt_two_pow_bitLength half))
  apply Nat.pow_le_pow_right (by decide)
  unfold digitCount
  omega

theorem four_le_of_digitCount {half : Nat} (h : 1 < digitCount half) : 4 ≤ half := by
  by_contra hlt
  have hlen : bitLength half ≤ 2 := bitLength_le_iff.mpr (by omega)
  unfold digitCount at h
  omega

def digitAt (half c i : Nat) : Int :=
  if i + 1 = digitCount half then
    1 + 2 * (c.testBit (2 * i + 1)).toNat
  else
    signedDigit (c.testBit (2 * i + 2)) (c.testBit (2 * i + 1))

def digitsFrom (half c i : Nat) : Int :=
  ∑ j ∈ Finset.range (digitCount half - i), digitAt half c (i + j) * 4 ^ j

variable {half c i : Nat}

theorem digitAt_of_lt (h : i + 1 < digitCount half) :
    digitAt half c i = signedDigit (c.testBit (2 * i + 2)) (c.testBit (2 * i + 1)) :=
  if_neg (by omega)

theorem oddPart_top (hc : c ≤ half) : (oddPart c (digitCount half - 1) : Int) =
    1 + 2 * (c.testBit (2 * digitCount half - 1)).toNat := by
  have hpos := digitCount_pos half
  have hindex : 2 * (digitCount half - 1) + 1 = 2 * digitCount half - 1 := by omega
  have hlt : c / 2 ^ (2 * digitCount half - 1) < 2 := by
    apply Nat.div_lt_of_lt_mul
    rw [← pow_succ]
    convert lt_two_pow_digitCount hc using 2
    omega
  unfold oddPart
  rw [hindex, Nat.testBit_eq_decide_div_mod_eq]
  generalize c / 2 ^ (2 * digitCount half - 1) = b at hlt
  obtain rfl | rfl : b = 0 ∨ b = 1 := by omega
  · rfl
  · rfl

theorem digitAt_last (half c : Nat) :
    digitAt half c (digitCount half - 1) = 1 + 2 * (c.testBit (2 * digitCount half - 1)).toNat := by
  have hpos := digitCount_pos half
  have hindex : 2 * (digitCount half - 1) + 1 = 2 * digitCount half - 1 := by omega
  rw [digitAt, if_pos (by omega), hindex]

theorem digitsFrom_last (half c : Nat) :
    digitsFrom half c (digitCount half - 1) = digitAt half c (digitCount half - 1) := by
  have hpos := digitCount_pos half
  have hone : digitCount half - (digitCount half - 1) = 1 := by omega
  rw [digitsFrom, hone, Finset.sum_range_one, pow_zero, mul_one, Nat.add_zero]

theorem digitsFrom_top (hc : c ≤ half) :
    digitsFrom half c (digitCount half - 1) = oddPart c (digitCount half - 1) := by
  rw [oddPart_top hc, digitsFrom_last, digitAt_last]

theorem digitsFrom_of_lt (h : i + 1 < digitCount half) :
    digitsFrom half c i = 4 * digitsFrom half c (i + 1) + digitAt half c i := by
  have hcount : digitCount half - i = digitCount half - (i + 1) + 1 := by omega
  have hshift (j : Nat) : digitAt half c (i + (j + 1)) * 4 ^ (j + 1) =
      4 * (digitAt half c (i + 1 + j) * 4 ^ j) := by
    rw [← Nat.add_assoc, Nat.add_right_comm, pow_succ]
    ring
  rw [digitsFrom, hcount, Finset.sum_range_succ', Finset.sum_congr rfl fun j _ => hshift j,
    ← Finset.mul_sum, pow_zero, mul_one]
  rfl

theorem digitsFrom_eq_oddPart (hc : c ≤ half) (hi : i < digitCount half) :
    digitsFrom half c i = oddPart c i := by
  -- from the top digit downwards
  induction hk : digitCount half - 1 - i generalizing i with
  | zero =>
    obtain rfl : i = digitCount half - 1 := by omega
    exact digitsFrom_top hc
  | succ k ih =>
    have hrest := ih (i := i + 1) (by omega) (by omega)
    rw [digitsFrom_of_lt (by omega), hrest, digitAt_of_lt (by omega), oddPart_eq c i]

theorem digitAt_cases (half c i : Nat) : digitAt half c i = 3 ∨ digitAt half c i = 1 ∨
    digitAt half c i = -1 ∨ digitAt half c i = -3 := by
  unfold digitAt
  split
  · cases c.testBit (2 * i + 1)
    · exact .inr (.inl rfl)
    · exact .inl rfl
  · exact signedDigit_cases _ _

theorem digitsFrom_zero (hc : c ≤ half) : digitsFrom half c 0 = (c ||| 1 : Nat) := by
  rw [digitsFrom_eq_oddPart hc (digitCount_pos half), oddPart_zero]

theorem safeStep_digits {n : Nat} (hn : 1 ≤ n) (hc : c ≤ (n - 1) / 2)
    (hi : i + 1 < digitCount ((n - 1) / 2)) :
    SafeStep n (digitsFrom ((n - 1) / 2) c (i + 1)) (digitAt ((n - 1) / 2) c i) := by
  have hfour : 4 ≤ (n - 1) / 2 := four_le_of_digitCount (by omega)
  rw [digitsFrom_eq_oddPart hc hi, digitAt_of_lt hi]
  exact safeStep_oddPart (by omega) (by omega) i

end CurveParams

end ForeignCurve
