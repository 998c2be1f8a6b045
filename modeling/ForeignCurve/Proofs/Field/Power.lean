import ForeignCurve.Field.Params
import Mathlib.FieldTheory.Finite.Basic
import Mathlib.NumberTheory.LucasPrimality
import Mathlib.Tactic.NormNum.Prime
import Mathlib.Tactic.Ring

namespace ForeignCurve

theorem lt_two_pow_bitLength (n : Nat) : n < 2 ^ bitLength n := by
  unfold bitLength
  split
  · next h =>
    subst h
    decide
  · exact Nat.lt_log2_self

theorem two_pow_le_of_bitLength {n : Nat} (h : 0 < n) : 2 ^ (bitLength n - 1) ≤ n := by
  unfold bitLength
  rw [if_neg (by omega), Nat.add_sub_cancel]
  exact Nat.log2_self_le (by omega)

theorem bitLength_le_iff {n k : Nat} : bitLength n ≤ k ↔ n < 2 ^ k := by
  constructor
  · intro h
    exact Nat.lt_of_lt_of_le (lt_two_pow_bitLength n) (Nat.pow_le_pow_right (by decide) h)
  · intro h
    rcases Nat.eq_zero_or_pos n with rfl | hpos
    · exact Nat.zero_le k
    · have hpow := Nat.lt_of_le_of_lt (two_pow_le_of_bitLength hpos) h
      have hlt := (Nat.pow_lt_pow_iff_right (by decide)).mp hpow
      omega

theorem cast_powMod_go (m digits square exponent acc : Nat) (h : exponent < 2 ^ digits) :
    (powMod.go m digits square exponent acc : ZMod m) = acc * square ^ exponent := by
  induction digits generalizing square exponent acc with
  | zero =>
    rw [Nat.pow_zero, Nat.lt_one_iff] at h
    subst h
    rw [powMod.go, pow_zero, mul_one]
  | succ digits ih =>
    have hhalf : exponent / 2 < 2 ^ digits := by
      rw [Nat.pow_succ] at h
      omega
    rw [powMod.go, ih _ _ _ hhalf, ZMod.natCast_mod, Nat.cast_mul, ← pow_two, ← pow_mul]
    split
    · next hodd =>
      rw [ZMod.natCast_mod, Nat.cast_mul, mul_assoc, ← pow_succ']
      congr 2
      omega
    · next heven =>
      congr 2
      omega

theorem cast_powMod (base exponent m : Nat) :
    (powMod base exponent m : ZMod m) = base ^ exponent := by
  unfold powMod
  rw [cast_powMod_go _ _ _ _ _ (lt_two_pow_bitLength exponent), ZMod.natCast_mod,
    ZMod.natCast_mod, Nat.cast_one, one_mul]

theorem order_sub_one : order - 1 = 2 ^ 32 * (3 * (5 * (17 * (257 * 65537)))) := by
  decide

theorem mem_of_dvd_order_sub_one {q : Nat} (hq : q.Prime) (h : q ∣ order - 1) :
    q ∈ [2, 3, 5, 17, 257, 65537] := by
  have heq {r : Nat} (hr : r.Prime) (hdvd : q ∣ r) : q = r := (Nat.prime_dvd_prime_iff_eq hq hr).mp hdvd
  rw [order_sub_one, hq.dvd_mul, hq.dvd_mul, hq.dvd_mul, hq.dvd_mul, hq.dvd_mul] at h
  obtain h | h | h | h | h | h := h
  · simp [heq Nat.prime_two (hq.dvd_of_dvd_pow h)]
  · simp [heq Nat.prime_three h]
  · simp [heq Nat.prime_five h]
  · simp [heq (by norm_num) h]
  · simp [heq (by norm_num) h]
  · simp [heq (by norm_num) h]

theorem order_prime : order.Prime := by
  have hone (n : Nat) (h : powMod 7 n order ≠ 1) (hlt : powMod 7 n order < order) :
      ((7 : Nat) : ZMod order) ^ n ≠ 1 := by
    rw [← cast_powMod, ← Nat.cast_one, Ne, ZMod.natCast_eq_natCast_iff', Nat.mod_eq_of_lt hlt,
      Nat.mod_eq_of_lt (by decide)]
    exact h
  -- the residue of 7 generates the units
  apply lucas_primality order ((7 : Nat) : ZMod order)
  · rw [← cast_powMod]
    have h : powMod 7 (order - 1) order = 1 := by decide +kernel
    rw [h, Nat.cast_one]
  · intro q hq hdvd
    have hmem := mem_of_dvd_order_sub_one hq hdvd
    have hall : ∀ r ∈ [2, 3, 5, 17, 257, 65537], powMod 7 ((order - 1) / r) order ≠ 1 ∧
        powMod 7 ((order - 1) / r) order < order := by decide +kernel
    exact hone _ (hall q hmem).1 (hall q hmem).2

theorem Native.mul_eq_zero {x y : Native} (h : x * y = 0) : x = 0 ∨ y = 0 := by
  have hval : x.val * y.val % order = 0 := congrArg Fin.val h
  have hdvd := (order_prime.dvd_mul).mp (Nat.dvd_of_mod_eq_zero hval)
  have hzero {z : Native} (hz : order ∣ z.val) : z = 0 :=
    Fin.ext (Nat.eq_zero_of_dvd_of_lt hz z.isLt)
  exact hdvd.imp hzero hzero

theorem powMod_lt {m : Nat} (hm : 0 < m) (base exponent : Nat) : powMod base exponent m < m := by
  have hgo (digits square exponent acc : Nat) (h : acc < m) :
      powMod.go m digits square exponent acc < m := by
    induction digits generalizing square exponent acc with
    | zero => exact h
    | succ digits ih =>
      apply ih
      split
      · exact Nat.mod_lt _ hm
      · exact h
  exact hgo _ _ _ _ (Nat.mod_lt _ hm)

theorem powMod_sub_two_eq {p : Nat} [hp : Fact p.Prime] {a : Nat} (ha : (a : ZMod p) ≠ 0) :
    powMod a (p - 2) p = ((a : ZMod p)⁻¹).val := by
  have htwo := hp.out.two_le
  have hcast : (powMod a (p - 2) p : ZMod p) = (a : ZMod p)⁻¹ := by
    rw [cast_powMod]
    apply eq_inv_of_mul_eq_one_left
    rw [← pow_succ, show p - 2 + 1 = p - 1 by omega]
    exact ZMod.pow_card_sub_one_eq_one ha
  rw [← hcast, ZMod.val_natCast, Nat.mod_eq_of_lt (powMod_lt (by omega) _ _)]

end ForeignCurve
