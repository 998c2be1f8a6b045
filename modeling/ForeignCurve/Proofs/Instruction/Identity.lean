import ForeignCurve.Proofs.Instruction.Holds
import ForeignCurve.Proofs.Instruction.Plan

namespace ForeignCurve

namespace Identity

variable {P : FieldParams} [P.HasHeadroom]

variable {a b result : List Native} {carry : Nat}

omit [P.HasHeadroom] in
theorem poly_sub_eq_vanishing (s : Side) (a b : List Native) :
    s.poly a b - ⟨result⟩ - (⟨P.digits carry⟩ * ⟨P.digits P.modulus⟩ : Poly) =
      ⟨vanishing P s a b result (P.digits carry)⟩ := by
  have hlhs : s.poly a b = ⟨s.combine a b⟩ := congrArg Poly.mk (s.coeffs_poly a b)
  rw [hlhs]
  change Poly.mk (Poly.subCoeffs (Poly.subCoeffs (s.combine a b) result)
    (Poly.mulCoeffs (P.digits carry) (P.digits P.modulus))) = _
  rw [Poly.subCoeffs_eq, Poly.subCoeffs_eq, Poly.mulCoeffs_eq, vanishing,
    Arith.constPoly_native]

theorem ofWords_half {w : List Native} {f : Native → Nat} (h : ∀ c ∈ w, f c < 2 ^ P.limbBits) :
    Native.ofWords (w.map f) = .ok (w.map fun c => Native.ofNat (f c)) ∧
      P.InRange (w.map fun c => Native.ofNat (f c)) := by
  have hbase := FieldParams.limbBase_lt_order (P := P)
  constructor
  · rw [Native.ofWords_eq_ok, List.map_map]
    · rfl
    · rw [List.forall_mem_map]
      exact fun c hc => Nat.lt_trans (h c hc) hbase
  · intro limb hlimb
    obtain ⟨c, hc, rfl⟩ := List.mem_map.mp hlimb
    rw [Native.val_ofNat, Nat.mod_eq_of_lt (Nat.lt_trans (h c hc) hbase)]
    exact h c hc

theorem exists_witnessPlan (s : Side) (m : Identity P) (hlena : a.length = P.limbs)
    (hlenb : b.length = P.limbs) (hlenr : result.length = P.limbs) (ha : P.InRange a)
    (hb : P.InRange b) (hr : P.InRange result) (hcarry : carry < 2 ^ P.bits)
    (h : s.apply (P.decode a) (P.decode b) = P.decode result + carry * P.modulus) :
    ∃ low high, m.witnessPlan (s.poly a b) result carry =
        .ok (.write m.carry.slice (P.digits carry)
          (.writeArray _ m.low low (.writeArray _ m.high high .done))) ∧
      low.length = P.witnessLimbs ∧ high.length = P.witnessLimbs ∧ P.InRange low ∧
      P.InRange high ∧
      ∀ c ∈ quotientConstraints P (vanishing P s a b result (P.digits carry)) low high, c = 0 := by
  rw [← FieldParams.decode_digits_of_lt hcarry] at h
  obtain ⟨w, hquotient, hlen, hlt, hzero⟩ := exists_quotient hlena hlenb hlenr
    (FieldParams.length_digits carry) ha hb hr (P.inRange_digits carry) h
  have hlow : ∀ c ∈ w, c.val % 2 ^ P.limbBits < 2 ^ P.limbBits :=
    fun c _ => Nat.mod_lt _ (Nat.two_pow_pos _)
  have hhigh : ∀ c ∈ w, c.val >>> P.limbBits < 2 ^ P.limbBits := by
    intro c hc
    rw [Nat.shiftRight_eq_div_pow]
    apply Nat.div_lt_of_lt_mul
    rw [← Nat.pow_add, ← Nat.two_mul]
    exact hlt c hc
  obtain ⟨hlowWords, hlowRange⟩ := ofWords_half (P := P) hlow
  obtain ⟨hhighWords, hhighRange⟩ := ofWords_half (P := P) hhigh
  refine ⟨_, _, ?_, by rw [List.length_map, hlen], by rw [List.length_map, hlen], hlowRange,
    hhighRange, hzero⟩
  unfold witnessPlan
  refine bind_eq_ok_iff.mpr ⟨_, liftM_abort_eq_ok_iff.mpr (P.encode_eq_digits _), ?_⟩
  refine bind_eq_ok_iff.mpr ⟨_, liftM_abort_eq_ok_iff.mpr (P.encode_eq_digits _), ?_⟩
  rw [poly_sub_eq_vanishing s]
  refine bind_eq_ok_iff.mpr ⟨_, liftM_fault_eq_ok_iff.mpr hquotient, ?_⟩
  refine bind_eq_ok_iff.mpr ⟨_, liftM_abort_eq_ok_iff.mpr hlowWords, ?_⟩
  exact bind_eq_ok_iff.mpr ⟨_, liftM_abort_eq_ok_iff.mpr hhighWords, rfl⟩

theorem plan_of_reads {t : Trace} {r s : CellSlice} {xs ys : List Native} (ha : t.readSlice r = .ok xs)
    (hb : t.readSlice s = .ok ys) (f : List Native → List Native → Except Failure Plan) :
    (do f (← t.readSlice r) (← t.readSlice s)) = f xs ys := by
  rw [ha, hb]
  rfl

section Difference

def difference (p minuend subtrahend : Nat) : Nat :=
  (p + minuend % p - subtrahend % p) % p

variable {p A B : Nat} (hp : 0 < p)

include hp

theorem difference_lt (A B : Nat) : difference p A B < p :=
  Nat.mod_lt _ hp

theorem natCast_difference (A B : Nat) : (difference p A B : ℤ) = ((A : ℤ) - B) % p := by
  have hle : B % p ≤ p + A % p := Nat.le_trans (Nat.mod_lt B hp).le (Nat.le_add_right p _)
  rw [difference, Int.natCast_mod, Nat.cast_sub hle, Nat.cast_add, Int.natCast_mod, Int.natCast_mod,
    add_sub_assoc, Int.add_emod_left, ← Int.sub_emod]

theorem le_add_difference (hA : A < p) : A ≤ B + difference p A B := by
  rcases Nat.le_total A B with h | h
  · exact Nat.le_trans h (Nat.le_add_right B _)
  · have hdifference := natCast_difference hp A B
    rw [Int.emod_eq_of_lt (by omega) (by omega)] at hdifference
    omega

theorem add_difference_eq (hle : A ≤ B + difference p A B) :
    B + difference p A B = A + (B + difference p A B - A) / p * p := by
  have hdvd : p ∣ B + difference p A B - A := by
    rw [← Int.natCast_dvd_natCast, Nat.cast_sub hle, Nat.cast_add, natCast_difference hp, Int.emod_def]
    exact ⟨-(((A : ℤ) - B) / p), by ring⟩
  rw [Nat.div_mul_cancel hdvd, Nat.add_sub_cancel' hle]

theorem carry_difference_lt {bound : Nat} (hB : B < bound) : (B + difference p A B - A) / p < bound := by
  have hlt := difference_lt hp A B
  have hmul : p + bound ≤ p * bound + 1 := by
    obtain ⟨q, rfl⟩ : ∃ q, p = q + 1 := ⟨p - 1, by omega⟩
    obtain ⟨c, rfl⟩ : ∃ c, bound = c + 1 := ⟨bound - 1, by omega⟩
    have hmul : (q + 1) * (c + 1) = q * c + q + c + 1 := by ring
    omega
  apply Nat.div_lt_of_lt_mul
  omega

end Difference

section Plans

variable [hmod : NeZero P.modulus] {A B : Nat} {rest : Plan}

theorem sumPlan_eq_ok {m : Identity P} (hA : A < 2 ^ P.bits) (hB : B < 2 ^ P.bits)
    (h : m.witnessPlan (Side.sum.poly (P.digits A) (P.digits B)) (P.digits ((A + B) % P.modulus))
      ((A + B) / P.modulus) = .ok rest) :
    m.sumPlan (P.digits A) (P.digits B) =
      .ok (.write m.result.slice (P.digits ((A + B) % P.modulus)) rest) := by
  unfold sumPlan
  rw [FieldParams.decode_digits_of_lt hA, FieldParams.decode_digits_of_lt hB]
  refine bind_eq_ok_iff.mpr ⟨_, liftM_abort_eq_ok_iff.mpr (FieldParams.reduce_eq_ok hmod.out _), ?_⟩
  refine bind_eq_ok_iff.mpr ⟨_, liftM_abort_eq_ok_iff.mpr (P.encode_eq_digits _), ?_⟩
  exact congrArg (fun r => Except.ok (Plan.write _ _ (.ofExcept r))) h

theorem productPlan_eq_ok {m : Identity P} (hA : A < 2 ^ P.bits) (hB : B < 2 ^ P.bits)
    (hcarry : A * B / P.modulus < 2 ^ P.bits)
    (h : m.witnessPlan (Side.product.poly (P.digits A) (P.digits B))
      (P.digits (A * B % P.modulus)) (A * B / P.modulus) = .ok rest) :
    m.productPlan (P.digits A) (P.digits B) =
      .ok (.write m.result.slice (P.digits (A * B % P.modulus)) rest) := by
  unfold productPlan
  rw [FieldParams.decode_digits_of_lt hA, FieldParams.decode_digits_of_lt hB]
  refine bind_eq_ok_iff.mpr ⟨_, liftM_abort_eq_ok_iff.mpr (FieldParams.reduce_eq_ok hmod.out _), ?_⟩
  dsimp only
  rw [if_pos hcarry]
  refine bind_eq_ok_iff.mpr ⟨_, liftM_abort_eq_ok_iff.mpr (P.encode_eq_digits _), ?_⟩
  exact bind_eq_ok_iff.mpr ⟨rest, h, rfl⟩

theorem productPlan_eq_error {m : Identity P} (hA : A < 2 ^ P.bits) (hB : B < 2 ^ P.bits)
    (hcarry : ¬ A * B / P.modulus < 2 ^ P.bits) :
    m.productPlan (P.digits A) (P.digits B) = .error (.fault (.unreducedFactors P.modulus)) := by
  unfold productPlan
  rw [FieldParams.decode_digits_of_lt hA, FieldParams.decode_digits_of_lt hB]
  refine bind_eq_error_of_ok (liftM_abort_eq_ok_iff.mpr (FieldParams.reduce_eq_ok hmod.out _)) ?_
  exact if_neg hcarry

section Subtrahend

omit [P.HasHeadroom]

theorem checkedSub_modulus_add (A B : Nat) : checkedSub (P.modulus + B % P.modulus) (A % P.modulus) =
    .ok (P.modulus + B % P.modulus - A % P.modulus) := by
  have hlt := Nat.mod_lt A (Nat.pos_of_ne_zero hmod.out)
  exact if_pos (by omega)

theorem reduce_modulus_add (A B : Nat) :
    P.reduce (P.modulus + B % P.modulus - A % P.modulus) = .ok (difference P.modulus B A) :=
  FieldParams.reduce_eq_ok hmod.out _

end Subtrahend

theorem differencePlan_eq_ok {m : Identity P} (hA : A < 2 ^ P.bits) (hB : B < 2 ^ P.bits)
    (hle : B ≤ A + difference P.modulus B A)
    (h : m.witnessPlan (Side.sum.poly (P.digits A) (P.digits (difference P.modulus B A)))
      (P.digits B) ((A + difference P.modulus B A - B) / P.modulus) = .ok rest) :
    m.differencePlan (P.digits A) (P.digits B) =
      .ok (.write m.b.slice (P.digits (difference P.modulus B A)) rest) := by
  have hexcess : checkedSub (A + difference P.modulus B A) B =
      .ok (A + difference P.modulus B A - B) := if_pos hle
  unfold differencePlan
  rw [FieldParams.decode_digits_of_lt hA, FieldParams.decode_digits_of_lt hB]
  refine bind_eq_ok_iff.mpr ⟨_, liftM_abort_eq_ok_iff.mpr (FieldParams.reduce_eq_ok hmod.out _), ?_⟩
  refine bind_eq_ok_iff.mpr ⟨_, liftM_abort_eq_ok_iff.mpr (FieldParams.reduce_eq_ok hmod.out _), ?_⟩
  refine bind_eq_ok_iff.mpr ⟨_, liftM_abort_eq_ok_iff.mpr (checkedSub_modulus_add A B), ?_⟩
  refine bind_eq_ok_iff.mpr ⟨_, liftM_abort_eq_ok_iff.mpr (reduce_modulus_add A B), ?_⟩
  dsimp only
  rw [if_pos hle]
  refine bind_eq_ok_iff.mpr ⟨_, liftM_abort_eq_ok_iff.mpr hexcess, ?_⟩
  refine bind_eq_ok_iff.mpr ⟨_, liftM_abort_eq_ok_iff.mpr (P.encode_eq_digits _), ?_⟩
  exact congrArg (fun r => Except.ok (Plan.write _ _ (.ofExcept r))) h

theorem differencePlan_eq_error {m : Identity P} (hA : A < 2 ^ P.bits) (hB : B < 2 ^ P.bits)
    (hle : ¬ B ≤ A + difference P.modulus B A) :
    m.differencePlan (P.digits A) (P.digits B) =
      .error (.fault (.unreducedMinuend B P.modulus)) := by
  unfold differencePlan
  rw [FieldParams.decode_digits_of_lt hA, FieldParams.decode_digits_of_lt hB]
  refine bind_eq_error_of_ok (liftM_abort_eq_ok_iff.mpr (FieldParams.reduce_eq_ok hmod.out _)) ?_
  refine bind_eq_error_of_ok (liftM_abort_eq_ok_iff.mpr (FieldParams.reduce_eq_ok hmod.out _)) ?_
  refine bind_eq_error_of_ok (liftM_abort_eq_ok_iff.mpr (checkedSub_modulus_add A B)) ?_
  refine bind_eq_error_of_ok (liftM_abort_eq_ok_iff.mpr (reduce_modulus_add A B)) ?_
  exact if_neg hle

end Plans

end Identity

end ForeignCurve
