import ForeignCurve.Proofs.Instruction.Identity

namespace ForeignCurve

variable {P : FieldParams} [P.HasHeadroom] [hp : Fact P.modulus.Prime]

namespace Instruction

omit [P.HasHeadroom] in
theorem inverseMod_eq_ok {a : Nat} (ha : (a : ZMod P.modulus) ≠ 0) :
    inverseMod P.modulus a = .ok ((a : ZMod P.modulus)⁻¹).val := by
  have hsub : checkedSub P.modulus 2 = .ok (P.modulus - 2) := if_pos hp.out.two_le
  unfold inverseMod
  rw [hsub]
  exact congrArg Except.ok (powMod_sub_two_eq ha)

theorem inversePlan_eq_ok {t : Trace} {a result : FieldRegister P} {allowZero : Bool} {A : Nat}
    (hread : t.readField a = .ok A)
    (hzero : allowZero = false → (A : ZMod P.modulus) ≠ 0) :
    inversePlan P a result allowZero t =
      .ok (.write result.slice (P.digits ((A : ZMod P.modulus)⁻¹).val) .done) := by
  have hreduce := FieldParams.reduce_eq_ok hp.out.ne_zero A
  have hcast : ((A % P.modulus : Nat) : ZMod P.modulus) = A := ZMod.natCast_mod A _
  have hiff : A % P.modulus = 0 ↔ (A : ZMod P.modulus) = 0 := by
    rw [ZMod.natCast_eq_zero_iff, Nat.dvd_iff_mod_eq_zero]
  unfold inversePlan
  refine bind_eq_ok_iff.mpr ⟨A, liftM_fault_eq_ok_iff.mpr hread, ?_⟩
  refine bind_eq_ok_iff.mpr ⟨_, liftM_abort_eq_ok_iff.mpr hreduce, ?_⟩
  dsimp only
  -- Zero has its own branch in the plan. In the field the inverse of zero is zero, so both say the same.
  by_cases hA : A % P.modulus = 0
  · have hallow : allowZero = true := by
      cases allowZero with
      | true => rfl
      | false => exact absurd (hiff.mp hA) (hzero rfl)
    rw [if_pos hA, if_pos hallow]
    refine bind_eq_ok_iff.mpr ⟨_, liftM_abort_eq_ok_iff.mpr (P.encode_eq_digits _), ?_⟩
    rw [hiff.mp hA, inv_zero, ZMod.val_zero]
    rfl
  · have hne : ((A % P.modulus : Nat) : ZMod P.modulus) ≠ 0 := by
      rw [hcast]
      exact fun h => hA (hiff.mpr h)
    rw [if_neg hA]
    refine bind_eq_ok_iff.mpr ⟨_, liftM_abort_eq_ok_iff.mpr (inverseMod_eq_ok hne), ?_⟩
    refine bind_eq_ok_iff.mpr ⟨_, liftM_abort_eq_ok_iff.mpr (P.encode_eq_digits _), ?_⟩
    rw [hcast]
    rfl

omit [P.HasHeadroom] in
theorem inversePlan_eq_error {t : Trace} {a result : FieldRegister P} {A : Nat}
    (hread : t.readField a = .ok A) (hzero : (A : ZMod P.modulus) = 0) :
    inversePlan P a result false t = .error (.fault .divisionByZero) := by
  have hmod : P.reduce A = .ok 0 := by
    rw [FieldParams.reduce_eq_ok hp.out.ne_zero]
    exact congrArg _ (Nat.mod_eq_zero_of_dvd ((ZMod.natCast_eq_zero_iff A _).mp hzero))
  unfold inversePlan
  refine bind_eq_error_of_ok (liftM_fault_eq_ok_iff.mpr hread) ?_
  exact bind_eq_error_of_ok (liftM_abort_eq_ok_iff.mpr hmod) rfl

end Instruction

end ForeignCurve
