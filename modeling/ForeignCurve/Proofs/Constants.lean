import ForeignCurve.Gadget.ScalarMul
import ForeignCurve.Proofs.Field.Headroom
import ForeignCurve.Proofs.Field.Power
import ForeignCurve.Proofs.Instruction.Written

namespace ForeignCurve

theorem Native.lt_order_of_ofWords {ws : List Nat} {xs : List Native} (h : ofWords ws = .ok xs) :
    ∀ w ∈ ws, w < order := by
  intro w hw
  rw [← map_val_of_ofWords h] at hw
  obtain ⟨x, -, rfl⟩ := List.mem_map.mp hw
  exact x.isLt

theorem Limbs.le_of_mem_encode {bits count value limb : Nat} (h : limb ∈ encode bits count value) :
    limb ≤ value := by
  induction count generalizing value with
  | zero => simp [encode] at h
  | succ count ih =>
    rw [encode, List.mem_cons] at h
    cases h with
    | inl h =>
      subst h
      exact Nat.le_trans (Nat.mod_le _ _) (Nat.mod_le _ _)
    | inr h => exact Nat.le_trans (ih h) (Nat.shiftRight_le _ _)

namespace FieldParams

class Encodes (P : FieldParams) (value : Nat) : Prop where
  modulus_ne_zero : P.modulus ≠ 0
  lt_order : ∀ w ∈ Limbs.encode P.limbBits P.limbs (value % P.modulus), w < order

class Comparable (P : FieldParams) : Prop where
  limbs_ne_zero : P.limbs ≠ 0
  modulus_le : P.modulus ≤ 2 ^ P.bits

variable {P : FieldParams}

theorem encodes_iff {value : Nat} :
    P.Encodes value ↔ ∃ limbs, (do P.encode (← P.reduce value)) = .ok limbs := by
  constructor
  · intro h
    exact ⟨_, bind_eq_ok_iff.mpr ⟨_, reduce_eq_ok h.modulus_ne_zero value,
      Native.ofWords_eq_ok h.lt_order⟩⟩
  · rintro ⟨limbs, h⟩
    obtain ⟨residue, hreduce, h⟩ := bind_eq_ok_iff.mp h
    unfold reduce at hreduce
    split at hreduce
    · contradiction
    · next hmod =>
      cases hreduce
      exact ⟨hmod, Native.lt_order_of_ofWords h⟩

theorem encodes_of_lt {value : Nat} (hmod : P.modulus ≠ 0) (h : value < order) : P.Encodes value where
  modulus_ne_zero := hmod
  lt_order _ hw :=
    Nat.lt_of_le_of_lt (Nat.le_trans (Limbs.le_of_mem_encode hw) (Nat.mod_le _ _)) h

instance [hmod : NeZero P.modulus] : P.Encodes 0 :=
  encodes_of_lt hmod.out (by decide)

instance [hmod : NeZero P.modulus] : P.Encodes 1 :=
  encodes_of_lt hmod.out (by decide)

theorem encodes_of_limbBits_lt (h : P.limbBits < 64) (hmod : P.modulus ≠ 0) (value : Nat) :
    P.Encodes value :=
  encodes_iff.mpr ⟨_, bind_eq_ok_iff.mpr ⟨_, reduce_eq_ok hmod value, encode_eq_ok h _⟩⟩

instance [P.HasHeadroom] [hmod : NeZero P.modulus] (value : Nat) : P.Encodes value :=
  encodes_of_limbBits_lt limbBits_lt hmod.out value

instance [P.HasHeadroom] : P.Comparable where
  limbs_ne_zero := Nat.ne_of_gt limbs_pos
  modulus_le := Nat.le_of_lt modulus_lt

theorem complement_eq_ok [h : P.Comparable] : P.complement = .ok (2 ^ P.bits - P.modulus) :=
  if_pos h.modulus_le

end FieldParams

namespace CurveParams

class Addable (E : CurveParams) : Prop where
  coefficient : E.base.Encodes E.a
  comparable : E.base.Comparable

class Scalable (E : CurveParams) : Prop extends Addable E where
  order_pos : 1 ≤ E.groupOrder
  scalar_comparable : E.scalar.Comparable
  two_le_bits : 2 ≤ E.scalar.bits

variable {E : CurveParams}

instance [E.base.HasHeadroom] [NeZero E.base.modulus] : E.Addable :=
  ⟨inferInstance, inferInstance⟩

theorem scalable_of_three_le [E.base.HasHeadroom] [E.scalar.HasHeadroom] [NeZero E.base.modulus]
    (h : 3 ≤ E.groupOrder) : E.Scalable where
  coefficient := inferInstance
  comparable := inferInstance
  order_pos := by omega
  scalar_comparable := inferInstance
  two_le_bits := by
    have hmodulus : E.groupOrder < 2 ^ E.scalar.bits := FieldParams.modulus_lt
    by_contra hlt
    have hpow : 2 ^ E.scalar.bits ≤ 2 ^ 1 := Nat.pow_le_pow_right (by decide) (by omega)
    omega

theorem halfOrder_eq_ok (h : 1 ≤ E.groupOrder) : E.halfOrder = .ok ((E.groupOrder - 1) / 2) :=
  bind_eq_ok_iff.mpr ⟨_, if_pos h, rfl⟩

theorem digitCount_pos (half : Nat) : 0 < digitCount half := by
  unfold digitCount
  omega

theorem two_mul_digitCount_le_of_le {n bits : Nat} (hpos : 1 ≤ n) (hn : n ≤ 2 ^ bits) (hbits : 2 ≤ bits) :
    2 * digitCount ((n - 1) / 2) ≤ bits := by
  have hlen : bitLength ((n - 1) / 2) ≤ bits - 1 := by
    rw [bitLength_le_iff]
    have hsucc : 2 ^ (bits - 1) * 2 = 2 ^ bits := by
      rw [← pow_succ]
      congr 1
      omega
    omega
  unfold digitCount
  omega

theorem two_mul_digitCount_le (E : CurveParams) [hE : E.Scalable] :
    2 * digitCount ((E.groupOrder - 1) / 2) ≤ E.scalar.bits :=
  two_mul_digitCount_le_of_le hE.order_pos hE.scalar_comparable.modulus_le hE.two_le_bits

end CurveParams

end ForeignCurve
