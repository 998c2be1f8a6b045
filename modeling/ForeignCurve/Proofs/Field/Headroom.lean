import ForeignCurve.Field.Params
import ForeignCurve.Proofs.Limbs

namespace ForeignCurve

namespace FieldParams

class HasHeadroom (P : FieldParams) : Prop where
  headroom_eq : P.headroom = .ok ()

def digits (P : FieldParams) (value : Nat) : List Native :=
  (Limbs.encode P.limbBits P.limbs value).map Native.ofNat

def InRange (P : FieldParams) (limbs : List Native) : Prop :=
  ∀ limb ∈ limbs, limb.val < 2 ^ P.limbBits

instance (P : FieldParams) (limbs : List Native) : Decidable (P.InRange limbs) :=
  List.decidableBAll (fun limb : Native => limb.val < 2 ^ P.limbBits) limbs

section Bounds

variable {P : FieldParams}

theorem headroom_eq_ok_iff :
    P.headroom = .ok () ↔
      0 < P.limbs ∧ 0 < P.limbBits ∧ P.limbBits ≤ 28 ∧ P.modulus < 2 ^ P.bits ∧
        P.witnessLimbs = 2 * P.limbs - 2 ∧ P.limbs * 2 ^ P.limbBits ≤ P.offset ∧
        2 * P.offset ≤ 2 ^ (2 * P.limbBits) ∧ P.limbs * 2 ^ (3 * P.limbBits + 2) < order := by
  unfold headroom quotientBound maxCoefficient maxLimbBits
  constructor
  · intro h
    repeat' split at h
    all_goals first | contradiction | omega
  · intro h
    repeat' rw [if_neg (by omega)]

variable [h : P.HasHeadroom]

theorem limbs_pos : 0 < P.limbs :=
  (headroom_eq_ok_iff.mp h.headroom_eq).1

theorem limbBits_pos : 0 < P.limbBits :=
  (headroom_eq_ok_iff.mp h.headroom_eq).2.1

theorem limbBits_le : P.limbBits ≤ 28 :=
  (headroom_eq_ok_iff.mp h.headroom_eq).2.2.1

theorem limbBits_lt : P.limbBits < 64 :=
  Nat.lt_of_le_of_lt limbBits_le (by decide)

theorem modulus_lt : P.modulus < 2 ^ P.bits :=
  (headroom_eq_ok_iff.mp h.headroom_eq).2.2.2.1

theorem witnessLimbs_eq : P.witnessLimbs = 2 * P.limbs - 2 :=
  (headroom_eq_ok_iff.mp h.headroom_eq).2.2.2.2.1

theorem quotientBound_le_offset : P.limbs * 2 ^ P.limbBits ≤ P.offset :=
  (headroom_eq_ok_iff.mp h.headroom_eq).2.2.2.2.2.1

theorem two_mul_offset_le : 2 * P.offset ≤ 2 ^ (2 * P.limbBits) :=
  (headroom_eq_ok_iff.mp h.headroom_eq).2.2.2.2.2.2.1

theorem maxCoefficient_lt : P.limbs * 2 ^ (3 * P.limbBits + 2) < order :=
  (headroom_eq_ok_iff.mp h.headroom_eq).2.2.2.2.2.2.2

theorem two_le_two_pow_bits : 2 ≤ 2 ^ P.bits := by
  have hpos : 1 ≤ P.bits := Nat.mul_pos limbBits_pos limbs_pos
  have hpow := Nat.pow_le_pow_right (n := 2) (by decide) hpos
  rwa [Nat.pow_one] at hpow

theorem limbBase_lt_order : 2 ^ P.limbBits < order := by
  have hpow : 2 ^ P.limbBits ≤ 2 ^ 28 := Nat.pow_le_pow_right (by decide) limbBits_le
  have horder : 2 ^ 28 < order := by decide
  omega

end Bounds

section Digits

variable {P : FieldParams}

@[simp]
theorem length_digits (value : Nat) : (P.digits value).length = P.limbs := by
  simp [digits]

theorem decode_lt {limbs : List Native} (hlen : limbs.length = P.limbs) (h : P.InRange limbs) :
    P.decode limbs < 2 ^ P.bits := by
  rw [bits, ← hlen]
  exact Limbs.decodeNative_lt h

variable [P.HasHeadroom]

theorem encode_eq_digits (value : Nat) : P.encode value = .ok (P.digits value) :=
  encode_eq_ok limbBits_lt value

theorem map_val_digits (value : Nat) :
    (P.digits value).map (·.val) = Limbs.encode P.limbBits P.limbs value :=
  Limbs.map_val_encode limbBits_lt P.limbs value

theorem inRange_digits (value : Nat) : P.InRange (P.digits value) := by
  intro limb hlimb
  have hmem : limb.val ∈ (P.digits value).map (·.val) := List.mem_map_of_mem hlimb
  rw [map_val_digits] at hmem
  exact Limbs.lt_of_mem_encode hmem

theorem decode_digits (value : Nat) : P.decode (P.digits value) = value % 2 ^ P.bits := by
  have hbits := limbBits_le (P := P)
  rw [decode, Limbs.decodeNative, map_val_digits, Limbs.decode_encode (by omega), bits]

theorem decode_digits_of_lt {value : Nat} (h : value < 2 ^ P.bits) :
    P.decode (P.digits value) = value := by
  rw [decode_digits, Nat.mod_eq_of_lt h]

theorem digits_decode {limbs : List Native} (hlen : limbs.length = P.limbs)
    (h : P.InRange limbs) : P.digits (P.decode limbs) = limbs := by
  have hbits := limbBits_le (P := P)
  have hround : Limbs.encode P.limbBits (limbs.map (·.val)).length
      (Limbs.decode P.limbBits (limbs.map (·.val))) = limbs.map (·.val) := by
    apply Limbs.encode_decode (by omega)
    intro limb hlimb
    obtain ⟨x, hx, rfl⟩ := List.mem_map.mp hlimb
    exact h x hx
  rw [List.length_map, hlen] at hround
  rw [digits, decode, Limbs.decodeNative, hround, Native.map_ofNat_val]

end Digits

end FieldParams

end ForeignCurve
