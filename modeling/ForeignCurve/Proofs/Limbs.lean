import Mathlib.Algebra.Group.Nat.Defs
import ForeignCurve.Limbs

namespace ForeignCurve

namespace Native

theorem map_ofNat_val (xs : List Native) : (xs.map (·.val)).map ofNat = xs := by
  rw [List.map_map]
  conv => rhs; rw [← List.map_id xs]
  exact List.map_congr_left fun x _ => ofNat_val x

theorem map_val_ofNat {ws : List Nat} (h : ∀ w ∈ ws, w < order) : (ws.map ofNat).map (·.val) = ws := by
  rw [List.map_map]
  conv => rhs; rw [← List.map_id ws]
  exact List.map_congr_left fun w hw => Nat.mod_eq_of_lt (h w hw)

theorem ofWords_map_val (xs : List Native) : ofWords (xs.map (·.val)) = .ok xs := by
  rw [ofWords_eq_ok (List.forall_mem_map.mpr fun x _ => x.isLt), map_ofNat_val]

end Native

theorem two_pow_lt_order {bits : Nat} (h : bits < 64) : 2 ^ bits < order :=
  Nat.lt_of_le_of_lt (Nat.pow_le_pow_right (by decide) (Nat.le_of_lt_succ h)) (by decide)

namespace Limbs

theorem lt_order_of_mem_encode {bits count value limb : Nat} (hbits : bits < 64)
    (h : limb ∈ encode bits count value) : limb < order :=
  Nat.lt_trans (lt_of_mem_encode h) (two_pow_lt_order hbits)

theorem map_val_encode {bits : Nat} (hbits : bits < 64) (count value : Nat) :
    ((encode bits count value).map Native.ofNat).map (·.val) = encode bits count value :=
  Native.map_val_ofNat fun _ => lt_order_of_mem_encode hbits

theorem decode_cons (bits limb : Nat) (limbs : List Nat) :
    decode bits (limb :: limbs) = 2 ^ bits * decode bits limbs + limb := by
  rw [decode, Nat.shiftLeft_eq, Nat.mul_comm]

theorem encode_succ {bits : Nat} (hbits : bits ≤ 64) (count value : Nat) :
    encode bits (count + 1) value = value % 2 ^ bits :: encode bits count (value / 2 ^ bits) := by
  have hlt : value % 2 ^ bits < 2 ^ 64 := by
    apply Nat.lt_of_lt_of_le (Nat.mod_lt _ (Nat.two_pow_pos _))
    exact Nat.pow_le_pow_right (by decide) hbits
  rw [encode, Nat.mod_eq_of_lt hlt, Nat.shiftRight_eq_div_pow]

theorem decode_lt {bits : Nat} {limbs : List Nat} (h : ∀ limb ∈ limbs, limb < 2 ^ bits) :
    decode bits limbs < 2 ^ (bits * limbs.length) := by
  induction limbs with
  | nil => simp [decode]
  | cons limb limbs ih =>
    rw [List.forall_mem_cons] at h
    have hlimb := h.1
    have hrest := ih h.2
    rw [decode_cons, List.length_cons, Nat.mul_succ, Nat.pow_add, Nat.mul_comm _ (2 ^ bits)]
    calc
      2 ^ bits * decode bits limbs + limb < 2 ^ bits * (decode bits limbs + 1) := by
        rw [Nat.mul_succ]
        omega
      _ ≤ 2 ^ bits * 2 ^ (bits * limbs.length) := Nat.mul_le_mul_left _ hrest

theorem decodeNative_lt {bits : Nat} {limbs : List Native} (h : ∀ limb ∈ limbs, limb.val < 2 ^ bits) :
    decodeNative bits limbs < 2 ^ (bits * limbs.length) := by
  have hlt := decode_lt (List.forall_mem_map.mpr h)
  rwa [List.length_map] at hlt

theorem decode_encode {bits : Nat} (hbits : bits ≤ 64) (count value : Nat) :
    decode bits (encode bits count value) = value % 2 ^ (bits * count) := by
  induction count generalizing value with
  | zero => simp [encode, decode, Nat.mod_one]
  | succ count ih =>
    rw [encode_succ hbits, decode_cons, ih, Nat.mul_succ, Nat.pow_add, Nat.mul_comm _ (2 ^ bits),
      Nat.mod_mul]
    omega

theorem encode_decode {bits : Nat} (hbits : bits ≤ 64) {limbs : List Nat}
    (h : ∀ limb ∈ limbs, limb < 2 ^ bits) :
    encode bits limbs.length (decode bits limbs) = limbs := by
  induction limbs with
  | nil => rfl
  | cons limb limbs ih =>
    rw [List.forall_mem_cons] at h
    rw [List.length_cons, encode_succ hbits, decode_cons, Nat.mul_add_mod, Nat.mod_eq_of_lt h.1,
      Nat.mul_add_div (Nat.two_pow_pos _), Nat.div_eq_of_lt h.1, Nat.add_zero, ih h.2]

theorem encode_decode_iff {bits : Nat} (hbits : bits ≤ 64) {limbs : List Nat} :
    encode bits limbs.length (decode bits limbs) = limbs ↔ ∀ limb ∈ limbs, limb < 2 ^ bits := by
  constructor
  · intro h limb hlimb
    rw [← h] at hlimb
    exact lt_of_mem_encode hlimb
  · exact encode_decode hbits

theorem eq_of_decode_eq {bits : Nat} (hbits : bits ≤ 64) {limbs limbs' : List Nat}
    (hlen : limbs.length = limbs'.length) (h : ∀ limb ∈ limbs, limb < 2 ^ bits)
    (h' : ∀ limb ∈ limbs', limb < 2 ^ bits) (heq : decode bits limbs = decode bits limbs') :
    limbs = limbs' := by
  rw [← encode_decode hbits h, ← encode_decode hbits h', hlen, heq]

end Limbs

end ForeignCurve
