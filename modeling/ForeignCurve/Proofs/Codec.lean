import ForeignCurve.Curve.Params
import ForeignCurve.Proofs.Field.Headroom

namespace ForeignCurve

/-- An encoding in `count` limbs of `bits` bits is undone by a decoding, and undoes it on limbs in range. -/
structure Limbs.RoundTrips {α : Type} (val : α → Nat) (bits count : Nat)
    (encode : Nat → Except Abort (List α)) (decode : List α → Nat) : Prop where
  decode_encode : ∀ value, ∃ limbs, encode value = .ok limbs ∧ limbs.length = count ∧
    (∀ limb ∈ limbs, val limb < 2 ^ bits) ∧ decode limbs = value % 2 ^ (bits * count)
  encode_decode : ∀ limbs, limbs.length = count →
    (encode (decode limbs) = .ok limbs ↔ ∀ limb ∈ limbs, val limb < 2 ^ bits)

namespace Limbs.RoundTrips

theorem words {bits : Nat} (hbits : bits ≤ 64) (count : Nat) :
    RoundTrips id bits count (fun value => .ok (encode bits count value)) (decode bits) where
  decode_encode value := ⟨_, rfl, length_encode bits count value, fun _ => lt_of_mem_encode,
    Limbs.decode_encode hbits count value⟩
  encode_decode limbs hlen := by
    rw [← hlen, Except.ok.injEq]
    exact encode_decode_iff hbits

theorem natives {P : FieldParams} (hP : P.limbBits < 64) :
    RoundTrips Fin.val P.limbBits P.limbs P.encode P.decode where
  decode_encode value := by
    have hval := map_val_encode hP P.limbs value
    refine ⟨_, FieldParams.encode_eq_ok hP value, ?_, ?_, ?_⟩
    · rw [List.length_map, length_encode]
    · rw [← List.forall_mem_map (P := (· < 2 ^ P.limbBits)), hval]
      exact fun _ => lt_of_mem_encode
    · rw [FieldParams.decode, decodeNative, hval, Limbs.decode_encode (Nat.le_of_lt hP)]
  encode_decode limbs hlen := by
    have hiff : _ ↔ ∀ limb ∈ limbs.map (·.val), limb < 2 ^ P.limbBits :=
      encode_decode_iff (Nat.le_of_lt hP)
    rw [List.length_map, hlen, List.forall_mem_map] at hiff
    rw [← hiff, FieldParams.encode_eq_ok hP, Except.ok.injEq, FieldParams.decode, decodeNative]
    constructor
    · intro h
      rw [← map_val_encode hP, h]
    · intro h
      rw [h, Native.map_ofNat_val]

end Limbs.RoundTrips

/-- The limb codec round-trips, on words of up to 64 bits and on the native elements of a field's limbs. -/
theorem Limbs.codec_roundTrips {bits : Nat} (hbits : bits ≤ 64) (count : Nat) {P : FieldParams}
    (hP : P.limbBits ≤ 28) :
    RoundTrips id bits count (fun value => .ok (encode bits count value)) (decode bits) ∧
      RoundTrips Fin.val P.limbBits P.limbs P.encode P.decode :=
  ⟨.words hbits count, .natives (Nat.lt_of_le_of_lt hP (by decide))⟩

theorem Limbs.codec_roundTrips_two_limbs :
    8 ≤ 64 ∧ curve32Base.limbBits ≤ 28 ∧
      encode 8 2 (decode 8 [256, 5]) = [0, 6] ∧
      curve32Base.encode (curve32Base.decode [65536, 5]) = .ok [0, 6] ∧
      RoundTrips id 8 2 (fun value => .ok (encode 8 2 value)) (decode 8) ∧
      RoundTrips Fin.val curve32Base.limbBits curve32Base.limbs curve32Base.encode
        curve32Base.decode :=
  ⟨by decide, by decide, by decide, by rfl, Limbs.codec_roundTrips (by decide) 2 (by decide)⟩

end ForeignCurve
