import ForeignCurve.Proofs.Instruction.Holds
import ForeignCurve.Proofs.Instruction.Plan

namespace ForeignCurve

open Fin.CommRing

namespace Limbs

theorem getElem_encode_one {count value i : Nat} (h : i < (encode 1 count value).length) :
    (encode 1 count value)[i] = (value.testBit i).toNat := by
  induction count generalizing value i with
  | zero =>
    rw [length_encode] at h
    omega
  | succ count ih =>
    simp only [encode_succ (show 1 ≤ 64 by decide)]
    cases i with
    | zero =>
      rw [List.getElem_cons_zero, Nat.testBit_zero]
      rcases Nat.mod_two_eq_zero_or_one value with h2 | h2
      · simp [h2]
      · simp [h2]
    | succ i =>
      rw [List.getElem_cons_succ, ih, Nat.pow_one, Nat.testBit_succ]

end Limbs

namespace Instruction

theorem binaryDigits_eq (count value : Nat) :
    binaryDigits count value = (Limbs.encode 1 count value).map Native.ofNat := by
  induction count generalizing value with
  | zero => rfl
  | succ count ih =>
    rw [binaryDigits, ih, Limbs.encode_succ (by decide), Nat.pow_one, List.map_cons]

theorem length_binaryDigits (count value : Nat) : (binaryDigits count value).length = count := by
  rw [binaryDigits_eq, List.length_map, Limbs.length_encode]

theorem getElem_binaryDigits {count value i : Nat} (h : i < (binaryDigits count value).length) :
    (binaryDigits count value)[i] = Native.ofBool (value.testBit i) := by
  simp only [binaryDigits_eq, List.getElem_map, Limbs.getElem_encode_one]
  cases value.testBit i <;> rfl

theorem boolean_of_mem_binaryDigits {count value : Nat} {x : Native}
    (h : x ∈ binaryDigits count value) : x = 0 ∨ x = 1 := by
  obtain ⟨i, hi, rfl⟩ := List.getElem_of_mem h
  rw [getElem_binaryDigits]
  cases value.testBit i
  · exact .inl rfl
  · exact .inr rfl

theorem weightedSum_eq (acc power : Native) (xs : List Native) :
    weightedSum acc power xs = acc + power * Native.ofNat (Limbs.decodeNative 1 xs) := by
  induction xs generalizing acc power with
  | nil =>
    change acc = acc + power * 0
    rw [mul_zero, add_zero]
  | cons x xs ih =>
    have htwo : Native.ofNat 2 = 1 + 1 := rfl
    change weightedSum (acc + x * power) (power + power) xs = _
    rw [ih]
    unfold Limbs.decodeNative
    rw [List.map_cons, Limbs.decode_cons, Nat.pow_one, Native.ofNat_add, Native.ofNat_mul,
      Native.ofNat_val, htwo]
    ring

section Decompose

variable {σ : Store} {n start len : Nat} {value : Register .element} {v : Native} {xs : List Native}

theorem decodeNative_binaryDigits {count value : Nat} (h : value < 2 ^ count) :
    Limbs.decodeNative 1 (binaryDigits count value) = value := by
  unfold Limbs.decodeNative
  rw [binaryDigits_eq, Limbs.map_val_encode (by decide), Limbs.decode_encode (by decide), Nat.one_mul,
    Nat.mod_eq_of_lt h]

theorem decompose_assertions_eq_ok (bits : RegisterArray .bit) (hv : σ.Reads n value.slice [v])
    (hxs : (bits.toList.mapM fun r => (σ.cells n).get r.start) = .ok (xs.map some)) :
    (decompose value bits).assertions (σ.cells n) =
      .ok ([weightedSum 0 1 xs - v].map fun d => .vanishes (some d)) := by
  have hget : (σ.cells n).get value.start = .ok (some v) := hv.get (i := 0) (by simp)
  change decomposeAssertions value bits (σ.cells n) = _
  unfold decomposeAssertions
  refine bind_eq_ok_iff.mpr ⟨_, hget, ?_⟩
  refine bind_eq_ok_iff.mpr ⟨_, hxs, ?_⟩
  rw [List.map_singleton, ← Arith.sub_some, map_weightedSum Arith.hom_some]
  rfl

theorem exists_eq_binaryDigits (hlen : xs.length = len) (h : ∀ x ∈ xs, x = 0 ∨ x = 1) :
    ∃ N < 2 ^ len, xs = binaryDigits len N := by
  subst hlen
  have hsmall : ∀ d ∈ xs.map (·.val), d < 2 ^ 1 := by
    rw [List.forall_mem_map]
    intro x hx
    obtain rfl | rfl := h x hx
    · exact Nat.two_pos
    · exact Nat.one_lt_two
  have hlt := Limbs.decode_lt hsmall
  have hround := Limbs.encode_decode (show 1 ≤ 64 by decide) hsmall
  rw [List.length_map] at hlt hround
  rw [Nat.one_mul] at hlt
  refine ⟨_, hlt, ?_⟩
  rw [binaryDigits_eq, hround, Native.map_ofNat_val]

theorem eq_of_binaryDigits_eq {count N M : Nat} (hN : N < 2 ^ count) (hM : M < 2 ^ count)
    (h : binaryDigits count N = binaryDigits count M) : N = M := by
  rw [← decodeNative_binaryDigits hN, h, decodeNative_binaryDigits hM]

theorem exists_reads_of_decompose {bits : RegisterArray .bit} (h : (decompose value bits).Holds σ n) :
    ∃ v, σ.Reads n value.slice [v] := by
  obtain ⟨as, has, hall⟩ := h
  obtain ⟨o, ho, has⟩ := bind_eq_ok_iff.mp has
  obtain ⟨bs, -, has⟩ := bind_eq_ok_iff.mp has
  cases has
  have hzero : Arith.sub (weightedSum Arith.zero 1 bs) o = some 0 := hall _ (List.mem_singleton_self _)
  rw [Store.cells, CellValues.get_ofFn] at ho
  split at ho
  · next hlt =>
    cases hvalue : σ value.start with
    | none =>
      rw [hvalue] at ho
      cases ho
      rw [Arith.sub_none] at hzero
      contradiction
    | some v =>
      refine ⟨v, Store.reads_of_getElem hlt rfl fun i hi => ?_⟩
      obtain rfl := Nat.lt_one_iff.mp hi
      exact hvalue
  · contradiction

theorem holds_decompose_iff_mod {N : Nat} (hN : N < 2 ^ len) (hv : σ.Reads n value.slice [v])
    (hbits : σ.Reads n ⟨start, len⟩ (binaryDigits len N)) :
    (decompose value ⟨⟨start, len⟩, len⟩).Holds σ n ↔ N % order = v.val := by
  have hassertions := decompose_assertions_eq_ok ⟨⟨start, len⟩, len⟩ hv (hbits.mapM_get rfl)
  rw [holds_vanishes_iff hassertions, List.forall_mem_singleton, sub_eq_zero, weightedSum_eq, zero_add,
    one_mul, decodeNative_binaryDigits hN, Fin.ext_iff, Native.val_ofNat]

theorem holds_decompose_iff (hlen : len < 64) (hv : σ.Reads n value.slice [v])
    (hxs : σ.Reads n ⟨start, len⟩ xs) (hbool : ∀ x ∈ xs, x = 0 ∨ x = 1) (hlt : v.val < 2 ^ len) :
    (decompose value ⟨⟨start, len⟩, len⟩).Holds σ n ↔ xs = binaryDigits len v.val := by
  obtain ⟨N, hN, rfl⟩ := exists_eq_binaryDigits hxs.length_eq hbool
  rw [holds_decompose_iff_mod hN hv hxs, Nat.mod_eq_of_lt (Nat.lt_trans hN (two_pow_lt_order hlen))]
  constructor
  · rintro rfl
    rfl
  · exact eq_of_binaryDigits_eq hN hlt

theorem fits_iff {count : Nat} (v : Native) : count ≥ 64 ∨ v.val >>> count = 0 ↔ v.val < 2 ^ count := by
  rw [Nat.shiftRight_eq_div_pow, Nat.div_eq_zero_iff_lt (Nat.two_pow_pos _), or_iff_right_of_imp]
  intro hcount
  -- a value is below the order, so it always fits into 64 bits
  have hpow : 2 ^ 64 ≤ 2 ^ count := Nat.pow_le_pow_right (by decide) hcount
  exact Nat.lt_of_lt_of_le (Nat.lt_trans v.isLt (by decide)) hpow

theorem decomposePlan_eq {t : Trace} (bits : RegisterArray .bit) (hv : t.readFirst value = .ok v) :
    decomposePlan value bits t = if v.val < 2 ^ bits.length then
        .ok (.writeArray .bit bits (binaryDigits bits.length v.val) .done)
      else .error (.fault (.valueTooWide v.val bits.length)) := by
  unfold decomposePlan
  rw [hv]
  change (if bits.length ≥ 64 ∨ v.val >>> bits.length = 0 then _ else _) = _
  simp only [fits_iff]
  rfl

theorem decomposePlan_eq_ok {t : Trace} (bits : RegisterArray .bit) (hv : t.readFirst value = .ok v)
    (hlt : v.val < 2 ^ bits.length) :
    decomposePlan value bits t =
      .ok (.writeArray .bit bits (binaryDigits bits.length v.val) .done) :=
  (decomposePlan_eq bits hv).trans (if_pos hlt)

end Decompose

theorem selectPlan_eq_ok {t : Trace} {bit : Register .bit} {ifTrue ifFalse : CellSlice}
    (result : CellSlice) {β : Bool} {ts fs : List Native}
    (hbit : t.readFirst bit = .ok (Native.ofBool β)) (hts : t.readSlice ifTrue = .ok ts)
    (hfs : t.readSlice ifFalse = .ok fs) (hlent : ifTrue.len = result.len)
    (hlenf : ifFalse.len = result.len) :
    selectPlan bit ifTrue ifFalse result t = .ok (.write result (if β then ts else fs) .done) := by
  unfold selectPlan
  rw [if_pos ⟨hlent, hlenf⟩]
  refine bind_eq_ok_iff.mpr ⟨_, liftM_fault_eq_ok_iff.mpr hbit, ?_⟩
  cases β with
  | true => exact bind_eq_ok_iff.mpr ⟨_, liftM_fault_eq_ok_iff.mpr hts, rfl⟩
  | false => exact bind_eq_ok_iff.mpr ⟨_, liftM_fault_eq_ok_iff.mpr hfs, rfl⟩

theorem greaterThanPlan_eq_ok {t : Trace} {value : CellSlice} (bound : List Nat) (limbBits : Nat)
    (result : Register .bit) {xs : List Native} (h : t.readSlice value = .ok xs) :
    greaterThanPlan value bound limbBits result t = .ok (.write result.slice
      [Native.ofBool (Limbs.decodeNative limbBits xs > Limbs.decode limbBits bound)] .done) := by
  unfold greaterThanPlan
  exact bind_eq_ok_iff.mpr ⟨_, liftM_fault_eq_ok_iff.mpr h, rfl⟩

end Instruction

end ForeignCurve
