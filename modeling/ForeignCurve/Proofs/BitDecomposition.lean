import ForeignCurve.Proofs.Gadget.Limb
import ForeignCurve.Proofs.Instruction.Outputs

/-!
What the bits of a decomposition can be. The gates are an equation in the native field: they accept the
digits of every number that is congruent to the value. Below 64 bits that is the value alone.
-/

namespace ForeignCurve

variable {σ : Store} {n start count : Nat} {value : Register .element} {v : Native} {t : Trace}

def Store.HoldsDigits (σ : Store) (start count N : Nat) : Prop :=
  ∀ j < count, σ (start + j) = some (Native.ofBool (N.testBit j))

theorem Store.holdsDigits_iff {N : Nat} (hbound : start + count ≤ n) :
    σ.HoldsDigits start count N ↔ σ.Reads n ⟨start, count⟩ (Instruction.binaryDigits count N) := by
  have hlen := Instruction.length_binaryDigits count N
  constructor
  · intro h
    apply Store.reads_of_getElem hbound hlen
    intro j hj
    rw [Instruction.getElem_binaryDigits]
    exact h j (by omega)
  · intro h j hj
    have hget := h.getElem (i := j) (by omega)
    rwa [Instruction.getElem_binaryDigits] at hget

namespace Instruction

def decomposition (value : Register .element) (start count : Nat) : List Instruction :=
  (Record.ruleInstruction? .boolean ⟨start, count⟩).toList ++ [.decompose value ⟨⟨start, count⟩, count⟩]

theorem holds_decomposition_iff (hbound : start + count ≤ n) :
    (∀ i ∈ decomposition value start count, i.Holds σ n) ↔ ∃ v N, σ.Reads n value.slice [v] ∧
      N < 2 ^ count ∧ N % order = v.val ∧ σ.HoldsDigits start count N := by
  unfold decomposition
  rw [List.forall_mem_append, List.forall_mem_singleton, holds_rule_boolean_iff hbound]
  constructor
  · rintro ⟨⟨xs, hxs, hbool⟩, hsum⟩
    obtain ⟨v, hv⟩ := exists_reads_of_decompose hsum
    obtain ⟨N, hN, rfl⟩ := exists_eq_binaryDigits hxs.length_eq hbool
    exact ⟨v, N, hv, hN, (holds_decompose_iff_mod hN hv hxs).mp hsum,
      (Store.holdsDigits_iff hbound).mpr hxs⟩
  · rintro ⟨v, N, hv, hN, hmod, hdigits⟩
    have hreads := (Store.holdsDigits_iff hbound).mp hdigits
    exact ⟨⟨_, hreads, fun _ => boolean_of_mem_binaryDigits⟩,
      (holds_decompose_iff_mod hN hv hreads).mpr hmod⟩

theorem lt_and_eq_of_mod {N : Nat} (hN : N < 2 ^ count) (hmod : N % order = v.val) :
    v.val < 2 ^ count ∧ (count < 64 → N = v.val) := by
  refine ⟨hmod ▸ Nat.lt_of_le_of_lt (Nat.mod_le _ _) hN, fun hcount => ?_⟩
  rw [← hmod, Nat.mod_eq_of_lt (Nat.lt_trans hN (two_pow_lt_order hcount))]

theorem writesIff_decompose (hv : t.readFirst value = .ok v) (hbound : start + count ≤ t.numCells) :
    (decompose value ⟨⟨start, count⟩, count⟩).WritesIff t (v.val < 2 ^ count)
      (· = .valueTooWide v.val count) [⟨start, count⟩] fun t' =>
        t'.store.HoldsDigits start count v.val ∧
          ∀ i ∈ decomposition value start count, i.Holds t'.store t'.numCells := by
  have hplan : (decompose value ⟨⟨start, count⟩, count⟩).plan t = _ := decomposePlan_eq _ hv
  obtain ⟨hstop, hfirst⟩ := Trace.readFirst_eq_ok_iff.mp hv
  apply WritesIff.of_plan
  · intro hlt
    rw [if_pos hlt] at hplan
    refine ⟨_, hplan, .writeArray rfl rfl (length_binaryDigits _ _) .done, fun t' hextends hwritten => ?_⟩
    rw [← hextends.numCells] at hbound hstop
    have hdigits := (Store.holdsDigits_iff hbound).mpr ((Store.reads_iff_mapM_get rfl hbound).mpr hwritten.1)
    refine ⟨hdigits, (holds_decomposition_iff hbound).mpr ⟨v, v.val, ?_, hlt, ?_, hdigits⟩⟩
    · apply Store.reads_of_getElem hstop rfl
      intro i hi
      obtain rfl := Nat.lt_one_iff.mp hi
      exact hextends.store _ _ hfirst
    · exact Nat.mod_eq_of_lt v.isLt
  · intro hlt
    rw [if_neg hlt] at hplan
    exact ⟨_, rfl, hplan⟩

end Instruction

open Instruction

/--
The gates accept exactly the digits of the numbers that are congruent to the value. So the value fits
into the bits, and if they are fewer than 64, they are its digits. The witness pass goes through exactly
if the value fits, for any number of bits, and writes its digits.
-/
theorem Gadget.decompose_exact (value : Register .element) (start count : Nat) :
    (Gadget.decompose value count).AddsAt start ⟨⟨start, count⟩, count⟩ count
        (decomposition value start count) ∧
      (∀ (σ : Store) n, start + count ≤ n →
        ((∀ i ∈ decomposition value start count, i.Holds σ n) ↔ ∃ v N, σ.Reads n value.slice [v] ∧
          N < 2 ^ count ∧ N % order = v.val ∧ σ.HoldsDigits start count N)) ∧
      (∀ (σ : Store) n v, start + count ≤ n → σ.Reads n value.slice [v] →
        (∀ i ∈ decomposition value start count, i.Holds σ n) →
        v.val < 2 ^ count ∧ (count < 64 → σ.HoldsDigits start count v.val)) ∧
      ∀ (t : Trace) v, start + count ≤ t.numCells → t.readFirst value = .ok v →
        (Instruction.decompose value ⟨⟨start, count⟩, count⟩).WritesIff t (v.val < 2 ^ count)
          (· = .valueTooWide v.val count) [⟨start, count⟩] fun t' =>
            t'.store.HoldsDigits start count v.val ∧
              ∀ i ∈ decomposition value start count, i.Holds t'.store t'.numCells := by
  refine ⟨Scenario.addsAt_decompose value count start, fun σ n => holds_decomposition_iff, ?_,
    fun t v hbound hv => writesIff_decompose hv hbound⟩
  intro σ n v hbound hv hholds
  obtain ⟨v', N, hv', hN, hmod, hdigits⟩ := (holds_decomposition_iff hbound).mp hholds
  obtain rfl : v = v' := List.singleton_inj.mp (hv.unique hv')
  obtain ⟨hlt, heq⟩ := lt_and_eq_of_mod hN hmod
  exact ⟨hlt, fun hcount => heq hcount ▸ hdigits⟩

theorem decompose_exact_three_bits :
    let row (v : Native) := Trace.ofRow #[some v, none, none, none] (Nat.succ_pos 3)
    let value : Register .element := ⟨0⟩
    let bits : RegisterArray .bit := ⟨⟨1, 3⟩, 3⟩
    (∀ σ : Store, σ.Reads 4 value.slice [5] → ((∀ i ∈ decomposition value 1 3, i.Holds σ 4) ↔
        σ 1 = some 1 ∧ σ 2 = some 0 ∧ σ 3 = some 1)) ∧
      (∀ σ : Store, σ.Reads 4 value.slice [9] → ¬ ∀ i ∈ decomposition value 1 3, i.Holds σ 4) ∧
      (∃ t', (Instruction.decompose value bits).write (row 5) = .ok () t' ∧ t'.store 1 = some 1 ∧
        t'.store 2 = some 0 ∧ t'.store 3 = some 1) ∧
      (Instruction.decompose value bits).write (row 9) = .error (.fault (.valueTooWide 9 3)) (row 9) := by
  intro row value bits
  have hfirst (v : Native) : (row v).readFirst value = .ok v :=
    Trace.readFirst_eq_ok_iff.mpr ⟨Nat.succ_pos 3, Trace.store_ofRow _ 0⟩
  obtain ⟨-, haccepts, hsound, hwrite⟩ := Gadget.decompose_exact value 1 3
  have hfive (σ : Store) : σ.HoldsDigits 1 3 5 ↔ σ 1 = some 1 ∧ σ 2 = some 0 ∧ σ 3 = some 1 := by
    constructor
    · intro h
      exact ⟨h 0 (by decide), h 1 (by decide), h 2 (by decide)⟩
    · rintro ⟨hone, htwo, hthree⟩ j hj
      interval_cases j
      · exact hone
      · exact htwo
      · exact hthree
  refine ⟨fun σ hσ => ⟨fun hholds => ?_, fun hdigits => ?_⟩, fun σ hσ hholds => ?_, ?_, ?_⟩
  · obtain ⟨-, hvalue⟩ := hsound σ 4 5 (Nat.le_refl 4) hσ hholds
    exact (hfive σ).mp (hvalue (by decide))
  · exact (haccepts σ 4 (Nat.le_refl 4)).mpr ⟨5, 5, hσ, by decide, rfl, (hfive σ).mpr hdigits⟩
  · obtain ⟨hlt, -⟩ := hsound σ 4 9 (Nat.le_refl 4) hσ hholds
    contradiction
  · have h := hwrite (row 5) 5 (by decide) (hfirst _)
    obtain ⟨t', ht'⟩ := (h.succeeds_iff ⟨by decide, by decide, by decide⟩).mpr (by decide)
    obtain ⟨-, -, hdigits, -⟩ := h.written t' ht'
    exact ⟨t', ht', (hfive t'.store).mp hdigits⟩
  · have h := hwrite (row 9) 9 (by decide) (hfirst _)
    obtain ⟨cause, rfl, hrefused⟩ := h.refused (by decide)
    exact hrefused

def Store.wrappedZero : Store
  | 0 => some 0
  | i + 1 => some (Native.ofBool (order.testBit i))

theorem decomposition_not_unique :
    Store.wrappedZero.Reads 65 (⟨0⟩ : Register .element).slice [0] ∧
      (∀ i ∈ decomposition ⟨0⟩ 1 64, i.Holds Store.wrappedZero 65) ∧
      ¬ Store.wrappedZero.HoldsDigits 1 64 0 := by
  -- the order is congruent to zero, and its lowest digit is one
  have hvalue : Store.wrappedZero.Reads 65 (⟨0⟩ : Register .element).slice [0] :=
    Store.reads_of_getElem (by decide) rfl fun i hi => by
      obtain rfl := Nat.lt_one_iff.mp hi
      rfl
  refine ⟨hvalue, ?_, ?_⟩
  · apply (holds_decomposition_iff (by decide)).mpr
    refine ⟨0, order, hvalue, by decide, Nat.mod_self order, fun j hj => ?_⟩
    rw [Nat.add_comm]
    rfl
  · intro h
    have hlowest := Option.some.inj (h 0 (by decide))
    contradiction

end ForeignCurve
