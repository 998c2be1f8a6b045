import ForeignCurve.Proofs.Curve.PrimeOrder
import ForeignCurve.Proofs.Inlet

namespace ForeignCurve

structure InverseOrZero (p A Z I : Nat) : Prop where
  inverse : A % p ≠ 0 → Z * A % p = 1 ∧ I % p = 0
  zero : A % p = 0 → Z % p = 0 ∧ I % p = 1

section Residues

variable {p : Nat} [Fact p.Prime]

theorem InverseOrZero.of_residues {A Z I : Nat} (hZ : (Z : ZMod p) = (A : ZMod p)⁻¹)
    (hI : (I : ZMod p) = if (A : ZMod p) = 0 then 1 else 0) : InverseOrZero p A Z I where
  inverse h := by
    have hne : (A : ZMod p) ≠ 0 := mt natCast_eq_zero_iff_mod.mp h
    rw [if_neg hne] at hI
    have hone : ((Z * A : Nat) : ZMod p) = 1 := by
      rw [Nat.cast_mul, hZ, inv_mul_cancel₀ hne]
    rw [mod_eq_val hone, mod_eq_val hI, ZMod.val_one, ZMod.val_zero]
    exact ⟨rfl, rfl⟩
  zero h := by
    have hzero : (A : ZMod p) = 0 := natCast_eq_zero_iff_mod.mpr h
    rw [if_pos hzero] at hI
    rw [hzero, inv_zero] at hZ
    rw [mod_eq_val hZ, mod_eq_val hI, ZMod.val_one, ZMod.val_zero]
    exact ⟨rfl, rfl⟩

theorem mul_mod_eq_of_div {A B C : Nat} (hB : (B : ZMod p) ≠ 0) (hC : (C : ZMod p) = A / B) :
    C * B % p = A % p := by
  rw [← ZMod.natCast_eq_natCast_iff', Nat.cast_mul, hC, div_mul_cancel₀ _ hB]

end Residues

section Limbs

variable {P : FieldParams} [P.HasHeadroom]

theorem TraceM.write_eq_writeNumber {r : FieldRegister P} {xs : List Native}
    (hlen : xs.length = P.limbs) (hrange : P.InRange xs) :
    write r xs = writeNumber r (P.decode xs) := by
  rw [writeNumber_eq_write, FieldParams.digits_decode hlen hrange]

end Limbs

/--
An inverse or zero is forced, whatever the limbs of the operand, and there always is one: for any limbs in
range the witness pass writes the canonical limbs of the inverse and of the indicator.
-/
theorem inverseOrZero_exact (P : FieldParams) [P.HasHeadroom] [Fact P.modulus.Prime] :
    ∃ r : ((Inlet.number P).component Gadget.inverseOrZero).Recorded,
      ∀ l : Layout, r.chip.manifest.required ≤ l.width →
        (r.chip.Guarantees l fun t => ∃ A Z I, t.number? l r.input = some A ∧
          t.number? l r.output.1 = some Z ∧ t.number? l r.output.2 = some I ∧
          InverseOrZero P.modulus A Z I) ∧
        ∀ xs, xs.length = P.limbs → P.InRange xs → r.chip.Computes l (.write r.input xs) fun t =>
          ∃ Z I, t.HoldsNumber r.output.1 Z ∧ t.HoldsNumber r.output.2 I ∧ Z < P.modulus ∧
            I < P.modulus ∧ InverseOrZero P.modulus (P.decode xs) Z I := by
  obtain ⟨r, hr⟩ := Inlet.exists_promises (.number P) Gadget.inverseOrZero (Inlet.number P).Fits
    (fun _ => True)
    (fun w A o => w.Residue o.1 (A : ZMod P.modulus)⁻¹ ∧
      w.Residue o.2 (if (A : ZMod P.modulus) = 0 then 1 else 0))
    (fun _ h => h) ⟨0, Nat.two_pow_pos _, trivial⟩
    fun hA _ => ((Scenario.inverseOrZero_spec (.of_number hA)).weaken fun _ h => ⟨trivial, h⟩).attempt
  refine ⟨r, fun l hl => ?_⟩
  obtain ⟨hguarantees, hcomputes⟩ := hr l hl
  refine ⟨hguarantees.weaken ?_, fun xs hlen hrange => ?_⟩
  · rintro t ⟨A, w, hstore, hA, -, ⟨Z, hZ, hinverse, -⟩, I, hI, hindicator, -⟩
    exact ⟨A, Z, I, hA, hZ.number? hstore, hI.number? hstore, .of_residues hinverse hindicator⟩
  · rw [TraceM.write_eq_writeNumber hlen hrange]
    apply ((hcomputes _ (FieldParams.decode_lt hlen hrange)).computes trivial).weaken
    rintro t ⟨w, hw, hstore, hnum, ⟨Z, hZ, hinverse, hltZ⟩, I, hI, hindicator, hltI⟩
    exact ⟨Z, I, hZ.holdsNumber_trace hstore hnum, hI.holdsNumber_trace hstore hnum, hltZ hw, hltI hw,
      .of_residues hinverse hindicator⟩

theorem inverseOrZero_exact_two_limbs :
    let P := FieldParams.twoLimbs
    P.HasHeadroom ∧ P.modulus.Prime ∧
      ∃ r : ((Inlet.number P).component Gadget.inverseOrZero).Recorded,
        ∀ l : Layout, r.chip.manifest.required ≤ l.width →
          (r.chip.Guarantees l fun t => t.number? l r.input = some 251 →
            t.residue? l r.output.1 = some 0 ∧ t.residue? l r.output.2 = some 1) ∧
          (r.chip.Computes l (.write r.input [11, 15]) fun t =>
            t.HoldsNumber r.output.1 0 ∧ t.HoldsNumber r.output.2 1) ∧
          r.chip.Computes l (.write r.input [15, 15]) fun t =>
            t.HoldsNumber r.output.1 63 ∧ t.HoldsNumber r.output.2 0 := by
  -- modulo 251, the limbs of 251 are those of a zero, and the inverse of 255 is 63
  intro P
  obtain ⟨r, hr⟩ := inverseOrZero_exact P
  refine ⟨inferInstance, Fact.out, r, fun l hl => ?_⟩
  obtain ⟨hguarantees, hcomputes⟩ := hr l hl
  refine ⟨hguarantees.weaken ?_, (hcomputes [11, 15] rfl (by decide)).weaken ?_,
    (hcomputes [15, 15] rfl (by decide)).weaken ?_⟩
  · rintro t ⟨A, Z, I, hA, hZ, hI, h⟩ hA'
    obtain rfl : A = 251 := Option.some.inj (hA.symm.trans hA')
    obtain ⟨hZ0, hI1⟩ := h.zero (by decide)
    rw [Table.residue?, hZ, Option.map_some, hZ0, Table.residue?, hI, Option.map_some, hI1]
    exact ⟨rfl, rfl⟩
  · rintro t ⟨Z, I, hZ, hI, hltZ, hltI, h⟩
    obtain ⟨hZ0, hI1⟩ := h.zero (by decide)
    rw [Nat.mod_eq_of_lt hltZ] at hZ0
    rw [Nat.mod_eq_of_lt hltI] at hI1
    rw [hZ0] at hZ
    rw [hI1] at hI
    exact ⟨hZ, hI⟩
  · rintro t ⟨Z, I, hZ, hI, hltZ, hltI, h⟩
    obtain ⟨hZ63, hI0⟩ := h.inverse (by decide)
    rw [Nat.mod_eq_of_lt hltI] at hI0
    change Z * 255 % 251 = 1 at hZ63
    change Z < 251 at hltZ
    obtain rfl : Z = 63 := by omega
    rw [hI0] at hI
    exact ⟨hZ, hI⟩

/--
Every accepted quotient is one, by a divisor that is not zero. For any limbs in range the witness pass
goes through exactly if the divisor is not zero modulo `p`, and then writes the canonical quotient.
-/
theorem div_exact (P : FieldParams) [P.HasHeadroom] [Fact P.modulus.Prime] :
    ∃ r : (((Inlet.number P).pair (Inlet.number P)).component fun r => Gadget.div r.1 r.2).Recorded,
      ∀ l : Layout, r.chip.manifest.required ≤ l.width →
        (r.chip.Guarantees l fun t => ∃ A B C, t.number? l r.input.1 = some A ∧
          t.number? l r.input.2 = some B ∧ t.number? l r.output = some C ∧
          B % P.modulus ≠ 0 ∧ C * B % P.modulus = A % P.modulus) ∧
        ∀ xs ys, xs.length = P.limbs → P.InRange xs → ys.length = P.limbs → P.InRange ys →
          r.chip.ComputesIff l (do .write r.input.1 xs; .write r.input.2 ys)
            (P.decode ys % P.modulus ≠ 0) fun t => ∃ C, t.HoldsNumber r.output C ∧ C < P.modulus ∧
              C * P.decode ys % P.modulus = P.decode xs % P.modulus := by
  have hne {B : Nat} : B % P.modulus ≠ 0 ↔ (B : ZMod P.modulus) ≠ 0 :=
    not_congr natCast_eq_zero_iff_mod.symm
  have hone : 1 % P.modulus ≠ 0 := by
    rw [hne, Nat.cast_one]
    exact one_ne_zero
  obtain ⟨r, hr⟩ := Inlet.exists_promises ((Inlet.number P).pair (.number P))
    (fun r => Gadget.div r.1 r.2) ((Inlet.number P).pair (.number P)).Fits
    (fun v => v.2 % P.modulus ≠ 0) (fun w v o => w.Residue o ((v.1 : ZMod P.modulus) / v.2))
    (fun _ h => h) ⟨(0, 1), ⟨Nat.two_pow_pos _, FieldParams.two_le_two_pow_bits⟩, hone⟩
    fun hv _ => (Scenario.div_attempt (.of_number hv.1) (.of_number hv.2)).weaken
      (fun _ h => ⟨hne.mpr h.1, h.2⟩) fun h => not_not.mpr (natCast_eq_zero_iff_mod.mp h)
  refine ⟨r, fun l hl => ?_⟩
  obtain ⟨hguarantees, hcomputes⟩ := hr l hl
  refine ⟨hguarantees.weaken ?_, fun xs ys hlen hrange hlen' hrange' => ?_⟩
  · rintro t ⟨v, w, hstore, hv, hB, C, hC, hquotient, -⟩
    obtain ⟨hA, hB'⟩ := Inlet.read?_pair_eq_some_iff.mp hv
    exact ⟨_, _, C, hA, hB', hC.number? hstore, hB, mul_mod_eq_of_div (hne.mp hB) hquotient⟩
  · rw [TraceM.write_eq_writeNumber hlen hrange, TraceM.write_eq_writeNumber hlen' hrange']
    apply (hcomputes (P.decode xs, P.decode ys)
      ⟨FieldParams.decode_lt hlen hrange, FieldParams.decode_lt hlen' hrange'⟩).weaken .rfl
    rintro hB t ⟨w, hw, hstore, hnum, C, hC, hquotient, hlt⟩
    exact ⟨C, hC.holdsNumber_trace hstore hnum, hlt hw, mul_mod_eq_of_div (hne.mp hB) hquotient⟩

theorem div_exact_two_limbs :
    let P := FieldParams.twoLimbs
    P.HasHeadroom ∧ P.modulus.Prime ∧
      ∃ r : (((Inlet.number P).pair (Inlet.number P)).component fun r => Gadget.div r.1 r.2).Recorded,
        ∀ l : Layout, r.chip.manifest.required ≤ l.width →
          (r.chip.Guarantees l fun t => t.number? l r.input.2 ≠ some 251) ∧
          (r.chip.Computes l (do .write r.input.1 [8, 12]; .write r.input.2 [15, 15]) fun t =>
            t.HoldsNumber r.output 50) ∧
          r.chip.DividesByZero l (do .write r.input.1 [8, 12]; .write r.input.2 [11, 15]) := by
  -- modulo 251, 200 by 255 is 50, and there is no quotient by 251
  intro P
  obtain ⟨r, hr⟩ := div_exact P
  refine ⟨inferInstance, Fact.out, r, fun l hl => ?_⟩
  obtain ⟨hguarantees, hcomputes⟩ := hr l hl
  have h (y y' : Native) (hy : P.InRange [y, y']) := hcomputes [8, 12] [y, y'] rfl (by decide) rfl hy
  refine ⟨hguarantees.weaken ?_, ((h 15 15 (by decide)).computes (by decide)).weaken ?_,
    (h 11 15 (by decide)).divides (by decide)⟩
  · rintro t ⟨A, B, C, -, hB, -, hne, -⟩ hB'
    obtain rfl : B = 251 := Option.some.inj (hB.symm.trans hB')
    exact hne (by decide)
  · rintro t ⟨C, hC, hlt, hquotient⟩
    have hmod : C * 255 % 251 = 200 := hquotient.trans (by decide)
    change C < 251 at hlt
    obtain rfl : C = 50 := by omega
    exact hC

end ForeignCurve
