import ForeignCurve.Proofs.Instruction.Exactness
import ForeignCurve.Proofs.Instruction.Outputs
import ForeignCurve.Proofs.Instruction.Written
import ForeignCurve.Proofs.Reading

/-!
The witness of a field operation, from any limbs in range, reduced or not. A carry that is not negative and
fits is all it takes: then the quotient exists as well, and what is written satisfies the instruction.
-/

namespace ForeignCurve

namespace Identity

variable {P : FieldParams}

def witnesses (m : Identity P) : List CellSlice :=
  [m.carry.slice, m.low.slice, m.high.slice]

def outputs (m : Identity P) : List CellSlice :=
  m.result.slice :: m.witnesses

end Identity

inductive FieldOperation where
  | sum
  | difference
  | product
deriving DecidableEq

namespace FieldOperation

section Definitions

variable {P : FieldParams}

def apply {R : Type} [Ring R] : FieldOperation → R → R → R
  | sum, a, b => a + b
  | difference, a, b => a - b
  | product, a, b => a * b

def instruction (m : Identity P) : FieldOperation → Instruction
  | sum => .fieldSum P m
  | difference => .fieldDifference P { m with a := m.b, b := m.result, result := m.a }
  | product => .fieldProduct P m

variable (P)

def Admits : FieldOperation → Nat → Nat → Prop
  | sum, _, _ => True
  | difference, A, B => (A : ℤ) ≤ B + ((A : ℤ) - B) % P.modulus
  | product, A, B => A * B / P.modulus < 2 ^ P.bits

def Reduced : FieldOperation → Nat → Nat → Prop
  | sum, _, _ => True
  | difference, A, _ => A < P.modulus
  | product, A, B => A < P.modulus ∨ B < P.modulus

def Refuses : FieldOperation → Nat → Fault → Prop
  | sum, _, _ => False
  | difference, A, cause => cause = .unreducedMinuend A P.modulus
  | product, _, cause => cause = .unreducedFactors P.modulus

variable {P}

/--
The result holds the canonical limbs of the residue, the carry and the quotient are in range, and the
instruction holds.
-/
structure Computed (o : FieldOperation) (m : Identity P) (A B : Nat) (t : Trace) : Prop where
  result : ∃ N < P.modulus, t.HoldsNumber m.result N ∧
    (N : ZMod P.modulus) = o.apply (A : ZMod P.modulus) (B : ZMod P.modulus)
  inRange : ∀ s ∈ m.witnesses, ∃ xs, t.readSlice s = .ok xs ∧ P.InRange xs
  holds : (o.instruction m).Holds t.store t.numCells

def Plans (o : FieldOperation) (m : Identity P) (A B : Nat) (t : Trace) : Prop :=
  ∃ p, (o.instruction m).plan t = .ok p ∧ p.Fits m.outputs ∧
    ∀ t', t.Extends t' → p.Written t'.store t'.numCells → o.Computed m A B t'

end Definitions

section Values

variable {P : FieldParams} {o : FieldOperation} {A B : Nat}

theorem admits_difference_iff (hp : 0 < P.modulus) :
    difference.Admits P A B ↔ A ≤ B + Identity.difference P.modulus A B := by
  rw [← Int.ofNat_le, Nat.cast_add, Identity.natCast_difference hp]
  rfl

theorem Reduced.admits (hp : 0 < P.modulus) (hA : A < 2 ^ P.bits) (hB : B < 2 ^ P.bits)
    (h : o.Reduced P A B) : o.Admits P A B := by
  cases o with
  | sum => trivial
  | difference => exact (admits_difference_iff hp).mpr (Identity.le_add_difference hp h)
  | product =>
    apply Nat.div_lt_of_lt_mul
    cases h with
    | inl h => exact Nat.mul_lt_mul'' h hB
    | inr h =>
      rw [Nat.mul_comm P.modulus]
      exact Nat.mul_lt_mul'' hA h

theorem Refuses.ne_of_quotient {cause : Fault} (h : o.Refuses P A cause) (bits : Nat) :
    cause ≠ .identityNotVanishing bits ∧ cause ≠ .quotientOutOfRange := by
  -- what is refused is refused before a quotient is looked for
  cases o with
  | sum => contradiction
  | difference | product =>
    cases h
    exact ⟨nofun, nofun⟩

end Values

section Plan

variable {P : FieldParams} [P.HasHeadroom] {t : Trace} {x y z carry : FieldRegister P} {low high : Nat}
  {m m' : Identity P} (hm' : m' = .wired x y z carry low high)

include hm'

theorem exists_witness (s : Side) {X Y Z C : Nat} (hX : X < 2 ^ P.bits) (hY : Y < 2 ^ P.bits)
    (hZ : Z < 2 ^ P.bits) (hC : C < 2 ^ P.bits) (h : s.apply X Y = Z + C * P.modulus) :
    ∃ rest, m'.witnessPlan (s.poly (P.digits X) (P.digits Y)) (P.digits Z) C = .ok rest ∧
      rest.Fits m'.witnesses ∧ ∀ t : Trace, (∀ s ∈ m'.witnesses, s.stop ≤ t.numCells) →
        rest.Written t.store t.numCells →
          ∀ s ∈ m'.witnesses, ∃ xs, t.readSlice s = .ok xs ∧ P.InRange xs := by
  subst hm'
  rw [← FieldParams.decode_digits_of_lt hX, ← FieldParams.decode_digits_of_lt hY,
    ← FieldParams.decode_digits_of_lt hZ] at h
  obtain ⟨lows, highs, hplan, hlenlow, hlenhigh, hlow, hhigh, -⟩ := Identity.exists_witnessPlan s
    (.wired x y z carry low high) (FieldParams.length_digits _) (FieldParams.length_digits _)
    (FieldParams.length_digits _) (P.inRange_digits _) (P.inRange_digits _) (P.inRange_digits _) hC h
  refine ⟨_, hplan, ?_, ?_⟩
  · apply Plan.Fits.write (FieldParams.length_digits C)
    apply Plan.Fits.writeArray rfl rfl hlenlow
    exact Plan.Fits.writeArray rfl rfl hlenhigh .done
  · rintro t hbound ⟨hcarry, hlows, hhighs, -⟩
    unfold Identity.witnesses at hbound ⊢
    simp only [List.forall_mem_cons, List.not_mem_nil, false_imp_iff, implies_true, and_true] at hbound ⊢
    obtain ⟨-, hboundlow, hboundhigh⟩ := hbound
    exact ⟨⟨_, Trace.readSlice_eq_ok_iff.mpr hcarry, P.inRange_digits C⟩,
      ⟨_, Trace.readSlice_eq_ok_iff.mpr ((Store.reads_iff_mapM_get rfl hboundlow).mpr hlows), hlow⟩,
      ⟨_, Trace.readSlice_eq_ok_iff.mpr ((Store.reads_iff_mapM_get rfl hboundhigh).mpr hhighs), hhigh⟩⟩

theorem plans_of_identity {o : FieldOperation} (s : Side) (hwitnesses : m'.witnesses = m.witnesses)
    (hassertions : ∀ vs : CellValues (Option Native),
      (o.instruction m).assertions vs = m'.assertions s.combine vs)
    (hbound : ∀ s ∈ m.outputs, s.stop ≤ t.numCells) {A B N : Nat} (hN : N < P.modulus)
    (hresidue : (N : ZMod P.modulus) = o.apply (A : ZMod P.modulus) (B : ZMod P.modulus)) {X Y Z C : Nat}
    (hX : X < 2 ^ P.bits) (hY : Y < 2 ^ P.bits) (hZ : Z < 2 ^ P.bits) (hC : C < 2 ^ P.bits)
    (h : s.apply X Y = Z + C * P.modulus)
    (hplan : ∀ rest, m'.witnessPlan (s.poly (P.digits X) (P.digits Y)) (P.digits Z) C = .ok rest →
      (o.instruction m).plan t = .ok (.write m.result.slice (P.digits N) rest))
    (hoperands : ∀ t', t.Extends t' → t'.readSlice m.result.slice = .ok (P.digits N) →
      t'.readSlice m'.a.slice = .ok (P.digits X) ∧ t'.readSlice m'.b.slice = .ok (P.digits Y) ∧
        t'.readSlice m'.result.slice = .ok (P.digits Z)) : o.Plans m A B t := by
  obtain ⟨rest, hwitness, hfits, hreads⟩ := exists_witness hm' s hX hY hZ hC h
  rw [hwitnesses] at hfits hreads
  refine ⟨_, hplan rest hwitness, .write (FieldParams.length_digits N) hfits, ?_⟩
  rintro t' hextends ⟨hr, hwritten⟩
  rw [← hextends.numCells] at hbound
  have hresult := Trace.readSlice_eq_ok_iff.mpr hr
  obtain ⟨hx, hy, hz⟩ := hoperands t' hextends hresult
  rw [Trace.readSlice_eq_ok_iff] at hx hy hz
  exact ⟨⟨N, hN, ⟨_, P.encode_eq_digits N, hresult⟩, hresidue⟩,
    hreads t' (fun s hs => hbound s (List.mem_cons_of_mem _ hs)) hwritten,
    Identity.holds_of_witnessPlan s (f := fun _ => o.instruction m) hassertions hwitness hwritten hx hy hz⟩

end Plan

section Writes

variable {P : FieldParams} [P.HasHeadroom] {t : Trace} {a b result carry : FieldRegister P}
  {low high : Nat} {m : Identity P} (hm : m = .wired a b result carry low high)
  (hbound : ∀ s ∈ m.outputs, s.stop ≤ t.numCells) {A B : Nat} (hA : A < 2 ^ P.bits) (hB : B < 2 ^ P.bits)
  (ha : t.readSlice m.a.slice = .ok (P.digits A)) (hb : t.readSlice m.b.slice = .ok (P.digits B))

section Plans

variable [hmod : NeZero P.modulus]

include hm hbound hA hB ha hb

theorem plans_sum (hp : 2 ≤ P.modulus) : sum.Plans m A B t := by
  have hlt := Nat.mod_lt (A + B) (Nat.pos_of_ne_zero hmod.out)
  -- from two on a modulus leaves room for the carry of every sum
  have hcarry : (A + B) / P.modulus < 2 ^ P.bits := by
    have hle := Nat.mul_le_mul_right (2 ^ P.bits) hp
    apply Nat.div_lt_of_lt_mul
    omega
  have hresidue : ((A + B) % P.modulus : Nat) = (A : ZMod P.modulus) + (B : ZMod P.modulus) := by
    rw [ZMod.natCast_mod, Nat.cast_add]
  apply plans_of_identity (o := sum) hm .sum rfl (fun _ => rfl) hbound hlt hresidue hA hB
    (Nat.lt_trans hlt FieldParams.modulus_lt) hcarry (Nat.mod_add_div' (A + B) P.modulus).symm
  · intro rest hrest
    exact (Identity.plan_of_reads ha hb _).trans (Identity.sumPlan_eq_ok hA hB hrest)
  · exact fun t' hextends hr => ⟨hextends.readSlice ha, hextends.readSlice hb, hr⟩

theorem plans_difference (hle : A ≤ B + Identity.difference P.modulus A B) :
    difference.Plans m A B t := by
  have hpos := Nat.pos_of_ne_zero hmod.out
  have hlt := Identity.difference_lt hpos A B
  have hidentity := Identity.add_difference_eq hpos hle
  -- what is computed is the second summand of a sum
  have hm' : { m with a := m.b, b := m.result, result := m.a } =
      Identity.wired b result a carry low high := by
    rw [hm]
    rfl
  apply plans_of_identity (m := m) (o := difference) hm' .sum rfl (fun _ => rfl) hbound hlt
    (Scenario.natCast_sub_of_carry hidentity) hB (Nat.lt_trans hlt FieldParams.modulus_lt) hA
    (Identity.carry_difference_lt hpos hB) hidentity
  · intro rest hrest
    exact (Identity.plan_of_reads hb ha _).trans (Identity.differencePlan_eq_ok hB hA hle hrest)
  · exact fun t' hextends hr => ⟨hextends.readSlice hb, hr, hextends.readSlice ha⟩

theorem plans_product (hcarry : A * B / P.modulus < 2 ^ P.bits) : product.Plans m A B t := by
  have hlt := Nat.mod_lt (A * B) (Nat.pos_of_ne_zero hmod.out)
  have hresidue : (A * B % P.modulus : Nat) = (A : ZMod P.modulus) * (B : ZMod P.modulus) := by
    rw [ZMod.natCast_mod, Nat.cast_mul]
  apply plans_of_identity (o := product) hm .product rfl (fun _ => rfl) hbound hlt hresidue hA hB
    (Nat.lt_trans hlt FieldParams.modulus_lt) hcarry (Nat.mod_add_div' (A * B) P.modulus).symm
  · intro rest hrest
    exact (Identity.plan_of_reads ha hb _).trans (Identity.productPlan_eq_ok hA hB hcarry hrest)
  · exact fun t' hextends hr => ⟨hextends.readSlice ha, hextends.readSlice hb, hr⟩

end Plans

include hA hB ha hb

theorem exists_refusal [hmod : NeZero P.modulus] {o : FieldOperation} (h : ¬ o.Admits P A B) :
    ∃ cause, o.Refuses P A cause ∧ (o.instruction m).plan t = .error (.fault cause) := by
  cases o with
  | sum => exact absurd trivial h
  | difference =>
    refine ⟨_, rfl, (Identity.plan_of_reads hb ha _).trans (Identity.differencePlan_eq_error hB hA ?_)⟩
    exact mt (admits_difference_iff (Nat.pos_of_ne_zero hmod.out)).mpr h
  | product =>
    exact ⟨_, rfl, (Identity.plan_of_reads ha hb _).trans (Identity.productPlan_eq_error hA hB h)⟩

include hm hbound

theorem writesIff (hp : 2 ≤ P.modulus) (o : FieldOperation) :
    (o.instruction m).WritesIff t (o.Admits P A B) (o.Refuses P A) m.outputs (o.Computed m A B) := by
  have hpos : 0 < P.modulus := by omega
  have : NeZero P.modulus := ⟨hpos.ne'⟩
  refine .of_plan (fun h => ?_) (exists_refusal hA hB ha hb)
  cases o with
  | sum => exact plans_sum hm hbound hA hB ha hb hp
  | difference => exact plans_difference hm hbound hA hB ha hb ((admits_difference_iff hpos).mp h)
  | product => exact plans_product hm hbound hA hB ha hb h

end Writes

end FieldOperation

/--
From any limbs in range an operation is written exactly for the numbers that it admits, reduced ones among
them. The result is canonical and what is written satisfies the instruction. No write ever fails for want
of a quotient.
-/
theorem fieldOperation_exact {P : FieldParams} [P.HasHeadroom] (hp : 2 ≤ P.modulus) (o : FieldOperation)
    (a b result carry : FieldRegister P) (low high : Nat) :
    let m : Identity P := .wired a b result carry low high
    ∀ t xs ys, (∀ s ∈ m.outputs, s.stop ≤ t.numCells) → t.readSlice a.slice = .ok xs →
      t.readSlice b.slice = .ok ys → P.InRange xs → P.InRange ys →
        (o.instruction m).WritesIff t (o.Admits P (P.decode xs) (P.decode ys)) (o.Refuses P (P.decode xs))
          m.outputs (o.Computed m (P.decode xs) (P.decode ys)) ∧
        (o.Reduced P (P.decode xs) (P.decode ys) → o.Admits P (P.decode xs) (P.decode ys)) ∧
        ∀ f t', (o.instruction m).write t = .error f t' → ∀ bits,
          f ≠ .fault (.identityNotVanishing bits) ∧ f ≠ .fault .quotientOutOfRange := by
  intro m t xs ys hbound ha hb hxs hys
  have hlenx := (Trace.readSlice_eq_ok_iff.mp ha).length_eq
  have hleny := (Trace.readSlice_eq_ok_iff.mp hb).length_eq
  have hA := FieldParams.decode_lt hlenx hxs
  have hB := FieldParams.decode_lt hleny hys
  have h : (o.instruction m).WritesIff t (o.Admits P (P.decode xs) (P.decode ys))
      (o.Refuses P (P.decode xs)) m.outputs (o.Computed m (P.decode xs) (P.decode ys)) := by
    apply FieldOperation.writesIff rfl hbound hA hB _ _ hp
    · rw [FieldParams.digits_decode hlenx hxs]
      exact ha
    · rw [FieldParams.digits_decode hleny hys]
      exact hb
  refine ⟨h, FieldOperation.Reduced.admits (by omega) hA hB, fun f t' herror bits => ?_⟩
  obtain ⟨cause, hrefuses, rfl⟩ | ⟨cause, rfl, hmisplaced⟩ := h.error_cases herror
  · obtain ⟨hvanishing, hrange⟩ := hrefuses.ne_of_quotient bits
    exact ⟨mt Failure.fault.inj hvanishing, mt Failure.fault.inj hrange⟩
  · constructor
    · rintro ⟨⟩
      contradiction
    · rintro ⟨⟩
      contradiction

theorem fieldOperation_exact_two_limbs :
    let P : FieldParams := ⟨4, 2, 2, 32, 251⟩
    let m : Identity P := .wired ⟨0⟩ ⟨2⟩ ⟨4⟩ ⟨6⟩ 8 10
    let row (x x' y y' : Native) := Trace.ofRow
      #[some x, some x', some y, some y', none, none, none, none, none, none, none, none] (Nat.succ_pos 11)
    P.headroom = .ok () ∧ 2 ≤ P.modulus ∧
      (∀ o : FieldOperation, ∃ t', (o.instruction m).write (row 8 12 4 6) = .ok () t' ∧
        o.Computed m 200 100 t') ∧
      (FieldOperation.difference.instruction m).write (row 15 15 0 0) =
        .error (.fault (.unreducedMinuend 255 251)) (row 15 15 0 0) ∧
      (FieldOperation.product.instruction m).write (row 15 15 15 15) =
        .error (.fault (.unreducedFactors 251)) (row 15 15 15 15) := by
  intro P m row
  have hheadroom : P.headroom = .ok () := by decide
  have : P.HasHeadroom := ⟨hheadroom⟩
  have h (o : FieldOperation) (x x' y y' : Native) {A B : Nat} (hA : P.decode [x, x'] = A)
      (hB : P.decode [y, y'] = B) (hx : P.InRange [x, x']) (hy : P.InRange [y, y']) :
      (o.instruction m).WritesIff (row x x' y y') (o.Admits P A B) (o.Refuses P A) m.outputs
        (o.Computed m A B) ∧ (o.Reduced P A B → o.Admits P A B) := by
    subst hA hB
    obtain ⟨hwrites, hadmits, -⟩ := fieldOperation_exact (P := P) (by decide) o ⟨0⟩ ⟨2⟩ ⟨4⟩ ⟨6⟩ 8 10
      (row x x' y y') [x, x'] [y, y'] (show ∀ s ∈ m.outputs, s.stop ≤ 12 by decide)
      (Trace.readSlice_ofRow _ (show 2 ≤ 12 by decide) rfl)
      (Trace.readSlice_ofRow _ (show 4 ≤ 12 by decide) rfl) hx hy
    exact ⟨hwrites, hadmits⟩
  refine ⟨hheadroom, by decide, fun o => ?_, ?_, ?_⟩
  · obtain ⟨hwrites, hadmits⟩ := h o 8 12 4 6 (A := 200) (B := 100) (by decide) (by decide) (by decide)
      (by decide)
    have hreduced : o.Reduced P 200 100 := by
      cases o with
      | sum => trivial
      | difference => exact show 200 < 251 by decide
      | product => exact .inl (show 200 < 251 by decide)
    have hvacant : (row 8 12 4 6).Vacant m.outputs := by
      refine ⟨?_, ?_, ?_⟩
      · exact show ∀ s ∈ m.outputs, s.stop ≤ 12 by decide
      · exact show [4, 5, 6, 7, 8, 9, 10, 11].Nodup by decide
      · exact show ∀ i ∈ [4, 5, 6, 7, 8, 9, 10, 11], (row 8 12 4 6).store i = none by decide
    obtain ⟨t', ht'⟩ := (hwrites.succeeds_iff hvacant).mpr (hadmits hreduced)
    exact ⟨t', ht', (hwrites.written t' ht').2.2⟩
  · obtain ⟨hwrites, -⟩ := h .difference 15 15 0 0 (A := 255) (B := 0) (by decide) (by decide) (by decide)
      (by decide)
    obtain ⟨cause, rfl, hrefused⟩ := hwrites.refused (show ¬ (255 : ℤ) ≤ 0 + (255 - 0) % 251 by decide)
    exact hrefused
  · obtain ⟨hwrites, -⟩ := h .product 15 15 15 15 (A := 255) (B := 255) (by decide) (by decide) (by decide)
      (by decide)
    obtain ⟨cause, rfl, hrefused⟩ := hwrites.refused (show ¬ 255 * 255 / 251 < 2 ^ (4 * 2) by decide)
    exact hrefused

end ForeignCurve
