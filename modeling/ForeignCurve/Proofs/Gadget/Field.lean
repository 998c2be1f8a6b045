import ForeignCurve.Proofs.Gadget.Attempt
import ForeignCurve.Proofs.Gadget.Grows
import ForeignCurve.Proofs.Gadget.Register
import ForeignCurve.Proofs.Instruction.Hint

namespace ForeignCurve

variable {P : FieldParams} [P.HasHeadroom] {w : Scenario}

namespace Scenario

section Identity

variable {s : Side} {set : FieldRegister P → Record Unit}
  {a b c : FieldRegister P → FieldRegister P} {f : Identity P → Instruction} {A B R : Nat → Nat}
  {Q : FieldRegister P → Prop}

theorem exists_carry
    (hf : ∀ (m : Identity P) (vs : CellValues (Option Native)),
      (f m).assertions vs = m.assertions s.combine vs)
    (hoperands : ∀ r N, w.Number r N →
      w.Number (a r) (A N) ∧ w.Number (b r) (B N) ∧ w.Number (c r) (R N))
    {k : Nat} (hbound : k + Identity.blockSize P ≤ w.numCells)
    (hholds : ∀ j ∈ Identity.rules P k ++
      [f (Identity.allocated (a ⟨k⟩) (b ⟨k⟩) (c ⟨k⟩) (k + P.limbs))], w.Holds j) :
    ∃ N C, w.Number (⟨k⟩ : FieldRegister P) N ∧
      s.apply (A N) (B N) = R N + C * P.modulus := by
  rw [List.forall_mem_append, List.forall_mem_singleton] at hholds
  obtain ⟨xs, carry, low, high, hreads, hxs, hcarry, hlow, hhigh⟩ :=
    (Identity.holds_rules_iff hbound).mp hholds.1
  obtain ⟨N, hN⟩ := exists_number (r := ⟨k⟩) hreads.result hxs
  obtain ⟨ha, hb, hresult⟩ := hoperands _ N hN
  have hwired : w.Holds (f (.wired (a ⟨k⟩) (b ⟨k⟩) (c ⟨k⟩) ⟨k + P.limbs⟩ (k + P.limbs + P.limbs)
    (k + P.limbs + P.limbs + P.witnessLimbs))) := hholds.2
  have hidentity := Identity.apply_eq_of_holds s hf ha.reads hb.reads hresult.reads hreads.carry
    hreads.low hreads.high (P.inRange_digits _) (P.inRange_digits _) (P.inRange_digits _) hcarry hlow
    hhigh hwired
  rw [FieldParams.decode_digits_of_lt ha.lt, FieldParams.decode_digits_of_lt hb.lt,
    FieldParams.decode_digits_of_lt hresult.lt] at hidentity
  exact ⟨N, P.decode carry, hN, hidentity⟩

theorem Triple.identityBlock
    (hset : ∀ r, set r = do Record.append (f (← Gadget.identity (a r) (b r) (c r))))
    (hf : ∀ (m : Identity P) (vs : CellValues (Option Native)),
      (f m).assertions vs = m.assertions s.combine vs)
    (hoperands : ∀ r N, w.Number r N →
      w.Number (a r) (A N) ∧ w.Number (b r) (B N) ∧ w.Number (c r) (R N))
    (hsound : ¬ w.Honest → ∀ r N C, w.Number r N →
      s.apply (A N) (B N) = R N + C * P.modulus → Q r)
    (hcomplete : w.Honest → ∃ N C, N < 2 ^ P.bits ∧ C < 2 ^ P.bits ∧
      (A N < 2 ^ P.bits ∧ B N < 2 ^ P.bits ∧ R N < 2 ^ P.bits) ∧
      s.apply (A N) (B N) = R N + C * P.modulus ∧
      (∀ r k (t : Trace) rest, t.store = w.store → t.numCells = w.numCells →
        (Identity.allocated (a r) (b r) (c r) k).witnessPlan
          (s.poly (P.digits (A N)) (P.digits (B N))) (P.digits (R N)) C = .ok rest →
        (f (Identity.allocated (a r) (b r) (c r) k)).plan t =
          .ok (.write r.slice (P.digits N) rest)) ∧
      ∀ r, w.Number r N → Q r) :
    w.Triple (do
      let r ← Record.alloc (.field P)
      set r
      return r) Q := by
  apply Triple.of_addsAt (Record.AddsAt.identityBlock hset)
  · exact Identity.passive_rules
  · intro hw k hbound hholds
    obtain ⟨N, C, hN, hidentity⟩ := exists_carry hf hoperands hbound hholds
    exact hsound hw _ N C hN hidentity
  · intro hw k hbound
    obtain ⟨N, C, hN, hC, ⟨hA, hB, hR⟩, hidentity, hplan, hQ⟩ := hcomplete hw
    rw [← FieldParams.decode_digits_of_lt hA, ← FieldParams.decode_digits_of_lt hB,
      ← FieldParams.decode_digits_of_lt hR] at hidentity
    obtain ⟨low, high, hwitness, hlenlow, hlenhigh, hlow, hhigh, hzero⟩ :=
      Identity.exists_witnessPlan s
        (Identity.allocated (a ⟨k⟩) (b ⟨k⟩) (c ⟨k⟩) (k + P.limbs))
        (FieldParams.length_digits _) (FieldParams.length_digits _) (FieldParams.length_digits _)
        (P.inRange_digits _) (P.inRange_digits _) (P.inRange_digits _) hC hidentity
    refine ⟨P.digits N ++ (P.digits C ++ (low ++ high)), ?_, ?_, ?_⟩
    · simp only [List.length_append, FieldParams.length_digits, hlenlow, hlenhigh]
      rfl
    · intro t ht hnum
      refine ⟨_, hplan _ _ t _ ht hnum hwitness, ?_⟩
      apply Plan.Fills.write rfl (FieldParams.length_digits N)
      apply Plan.Fills.write rfl (FieldParams.length_digits C)
      apply Plan.Fills.writeArray rfl rfl hlenlow
      exact Plan.Fills.writeArray_done rfl rfl hlenhigh
    · intro hreads
      -- what was filled is read back as the result, the carry and the quotient
      have hparts := (Identity.reads_iff (FieldParams.length_digits N)
        (FieldParams.length_digits C) hlenlow).mp hreads
      have hnumber : w.Number (⟨k⟩ : FieldRegister P) N := ⟨hN, hparts.result⟩
      obtain ⟨ha, hb, hresult⟩ := hoperands _ N hnumber
      refine ⟨?_, hQ _ hnumber⟩
      rw [List.forall_mem_append, List.forall_mem_singleton]
      constructor
      · exact (Identity.holds_rules_iff hbound).mpr ⟨_, _, _, _, hparts, P.inRange_digits N,
          P.inRange_digits C, hlow, hhigh⟩
      · exact (Identity.holds_iff hf ha.reads hb.reads hresult.reads hparts.carry hparts.low
          hparts.high).mpr hzero

end Identity

section Fresh

variable {g : Record (FieldRegister P)} {f : FieldRegister P → Instruction} {Q : FieldRegister P → Prop}

theorem Triple.freshField
    (hg : ∀ k, g.AddsAt k ⟨k⟩ P.limbs
      ((Record.ruleInstruction? (.range P.limbBits) ⟨k, P.limbs⟩).toList ++ [f ⟨k⟩]))
    (hsound : ¬ w.Honest → ∀ r N, w.Number r N → w.Holds (f r) → Q r)
    (hcomplete : w.Honest → ∃ N, N < 2 ^ P.bits ∧
      (∀ r (t : Trace), t.store = w.store → t.numCells = w.numCells →
        (f r).plan t = .ok (.write r.slice (P.digits N) .done)) ∧
      ∀ r, w.Number r N → w.Holds (f r) ∧ Q r) :
    w.Triple g Q := by
  apply Triple.of_addsAt hg
  · exact fun k => Record.passive_ruleInstruction? _ _
  · intro hw k hbound hholds
    rw [List.forall_mem_append, List.forall_mem_singleton] at hholds
    obtain ⟨xs, hreads, hrange⟩ :=
      (Instruction.holds_rule_range_iff hbound).mp hholds.1
    obtain ⟨N, hN⟩ := exists_number (r := ⟨k⟩) hreads hrange
    exact hsound hw ⟨k⟩ N hN hholds.2
  · intro hw k hbound
    obtain ⟨N, hN, hplan, hpost⟩ := hcomplete hw
    refine ⟨P.digits N, FieldParams.length_digits N, ?_, ?_⟩
    · intro t ht hnum
      exact ⟨_, hplan ⟨k⟩ t ht hnum, .write_done rfl (FieldParams.length_digits N)⟩
    · intro hreads
      obtain ⟨hholds, hQ⟩ := hpost ⟨k⟩ ⟨hN, hreads⟩
      refine ⟨?_, hQ⟩
      rw [List.forall_mem_append, List.forall_mem_singleton]
      exact ⟨(Instruction.holds_rule_range_iff hbound).mpr
        ⟨_, hreads, P.inRange_digits N⟩, hholds⟩

theorem Triple.check {g : Record Unit} {i : Instruction} {Q : Prop}
    (hg : ∀ k, g.AddsAt k () 0 [i]) (hpassive : i.Passive)
    (hsound : ¬ w.Honest → w.Holds i → Q) (hcomplete : w.Honest → w.Holds i ∧ Q) :
    w.Triple g (fun _ => Q) := by
  apply Triple.of_addsAt (r := fun _ => []) (i := fun _ => i) hg
  · intro k r hr
    contradiction
  · intro hw k _ hholds
    exact hsound hw (hholds i (List.mem_singleton_self i))
  · intro hw k _
    refine ⟨[], rfl, fun t _ _ => ⟨.done, hpassive t, .done k⟩, fun _ => ?_⟩
    obtain ⟨hholds, hQ⟩ := hcomplete hw
    refine ⟨?_, hQ⟩
    rw [List.nil_append, List.forall_mem_singleton]
    exact hholds

end Fresh

section Ring

variable [hmod : NeZero P.modulus] {a b : FieldRegister P} {x y : ZMod P.modulus}

theorem natCast_eq_of_carry {p n r c : Nat} (h : n = r + c * p) : (n : ZMod p) = r := by
  rw [h, Nat.cast_add, Nat.cast_mul, ZMod.natCast_self, mul_zero, add_zero]

theorem natCast_sub_of_carry {p a b n c : Nat} (h : b + n = a + c * p) : (n : ZMod p) = (a : ZMod p) - b := by
  rw [← natCast_eq_of_carry h, Nat.cast_add, add_sub_cancel_left]

omit [P.HasHeadroom] hmod in
theorem Number.readSlice {r : FieldRegister P} {N : Nat} {t : Trace} (h : w.Number r N)
    (ht : t.store = w.store) (hnum : t.numCells = w.numCells) :
    t.readSlice r.slice = .ok (P.digits N) := by
  rw [Trace.readSlice_eq_ok_iff, ht, hnum]
  exact h.reads

theorem add_spec (ha : w.Residue a x) (hb : w.Residue b y) :
    w.Triple (Gadget.add a b) (fun r => w.Residue r (x + y)) := by
  obtain ⟨A, hA, rfl, hltA⟩ := ha
  obtain ⟨B, hB, rfl, hltB⟩ := hb
  have hmodulus := FieldParams.modulus_lt (P := P)
  have htwo := FieldParams.two_le_two_pow_bits (P := P)
  apply Triple.identityBlock (s := .sum) (a := fun _ => a) (b := fun _ => b) (c := fun r => r)
    (A := fun _ => A) (B := fun _ => B) (R := fun N => N) (f := .fieldSum P)
    (fun r => rfl) (fun m vs => rfl) (fun r N hN => ⟨hA, hB, hN⟩)
  -- The carry is whatever makes the equation true, and it vanishes modulo the field.
  · intro hw r N C hN h
    refine ⟨N, hN, ?_, fun hw' => absurd hw' hw⟩
    rw [← natCast_eq_of_carry h]
    exact Side.natCast_apply .sum A B
  · intro hw
    have hpos := Nat.pos_of_ne_zero hmod.out
    have hlt := Nat.mod_lt (A + B) hpos
    have hcarry : (A + B) / P.modulus < 2 := by
      rw [Nat.div_lt_iff_lt_mul hpos]
      have hA' := hltA hw
      have hB' := hltB hw
      omega
    refine ⟨(A + B) % P.modulus, (A + B) / P.modulus, by omega, by omega,
      ⟨hA.lt, hB.lt, by omega⟩, (Nat.mod_add_div' (A + B) P.modulus).symm, ?_, ?_⟩
    · intro r k t rest ht hnum hrest
      have hreads := Identity.plan_of_reads (hA.readSlice ht hnum) (hB.readSlice ht hnum)
      exact (hreads _).trans (Identity.sumPlan_eq_ok hA.lt hB.lt hrest)
    · intro r hr
      refine ⟨_, hr, ?_, fun _ => hlt⟩
      rw [ZMod.natCast_mod, Nat.cast_add]

theorem mul_represents_spec (ha : w.Represents a x) (hb : w.Residue b y) :
    w.Triple (Gadget.mul a b) (fun r => w.Residue r (x * y)) := by
  obtain ⟨A, hA, rfl⟩ := ha
  obtain ⟨B, hB, rfl, hltB⟩ := hb
  have hmodulus := FieldParams.modulus_lt (P := P)
  apply Triple.identityBlock (s := .product) (a := fun _ => a) (b := fun _ => b)
    (c := fun r => r) (A := fun _ => A) (B := fun _ => B) (R := fun N => N)
    (f := .fieldProduct P) (fun r => rfl) (fun m vs => rfl) (fun r N hN => ⟨hA, hB, hN⟩)
  · intro hw r N C hN h
    refine ⟨N, hN, ?_, fun hw' => absurd hw' hw⟩
    rw [← natCast_eq_of_carry h]
    exact Side.natCast_apply .product A B
  · intro hw
    have hpos := Nat.pos_of_ne_zero hmod.out
    have hlt := Nat.mod_lt (A * B) hpos
    have hcarry : A * B / P.modulus < 2 ^ P.bits := by
      rw [Nat.div_lt_iff_lt_mul hpos]
      exact Nat.mul_lt_mul'' hA.lt (hltB hw)
    refine ⟨A * B % P.modulus, A * B / P.modulus, by omega, hcarry,
      ⟨hA.lt, hB.lt, by omega⟩, (Nat.mod_add_div' (A * B) P.modulus).symm, ?_, ?_⟩
    · intro r k t rest ht hnum hrest
      have hreads := Identity.plan_of_reads (hA.readSlice ht hnum) (hB.readSlice ht hnum)
      exact (hreads _).trans (Identity.productPlan_eq_ok hA.lt hB.lt hcarry hrest)
    · intro r hr
      refine ⟨_, hr, ?_, fun _ => hlt⟩
      rw [ZMod.natCast_mod, Nat.cast_mul]

theorem mul_spec (ha : w.Residue a x) (hb : w.Residue b y) :
    w.Triple (Gadget.mul a b) (fun r => w.Residue r (x * y)) :=
  mul_represents_spec ha.represents hb

theorem sub_spec (ha : w.Residue a x) (hb : w.Residue b y) :
    w.Triple (Gadget.sub a b) (fun r => w.Residue r (x - y)) := by
  obtain ⟨A, hA, rfl, hltA⟩ := ha
  obtain ⟨B, hB, rfl, -⟩ := hb
  have hpos := Nat.pos_of_ne_zero hmod.out
  have hmodulus := FieldParams.modulus_lt (P := P)
  -- the new register is the second summand
  apply Triple.identityBlock (s := .sum) (a := fun _ => b) (b := fun r => r)
    (c := fun _ => a) (A := fun _ => B) (B := fun N => N) (R := fun _ => A)
    (f := .fieldDifference P) (fun r => rfl) (fun m vs => rfl) (fun r N hN => ⟨hB, hN, hA⟩)
  · intro hw r N C hN h
    exact ⟨N, hN, natCast_sub_of_carry h, fun hw' => absurd hw' hw⟩
  · intro hw
    have hlt := Identity.difference_lt hpos A B
    have hle := Identity.le_add_difference hpos (B := B) (hltA hw)
    have hidentity := Identity.add_difference_eq hpos hle
    refine ⟨Identity.difference P.modulus A B, _, by omega, Identity.carry_difference_lt hpos hB.lt,
      ⟨hB.lt, by omega, hA.lt⟩, hidentity, ?_, ?_⟩
    · intro r k t rest ht hnum hrest
      have hreads := Identity.plan_of_reads (hB.readSlice ht hnum) (hA.readSlice ht hnum)
      exact (hreads _).trans (Identity.differencePlan_eq_ok hB.lt hA.lt hle hrest)
    · intro r hr
      exact ⟨_, hr, natCast_sub_of_carry hidentity, fun _ => hlt⟩

end Ring

section Constants

variable [hmod : NeZero P.modulus]

theorem addsAt_constant (value k : Nat) :
    (Gadget.constant P value).AddsAt k ⟨k⟩ P.limbs
      ((Record.ruleInstruction? (.range P.limbBits) ⟨k, P.limbs⟩).toList ++
        [.constant (⟨k⟩ : FieldRegister P).slice (P.digits (value % P.modulus)) true]) := by
  unfold Gadget.constant
  apply Record.AddsAt.bind_nothing (.requireHeadroom k P)
  apply Record.AddsAt.bind_noCells (.alloc k (.field P))
  apply Record.AddsAt.bind_nothing (.lift _ (FieldParams.reduce_eq_ok hmod.out value))
  apply Record.AddsAt.bind_nothing (.lift _ (P.encode_eq_digits _))
  apply Record.AddsAt.bind_pure
  exact Record.AddsAt.append _ _

theorem addsAt_assertEqualConstant (a : FieldRegister P) (value k : Nat) :
    (Gadget.assertEqualConstant a value).AddsAt k () 0
      [.constant a.slice (P.digits (value % P.modulus)) false] := by
  unfold Gadget.assertEqualConstant
  apply Record.AddsAt.bind_nothing (.requireHeadroom k P)
  apply Record.AddsAt.bind_nothing (.lift _ (FieldParams.reduce_eq_ok hmod.out value))
  apply Record.AddsAt.bind_nothing (.lift _ (P.encode_eq_digits _))
  exact Record.AddsAt.append _ _

theorem constant_spec (value : Nat) :
    w.Triple (Gadget.constant P value) (fun r => w.Residue r (value : ZMod P.modulus)) := by
  have hlt := Nat.mod_lt value (Nat.pos_of_ne_zero hmod.out)
  have hmodulus := FieldParams.modulus_lt (P := P)
  have hcast : ((value % P.modulus : Nat) : ZMod P.modulus) = value := ZMod.natCast_mod _ _
  apply Triple.freshField (f := fun r => .constant r.slice (P.digits (value % P.modulus)) true)
    (addsAt_constant value)
  · intro hw r N hN hholds
    have hreads := Instruction.holds_constant_iff.mp hholds
    exact ⟨_, ⟨by omega, hreads⟩, hcast, fun hw' => absurd hw' hw⟩
  · intro hw
    refine ⟨value % P.modulus, by omega, fun r t _ _ => rfl, ?_⟩
    intro r hr
    exact ⟨Instruction.holds_constant_iff.mpr hr.reads, _, hr, hcast, fun _ => hlt⟩

theorem zero_spec : w.Triple (Gadget.zero P) (fun r => w.Residue r 0) := by
  have h := constant_spec (P := P) (w := w) 0
  rwa [Nat.cast_zero] at h

theorem one_spec : w.Triple (Gadget.one P) (fun r => w.Residue r 1) := by
  have h := constant_spec (P := P) (w := w) 1
  rwa [Nat.cast_one] at h

variable {a : FieldRegister P} {x : ZMod P.modulus}

theorem assertEqualConstant_spec {value : Nat} (ha : w.Residue a x) (h : w.Honest → x = value) :
    w.Triple (Gadget.assertEqualConstant a value) (fun _ => x = value) := by
  obtain ⟨A, hA, rfl, hlt⟩ := ha
  have hmodulus := FieldParams.modulus_lt (P := P)
  have hvalue := Nat.mod_lt value (Nat.pos_of_ne_zero hmod.out)
  apply Triple.check (addsAt_assertEqualConstant a value) (fun t => rfl)
  · intro hw hholds
    have hreads := Instruction.holds_constant_iff.mp hholds
    rw [hA.unique ⟨by omega, hreads⟩, ZMod.natCast_mod]
  · intro hw
    have hmodeq := (ZMod.natCast_eq_natCast_iff' _ _ _).mp (h hw)
    rw [Nat.mod_eq_of_lt (hlt hw)] at hmodeq
    refine ⟨Instruction.holds_constant_iff.mpr ?_, h hw⟩
    rw [← hmodeq]
    exact hA.reads

theorem assertZero_spec (ha : w.Residue a x) (h : w.Honest → x = 0) :
    w.Triple (Gadget.assertZero a) (fun _ => x = 0) := by
  rw [← Nat.cast_zero] at h ⊢
  exact assertEqualConstant_spec ha h

end Constants

section Derived

variable [NeZero P.modulus] {a b : FieldRegister P} {x y : ZMod P.modulus}

theorem neg_spec (ha : w.Residue a x) :
    w.Triple (Gadget.neg a) (fun r => w.Residue r (-x)) := by
  apply Triple.bind zero_spec
  intro zero hzero
  have h := sub_spec hzero ha
  rwa [zero_sub] at h

theorem blend_spec {selector : FieldRegister P} {s : ZMod P.modulus} (hs : w.Residue selector s)
    (ha : w.Residue a x) (hb : w.Residue b y) :
    w.Triple (Gadget.blend selector a b) (fun r => w.Residue r (y + s * (x - y))) := by
  apply Triple.bind (sub_spec ha hb)
  intro difference hdifference
  apply Triple.bind (mul_spec hs hdifference)
  intro shift hshift
  exact add_spec hb hshift

end Derived

section Division

variable [hp : Fact P.modulus.Prime] {a b : FieldRegister P} {x y : ZMod P.modulus}

omit hp [P.HasHeadroom] in
theorem holds_hint {i : Instruction} (h : ∀ vs : CellValues (Option Native), i.assertions vs = .ok []) :
    w.Holds i :=
  ⟨[], h _, by simp⟩

omit hp in
theorem Number.readField {r : FieldRegister P} {N : Nat} {t : Trace} (h : w.Number r N)
    (ht : t.store = w.store) (hnum : t.numCells = w.numCells) : t.readField r = .ok N := by
  have hreads := h.reads
  unfold Reads at hreads
  rw [← ht, ← hnum] at hreads
  rw [Trace.readField_eq_ok r hreads, FieldParams.decode_digits_of_lt h.lt]

omit hp in
theorem addsAt_inverseHint (a : FieldRegister P) (allowZero : Bool) (k : Nat) :
    (Gadget.inverseHint a allowZero).AddsAt k ⟨k⟩ P.limbs
      ((Record.ruleInstruction? (.range P.limbBits) ⟨k, P.limbs⟩).toList ++
        [.inverse P a ⟨k⟩ allowZero]) := by
  unfold Gadget.inverseHint
  apply Record.AddsAt.bind_nothing (.requireHeadroom k P)
  apply Record.AddsAt.bind_noCells (.alloc k (.field P))
  apply Record.AddsAt.bind_pure
  exact Record.AddsAt.append _ _

theorem inverseHint_spec {allowZero : Bool} (ha : w.Represents a x)
    (h : allowZero = false → w.Honest → x ≠ 0) :
    w.Triple (Gadget.inverseHint a allowZero)
      (fun r => ∃ z, w.Residue r z ∧ (w.Honest → z = x⁻¹)) := by
  obtain ⟨A, hA, rfl⟩ := ha
  have hlt := ZMod.val_lt (A : ZMod P.modulus)⁻¹
  have hmodulus := FieldParams.modulus_lt (P := P)
  apply Triple.freshField (f := fun r => .inverse P a r allowZero) (addsAt_inverseHint a allowZero)
  · intro hw r N hN _
    exact ⟨N, .of_number hN fun hw' => absurd hw' hw, fun hw' => absurd hw' hw⟩
  · intro hw
    refine ⟨((A : ZMod P.modulus)⁻¹).val, by omega, ?_, ?_⟩
    · intro r t ht hnum
      exact Instruction.inversePlan_eq_ok (hA.readField ht hnum) fun hallow => h hallow hw
    · intro r hr
      refine ⟨holds_hint fun vs => rfl, _, ⟨_, hr, ?_, fun _ => hlt⟩, fun _ => rfl⟩
      exact ZMod.natCast_zmod_val _

theorem inverseHint_attempt (ha : w.Represents a x) :
    w.Attempt (Gadget.inverseHint a false)
      (fun r => (w.Honest → x ≠ 0) ∧ ∃ z, w.Residue r z ∧ (w.Honest → z = x⁻¹)) (x = 0) := by
  by_cases h : w.Honest → x ≠ 0
  · apply Triple.attempt
    exact (inverseHint_spec ha fun _ => h).weaken fun r hr => ⟨h, hr⟩
  · obtain ⟨hw, hzero⟩ := Classical.not_imp.mp h
    rw [not_not] at hzero
    obtain ⟨A, hA, hcast⟩ := ha
    apply Attempt.halt hw (addsAt_inverseHint a false) (fun k => Record.passive_ruleInstruction? _ _)
    · intro k t ht hnum
      exact Instruction.inversePlan_eq_error (hA.readField ht hnum) (hcast.trans hzero)
    · exact hzero

theorem div_attempt (ha : w.Represents a x) (hb : w.Represents b y) :
    w.Attempt (Gadget.div a b) (fun r => y ≠ 0 ∧ w.Residue r (x / y)) (y = 0) := by
  apply Attempt.bind (inverseHint_attempt hb)
  rintro inverse ⟨hne, z, hz, hhonest⟩
  apply Triple.attempt
  apply Triple.bind (mul_represents_spec hb hz)
  intro unit hunit
  have hone : w.Honest → y * z = (1 : Nat) := by
    intro hw
    rw [hhonest hw, mul_inv_cancel₀ (hne hw), Nat.cast_one]
  apply Triple.bind (assertEqualConstant_spec hunit hone)
  intro _ hyz
  rw [Nat.cast_one] at hyz
  apply Triple.weaken (mul_represents_spec ha hz)
  intro r hr
  refine ⟨left_ne_zero_of_mul_eq_one hyz, hr.congr ?_⟩
  rw [eq_inv_of_mul_eq_one_right hyz, div_eq_mul_inv]

theorem div_spec (ha : w.Residue a x) (hb : w.Residue b y) (h : w.Honest → y ≠ 0) :
    w.Triple (Gadget.div a b) (fun r => y ≠ 0 ∧ w.Residue r (x / y)) :=
  (div_attempt ha.represents hb.represents).triple h

omit [P.HasHeadroom] in
theorem eq_inv_of_indicator {z : ZMod P.modulus} (hx : x * (1 - x * z) = 0)
    (hz : z * (1 - x * z) = 0) : z = x⁻¹ ∧ 1 - x * z = if x = 0 then 1 else 0 := by
  by_cases hzero : x = 0
  · rw [hzero, zero_mul, sub_zero, mul_one] at hz
    rw [hzero, hz, inv_zero, zero_mul, sub_zero, if_pos rfl]
    exact ⟨rfl, rfl⟩
  · have hind := (mul_eq_zero.mp hx).resolve_left hzero
    rw [if_neg hzero]
    exact ⟨eq_inv_of_mul_eq_one_right (sub_eq_zero.mp hind).symm, hind⟩

theorem inverseOrZero_spec (ha : w.Represents a x) :
    w.Triple (Gadget.inverseOrZero a)
      (fun r => w.Residue r.1 x⁻¹ ∧ w.Residue r.2 (if x = 0 then 1 else 0)) := by
  apply Triple.bind (inverseHint_spec ha fun hfalse => by contradiction)
  rintro inverse ⟨z, hz, hhonest⟩
  apply Triple.bind (mul_represents_spec ha hz)
  intro product hproduct
  apply Triple.bind one_spec
  intro one hone
  apply Triple.bind (sub_spec hone hproduct)
  intro indicator hindicator
  -- The hint is right in the witness pass only. There the two products vanish, and in an accepted table
  -- their vanishing is what pins the hint down.
  have hvanish (hw : w.Honest) : x * (1 - x * z) = 0 ∧ z * (1 - x * z) = 0 := by
    rw [hhonest hw]
    by_cases hzero : x = 0
    · rw [hzero, inv_zero, zero_mul]
      exact ⟨rfl, rfl⟩
    · rw [mul_inv_cancel₀ hzero, sub_self, mul_zero, mul_zero]
      exact ⟨rfl, rfl⟩
  apply Triple.bind (mul_represents_spec ha hindicator)
  intro _ hleft
  apply Triple.bind (assertZero_spec hleft fun hw => (hvanish hw).1)
  intro _ hx
  apply Triple.bind (mul_spec hz hindicator)
  intro _ hright
  apply Triple.bind (assertZero_spec hright fun hw => (hvanish hw).2)
  intro _ hz'
  obtain ⟨hinverse, hind⟩ := eq_inv_of_indicator hx hz'
  exact Triple.pure ⟨hz.congr hinverse, hindicator.congr hind⟩

theorem isZero_spec (ha : w.Residue a x) :
    w.Triple (Gadget.isZero a) (fun r => w.Residue r (if x = 0 then 1 else 0)) := by
  apply Triple.bind (inverseOrZero_spec ha.represents)
  rintro ⟨inverse, indicator⟩ ⟨-, hindicator⟩
  exact Triple.pure hindicator

end Division

end Scenario

end ForeignCurve
