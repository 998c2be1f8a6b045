import ForeignCurve.Proofs.Gadget.Field
import ForeignCurve.Proofs.Instruction.Digits
import ForeignCurve.Proofs.Instruction.LimbSum

namespace ForeignCurve

variable {P : FieldParams} [P.HasHeadroom] {w : Scenario}

theorem LimbOperand.reads_const (σ : Store) (n value : Nat) :
    (LimbOperand.const (Limbs.encode P.limbBits P.limbs value)).Reads σ n (P.digits value) :=
  bind_eq_ok_iff.mpr ⟨_, P.encode_eq_digits value, rfl⟩

namespace Scenario

section Sum

variable {a : FieldRegister P} {A : Nat} {b c : FieldRegister P → LimbOperand} {B R : Nat → Nat}
  {Q : FieldRegister P → Prop}

omit [P.HasHeadroom] in
theorem addsAt_recorded {a : CellSlice} {b c : LimbOperand} {limbBits : Nat} (hpos : 0 < a.len)
    (hb : b.length = a.len) (hc : c.length = a.len) (k : Nat) :
    (Gadget.limbSum a b c limbBits).AddsAt k (.recorded a b c limbBits k) (a.len - 1)
      ((Record.ruleInstruction? .boolean ⟨k, a.len - 1⟩).toList ++
        [.limbSum (.recorded a b c limbBits k)]) := by
  unfold Gadget.limbSum
  rw [if_neg (Nat.ne_of_gt hpos), if_pos hb, if_pos hc]
  apply Record.AddsAt.bind_noCells (.allocArray _ rfl _)
  exact Record.AddsAt.bind_pure (Record.AddsAt.append _ _)

theorem addsAt_limbSum (a : FieldRegister P) {b c : LimbOperand} (hb : b.length = P.limbs)
    (hc : c.length = P.limbs) (k : Nat) :
    (Gadget.limbSum a.slice b c P.limbBits).AddsAt k (.allocated P a b c k) (P.limbs - 1)
      ((Record.ruleInstruction? .boolean ⟨k, P.limbs - 1⟩).toList ++
        [.limbSum (.allocated P a b c k)]) :=
  addsAt_recorded FieldParams.limbs_pos hb hc k

theorem addsAt_limbSumBlock (hb : ∀ r, (b r).length = P.limbs) (hc : ∀ r, (c r).length = P.limbs)
    (k : Nat) :
    (do
      let r ← Record.alloc (.field P)
      let _ ← Gadget.limbSum a.slice (b r) (c r) P.limbBits
      return r : Record (FieldRegister P)).AddsAt k ⟨k⟩ (P.limbs + (P.limbs - 1))
      ((Record.ruleInstruction? (.range P.limbBits) ⟨k, P.limbs⟩).toList ++
        (Record.ruleInstruction? .boolean ⟨k + P.limbs, P.limbs - 1⟩).toList ++
        [.limbSum (.allocated P a (b ⟨k⟩) (c ⟨k⟩) (k + P.limbs))]) := by
  rw [List.append_assoc]
  apply Record.AddsAt.bind (.alloc k (.field P))
  apply Record.AddsAt.bind_pure
  exact addsAt_limbSum a (hb _) (hc _) _

theorem addsAt_assertCanonical (a : FieldRegister P) (k : Nat) :
    (Gadget.assertCanonical a).AddsAt k () (P.limbs + (P.limbs - 1))
      ((Record.ruleInstruction? (.range P.limbBits) ⟨k, P.limbs⟩).toList ++
        (Record.ruleInstruction? .boolean ⟨k + P.limbs, P.limbs - 1⟩).toList ++
        [.limbSum (.allocated P a (.const (Limbs.encode P.limbBits P.limbs (2 ^ P.bits - P.modulus)))
          (.cells ⟨k, P.limbs⟩) (k + P.limbs))]) := by
  have hcomplement : P.complement = .ok (2 ^ P.bits - P.modulus) :=
    if_pos (Nat.le_of_lt FieldParams.modulus_lt)
  unfold Gadget.assertCanonical
  rw [hcomplement, List.append_assoc]
  apply Record.AddsAt.bind_nothing (.requireHeadroom k P)
  apply Record.AddsAt.bind (.alloc k (.field P))
  apply Record.AddsAt.bind_nothing (.lift _ rfl)
  apply Record.AddsAt.bind_pure
  exact addsAt_limbSum a (b := .const _) (Limbs.length_encode _ _ _) rfl _

theorem Triple.limbSumBlock (ha : w.Number a A) (hlenb : ∀ r, (b r).length = P.limbs)
    (hlenr : ∀ r, (c r).length = P.limbs)
    (hoperands : ∀ r N, w.Number r N → (b r).Reads w.store w.numCells (P.digits (B N)) ∧
      (c r).Reads w.store w.numCells (P.digits (R N)))
    (hlt : ∀ N, N < 2 ^ P.bits → B N < 2 ^ P.bits ∧ R N < 2 ^ P.bits)
    (hsound : ¬ w.Honest → ∀ r N, w.Number r N → A + B N = R N → Q r)
    (hcomplete : w.Honest → ∃ N, N < 2 ^ P.bits ∧ A + B N = R N ∧
      (∀ (r : FieldRegister P) k (t : Trace) rest, t.readSlice a.slice = .ok (P.digits A) →
        (LimbSum.allocated P a (b r) (c r) k).carriesPlan
          (Limbs.encode P.limbBits P.limbs A) (Limbs.encode P.limbBits P.limbs (B N))
          (Limbs.encode P.limbBits P.limbs (R N)) = .ok rest →
        (LimbSum.allocated P a (b r) (c r) k).plan t =
          .ok (.write r.slice (P.digits N) rest)) ∧
      ∀ r, w.Number r N → Q r) :
    w.Triple (do
      let r ← Record.alloc (.field P)
      let _ ← Gadget.limbSum a.slice (b r) (c r) P.limbBits
      return r) Q := by
  apply Triple.of_addsAt (addsAt_limbSumBlock hlenb hlenr)
  · intro k i hi
    rw [List.mem_append] at hi
    cases hi with
    | inl hi => exact Record.passive_ruleInstruction? _ _ i hi
    | inr hi => exact Record.passive_ruleInstruction? _ _ i hi
  · intro hw k hbound hholds
    rw [List.forall_mem_append, List.forall_mem_append, List.forall_mem_singleton] at hholds
    obtain ⟨⟨hrange, hboolean⟩, hsum⟩ := hholds
    -- An accepted table: the range rule makes a number of the fresh cells, the carries add it up.
    obtain ⟨xs, hxs, hrange⟩ := (Instruction.holds_rule_range_iff (by omega)).mp hrange
    obtain ⟨cs, hcs, hbool⟩ := (Instruction.holds_rule_boolean_iff (by omega)).mp hboolean
    obtain ⟨N, hN⟩ := exists_number (r := ⟨k⟩) hxs hrange
    obtain ⟨hb, hr⟩ := hoperands _ N hN
    obtain ⟨hltB, hltR⟩ := hlt N hN.lt
    exact hsound hw _ N hN
      (LimbSum.add_eq_of_holds ha.lt hltB hltR ha.reads hb hr hcs hbool hsum)
  · intro hw k hbound
    -- The witness pass: the number is written as digits, its carries after it.
    obtain ⟨N, hN, hadd, hplan, hQ⟩ := hcomplete hw
    obtain ⟨hltB, hltR⟩ := hlt N hN
    obtain ⟨cs, hcarries, hlencs, hbool, hzero⟩ :=
      LimbSum.exists_carries ha.lt hltB hltR hadd
    refine ⟨P.digits N ++ cs, ?_, ?_, ?_⟩
    · rw [List.length_append, FieldParams.length_digits, hlencs]
    · intro t ht hnum
      have hread := ha.readSlice ht hnum
      refine ⟨_, hplan _ _ t _ hread (hcarries _ _ _ _), ?_⟩
      apply Plan.Fills.write rfl (FieldParams.length_digits N)
      exact Plan.Fills.writeArray_done rfl rfl hlencs
    · intro hreads
      obtain ⟨hnew, hcs⟩ := (Store.reads_append_iff (FieldParams.length_digits N)).mp hreads
      have hnumber : w.Number (⟨k⟩ : FieldRegister P) N := ⟨hN, hnew⟩
      obtain ⟨hb, hr⟩ := hoperands _ N hnumber
      refine ⟨?_, hQ _ hnumber⟩
      rw [List.forall_mem_append, List.forall_mem_append, List.forall_mem_singleton]
      refine ⟨⟨?_, ?_⟩, ?_⟩
      · exact (Instruction.holds_rule_range_iff (by omega)).mpr
          ⟨_, hnew, P.inRange_digits N⟩
      · exact (Instruction.holds_rule_boolean_iff (by omega)).mpr ⟨_, hcs, hbool⟩
      · exact (LimbSum.holds_iff ha.reads hb hr hcs).mpr hzero

theorem slack_spec {total : Nat} (ha : w.Number a A) (htotal : total < 2 ^ P.bits)
    (h : w.Honest → A ≤ total) :
    w.Triple (do
      let r ← Record.alloc (.field P)
      let _ ← Gadget.limbSum a.slice (.cells r.slice)
        (.const (Limbs.encode P.limbBits P.limbs total)) P.limbBits
      return r) (fun r => A ≤ total ∧ w.Number r (total - A)) := by
  apply Triple.limbSumBlock (b := fun r => .cells r.slice)
    (c := fun _ => .const (Limbs.encode P.limbBits P.limbs total)) (B := fun N => N)
    (R := fun _ => total) ha (fun r => rfl) (fun r => Limbs.length_encode _ _ _)
    (fun r N hN => ⟨hN.reads, LimbOperand.reads_const _ _ _⟩) (fun N hN => ⟨hN, htotal⟩)
  · intro hw r N hN hadd
    have hdiff : total - A = N := by omega
    rw [hdiff]
    exact ⟨by omega, hN⟩
  · intro hw
    have hle := h hw
    refine ⟨total - A, by omega, by omega, ?_, fun r hr => ⟨hle, hr⟩⟩
    intro r k t rest hread hrest
    exact LimbSum.plan_cells_summand ha.lt htotal hle hread hrest

variable [hmod : NeZero P.modulus]

theorem assertCanonical_number (ha : w.Number a A) (h : w.Honest → A < P.modulus) :
    w.Triple (Gadget.assertCanonical a) (fun _ => A < P.modulus) := by
  have hmodulus := FieldParams.modulus_lt (P := P)
  have hpos := Nat.pos_of_ne_zero hmod.out
  have hcomplement : P.complement = .ok (2 ^ P.bits - P.modulus) := if_pos (Nat.le_of_lt hmodulus)
  unfold Gadget.assertCanonical
  rw [hcomplement]
  apply Triple.bind (Q := fun _ => True)
  · exact Triple.of_addsAt_nothing (fun k => .requireHeadroom k P) fun _ => trivial
  intro _ _
  change w.Triple (do
    let r ← Record.alloc (.field P)
    let _ ← Gadget.limbSum a.slice
      (.const (Limbs.encode P.limbBits P.limbs (2 ^ P.bits - P.modulus))) (.cells r.slice) P.limbBits
    return) _
  -- `A` plus the complement of the modulus fits in as many limbs only if `A` is below the modulus.
  apply Triple.bind_with (Q := fun _ => A < P.modulus)
  · apply Triple.limbSumBlock (c := fun r => .cells r.slice)
      (b := fun _ => .const (Limbs.encode P.limbBits P.limbs (2 ^ P.bits - P.modulus)))
      (B := fun _ => 2 ^ P.bits - P.modulus) (R := fun N => N) ha
      (fun r => Limbs.length_encode _ _ _) (fun r => rfl)
      (fun r N hN => ⟨LimbOperand.reads_const _ _ _, hN.reads⟩) (fun N hN => ⟨by omega, hN⟩)
    · intro hw r N hN hadd
      have hlt := hN.lt
      omega
    · intro hw
      have hlt := h hw
      refine ⟨A + (2 ^ P.bits - P.modulus), by omega, rfl, ?_, fun r hr => hlt⟩
      intro r k t rest hread hrest
      exact LimbSum.plan_cells_result ha.lt (by omega) (by omega) hread hrest
  · exact fun _ hlt => Triple.pure hlt

theorem assertCanonical_spec {x : ZMod P.modulus} (ha : w.Residue a x) :
    w.Triple (Gadget.assertCanonical a) (fun _ => w.Number a x.val) := by
  obtain ⟨N, hN, rfl, hlt⟩ := ha
  apply Triple.weaken (assertCanonical_number hN hlt)
  intro _ hlt'
  rw [ZMod.val_natCast, Nat.mod_eq_of_lt hlt']
  exact hN

end Sum

section Bits

omit [P.HasHeadroom]

theorem exists_bit {r : Register .bit} {xs : List Native} (h : w.Reads r.slice xs)
    (hbool : ∀ x ∈ xs, x = 0 ∨ x = 1) : ∃ β, w.Bit r β := by
  obtain ⟨x, rfl⟩ := List.length_eq_one_iff.mp h.length_eq
  obtain rfl | rfl := hbool x (List.mem_singleton_self x)
  · exact ⟨false, h⟩
  · exact ⟨true, h⟩

theorem boolean_ofBool (β : Bool) : ∀ x ∈ [Native.ofBool β], x = 0 ∨ x = 1 := by
  cases β
  · exact fun x hx => .inl (List.mem_singleton.mp hx)
  · exact fun x hx => .inr (List.mem_singleton.mp hx)

theorem Bit.readFirst {r : Register .bit} {β : Bool} {t : Trace} (h : w.Bit r β)
    (ht : t.store = w.store) (hnum : t.numCells = w.numCells) :
    t.readFirst r = .ok (Native.ofBool β) := by
  rw [Trace.readFirst_eq_ok_iff, ht, hnum]
  exact ⟨h.stop_le, h.getElem (i := 0) (by simp)⟩

theorem addsAt_greaterThan (value : CellSlice) (bound limbBits k : Nat) :
    (Gadget.greaterThan value bound limbBits).AddsAt k ⟨k⟩ 1 ((Record.ruleInstruction? .boolean
        ⟨k, 1⟩).toList ++
      [.greaterThan value (Limbs.encode limbBits value.len bound) limbBits ⟨k⟩]) := by
  unfold Gadget.greaterThan
  apply Record.AddsAt.bind_noCells (.alloc k .bit)
  exact Record.AddsAt.bind_pure (Record.AddsAt.append _ _)

end Bits

theorem greaterThan_spec {a : FieldRegister P} {A bound : Nat} (ha : w.Number a A)
    (hbound : bound < 2 ^ P.bits) :
    w.Triple (Gadget.greaterThan a.slice bound P.limbBits)
      (fun r => ∃ β, w.Bit r β ∧ (w.Honest → β = decide (bound < A))) := by
  -- only the witness pass compares
  apply Triple.of_addsAt (addsAt_greaterThan a.slice bound P.limbBits)
  · exact fun k => Record.passive_ruleInstruction? _ _
  · intro hw k hle hholds
    -- Any bit satisfies the constraints, so an accepted table says nothing about the comparison.
    rw [List.forall_mem_append, List.forall_mem_singleton] at hholds
    obtain ⟨xs, hxs, hbool⟩ := (Instruction.holds_rule_boolean_iff hle).mp hholds.1
    obtain ⟨β, hβ⟩ := exists_bit (r := ⟨k⟩) hxs hbool
    exact ⟨β, hβ, fun hw' => absurd hw' hw⟩
  · intro hw k hle
    refine ⟨[Native.ofBool (decide (bound < A))], rfl, ?_, ?_⟩
    · intro t ht hnum
      have hread := ha.readSlice ht hnum
      have hplan := Instruction.greaterThanPlan_eq_ok
        (Limbs.encode P.limbBits a.slice.len bound) P.limbBits ⟨k⟩ hread
      have hdecode : Limbs.decodeNative P.limbBits (P.digits A) = A :=
        FieldParams.decode_digits_of_lt ha.lt
      have hencode : Limbs.decode P.limbBits (Limbs.encode P.limbBits a.slice.len bound) = bound :=
        LimbSum.decode_encode_of_lt hbound
      rw [hdecode, hencode] at hplan
      exact ⟨_, hplan, .write_done rfl rfl⟩
    · intro hreads
      refine ⟨?_, _, hreads, fun _ => rfl⟩
      rw [List.forall_mem_append, List.forall_mem_singleton]
      exact ⟨(Instruction.holds_rule_boolean_iff hle).mpr ⟨_, hreads, boolean_ofBool _⟩,
        holds_hint fun vs => rfl⟩

section Select

variable {bit : Register .bit} {β : Bool} {a b : FieldRegister P} {A B : Nat}

omit [P.HasHeadroom] in
theorem addsAt_select (bit : Register .bit) (a b : FieldRegister P) (k : Nat) :
    (Gadget.select bit a b).AddsAt k ⟨k⟩ P.limbs
      ((Record.ruleInstruction? (.range P.limbBits) ⟨k, P.limbs⟩).toList ++
        [.select bit a.slice b.slice (⟨k⟩ : FieldRegister P).slice]) := by
  unfold Gadget.select
  apply Record.AddsAt.bind_noCells (.alloc k (.field P))
  exact Record.AddsAt.bind_pure (Record.AddsAt.append _ _)

theorem select_number (hbit : w.Bit bit β) (ha : w.Number a A) (hb : w.Number b B) :
    w.Triple (Gadget.select bit a b) (fun r => w.Number r (if β then A else B)) := by
  have hlen := FieldParams.length_digits (P := P)
  -- The constraint compares the digits, whoever assigned them: an accepted table and the witness pass both use this.
  have hiff {r : FieldRegister P} {N : Nat} (hN : w.Number r N) :
      w.Holds (.select bit a.slice b.slice r.slice) ↔
        P.digits N = if β then P.digits A else P.digits B :=
    Instruction.holds_select_iff hbit ha.reads hb.reads hN.reads (by rw [hlen, hlen])
      (by rw [hlen, hlen])
  have hdigits : (if β then P.digits A else P.digits B) = P.digits (if β then A else B) := by
    cases β <;> rfl
  have hlt : (if β then A else B) < 2 ^ P.bits := by
    cases β
    · exact hb.lt
    · exact ha.lt
  apply Triple.freshField (f := fun r => .select bit a.slice b.slice r.slice) (addsAt_select bit a b)
  · intro hw r N hN hholds
    have hsame := (hiff hN).mp hholds
    rw [hdigits] at hsame
    have hreads := hN.reads
    rw [hsame] at hreads
    exact ⟨hlt, hreads⟩
  · intro hw
    refine ⟨if β then A else B, hlt, ?_, ?_⟩
    · intro r t ht hnum
      have hplan := Instruction.selectPlan_eq_ok r.slice (hbit.readFirst ht hnum)
        (ha.readSlice ht hnum)
        (hb.readSlice ht hnum) rfl rfl
      rw [hdigits] at hplan
      exact hplan
    · intro r hr
      exact ⟨(hiff hr).mpr hdigits.symm, hr⟩

theorem select_spec {x y : ZMod P.modulus} (hbit : w.Bit bit β) (ha : w.Residue a x)
    (hb : w.Residue b y) :
    w.Triple (Gadget.select bit a b) (fun r => w.Residue r (if β then x else y)) := by
  obtain ⟨A, hA, rfl, hltA⟩ := ha
  obtain ⟨B, hB, rfl, hltB⟩ := hb
  apply Triple.weaken (select_number hbit hA hB)
  intro r hr
  cases β
  · exact ⟨B, hr, rfl, hltB⟩
  · exact ⟨A, hr, rfl, hltA⟩

end Select

section Digits

variable {r : Register .element} {v : Native} {count : Nat}

omit [P.HasHeadroom]

structure Digits (w : Scenario) (rs : List (Register .bit)) (count value : Nat) : Prop where
  length_eq : rs.length = count
  bit : ∀ i (hi : i < rs.length), w.Bit rs[i] (value.testBit i)

theorem addsAt_decompose (r : Register .element) (count k : Nat) :
    (Gadget.decompose r count).AddsAt k ⟨⟨k, count⟩, count⟩ count
      ((Record.ruleInstruction? .boolean ⟨k, count⟩).toList ++
        [.decompose r ⟨⟨k, count⟩, count⟩]) := by
  unfold Gadget.decompose
  apply Record.AddsAt.bind_noCells (.allocArray k rfl count)
  exact Record.AddsAt.bind_pure (Record.AddsAt.append _ _)

theorem digits_of_reads {k value : Nat}
    (h : w.Reads ⟨k, count⟩ (Instruction.binaryDigits count value)) :
    Digits w (⟨⟨k, count⟩, count⟩ : RegisterArray .bit).toList count value := by
  have hlist := TraceM.toList_array rfl (⟨⟨k, count⟩, count⟩ : RegisterArray .bit)
  rw [hlist]
  refine ⟨by simp, ?_⟩
  intro i hi
  simp only [List.length_map, List.length_range'] at hi
  have hstop := h.stop_le
  have hlen := Instruction.length_binaryDigits count value
  simp only [List.getElem_map, List.getElem_range', Nat.one_mul]
  change k + count ≤ w.numCells at hstop
  apply Store.reads_of_getElem
  · change k + i + 1 ≤ w.numCells
    omega
  · rfl
  · intro j hj
    rw [List.length_singleton] at hj
    obtain rfl : j = 0 := by omega
    have hget := h.getElem (i := i) (by omega)
    rw [Instruction.getElem_binaryDigits] at hget
    exact hget

theorem decompose_spec (hv : w.Reads r.slice [v]) (hlt : v.val < 2 ^ count) (hcount : count ≤ 62) :
    w.Triple (Gadget.decompose r count) (fun bits => Digits w bits.toList count v.val) := by
  apply Triple.of_addsAt (addsAt_decompose r count)
  · exact fun k => Record.passive_ruleInstruction? _ _
  · intro hw k hle hholds
    rw [List.forall_mem_append, List.forall_mem_singleton] at hholds
    obtain ⟨xs, hxs, hbool⟩ := (Instruction.holds_rule_boolean_iff hle).mp hholds.1
    have hdigits := (Instruction.holds_decompose_iff (by omega) hv hxs hbool hlt).mp hholds.2
    rw [hdigits] at hxs
    exact digits_of_reads hxs
  · intro hw k hle
    refine ⟨Instruction.binaryDigits count v.val, Instruction.length_binaryDigits _ _, ?_, ?_⟩
    · intro t ht hnum
      have hread : t.readFirst r = .ok v := by
        rw [Trace.readFirst_eq_ok_iff, ht, hnum]
        exact ⟨hv.stop_le, hv.getElem (i := 0) (by simp)⟩
      refine ⟨_, Instruction.decomposePlan_eq_ok ⟨⟨k, count⟩, count⟩ hread hlt, ?_⟩
      exact Plan.Fills.writeArray_done rfl rfl (Instruction.length_binaryDigits _ _)
    · intro hreads
      refine ⟨?_, digits_of_reads hreads⟩
      have hbool : ∀ x ∈ Instruction.binaryDigits count v.val, x = 0 ∨ x = 1 :=
        fun _ => Instruction.boolean_of_mem_binaryDigits
      rw [List.forall_mem_append, List.forall_mem_singleton]
      exact ⟨(Instruction.holds_rule_boolean_iff hle).mpr ⟨_, hreads, hbool⟩,
        (Instruction.holds_decompose_iff (by omega) hv hreads hbool hlt).mpr rfl⟩

end Digits

end Scenario

end ForeignCurve
