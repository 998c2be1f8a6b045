import ForeignCurve.Proofs.Gadget.CompleteSum
import ForeignCurve.Proofs.Gadget.Logic
import ForeignCurve.Proofs.Gadget.Preconditions
import ForeignCurve.Proofs.Instruction.Footprint
import ForeignCurve.Proofs.Instruction.Operands

namespace ForeignCurve

def Instruction.IsRule (k : Nat) (i : Instruction) : Prop :=
  ∃ rule s, i ∈ Record.ruleInstruction? rule s ∧ s.stop ≤ k

namespace Instruction.IsRule

variable {i : Instruction} {k : Nat}

theorem cases (h : i.IsRule k) : ∃ s, s.stop ≤ k ∧ (i = .boolean s ∨ ∃ bits, i = .range bits s) := by
  obtain ⟨rule, s, hi, hs⟩ := h
  refine ⟨s, hs, ?_⟩
  unfold Record.ruleInstruction? at hi
  split at hi
  · contradiction
  · split at hi
    · contradiction
    · cases hi
      exact .inl rfl
    · cases hi
      exact .inr ⟨_, rfl⟩

theorem passive (h : i.IsRule k) : i.Passive := by
  obtain ⟨s, -, rfl | ⟨bits, rfl⟩⟩ := h.cases
  · exact fun t => rfl
  · exact fun t => rfl

theorem wellFormed (h : i.IsRule k) : i.WellFormed := by
  obtain ⟨s, -, rfl | ⟨bits, rfl⟩⟩ := h.cases
  · exact trivial
  · exact trivial

theorem stop_le (h : i.IsRule k) : ∀ s ∈ i.runs, s.stop ≤ k := by
  obtain ⟨s, hs, rfl | ⟨bits, rfl⟩⟩ := h.cases
  · exact fun s' hs' => List.mem_singleton.mp hs' ▸ hs
  · exact fun s' hs' => List.mem_singleton.mp hs' ▸ hs

theorem of_mem {rule : CellRule} {s : CellSlice} (hs : s.stop ≤ k) :
    ∀ i ∈ (Record.ruleInstruction? rule s).toList, i.IsRule k :=
  fun _ hi => ⟨rule, s, Option.mem_toList.mp hi, hs⟩

end Instruction.IsRule

theorem Instruction.exists_pins_rule {rule : CellRule} {k n : Nat} (hrule : rule ≠ .free) (hn : 0 < n) :
    ∃ i ∈ (Record.ruleInstruction? rule ⟨k, n⟩).toList, i.Pins (k + n - 1) := by
  have hmem : k + n - 1 ∈ (⟨k, n⟩ : CellSlice).indices := by
    rw [CellSlice.mem_indices, CellSlice.stop]
    dsimp only
    omega
  unfold Record.ruleInstruction?
  rw [if_neg (Nat.ne_of_gt hn)]
  cases rule with
  | free => contradiction
  | boolean => exact ⟨_, List.mem_singleton_self _, pins_boolean hmem⟩
  | range bits => exact ⟨_, List.mem_singleton_self _, pins_range hmem⟩

/--
The rules of the fresh cells from `k` up to `k'`, and behind them the instruction that writes these
cells from the operands. The last cell is constrained.
-/
structure Block (operands : List CellSlice) (k k' : Nat) (rules : List Instruction) (i : Instruction) :
    Prop where
  rule : ∀ j ∈ rules, j.IsRule k'
  wellFormed : i.WellFormed
  fills : i.Fills k k'
  reads : ∀ s ∈ i.operands, s ∈ operands
  runs : ∀ s ∈ i.runs, s ∈ operands ∨ s.stop ≤ k'
  pinned : k < k' → ∃ j ∈ rules ++ [i], j.Pins (k' - 1)

namespace Block

variable {operands : List CellSlice} {k k' : Nat} {rules : List Instruction} {i : Instruction}
  (h : Block operands k k' rules i)

include h

theorem wellFormed_of_mem : ∀ j ∈ rules ++ [i], j.WellFormed := by
  rw [List.forall_mem_append, List.forall_mem_singleton]
  exact ⟨fun j hj => (h.rule j hj).wellFormed, h.wellFormed⟩

theorem stop_le_of_mem {n : Nat} (hoperands : ∀ s ∈ operands, s.stop ≤ n) (hn : k' ≤ n) :
    ∀ j ∈ rules ++ [i], ∀ s ∈ j.runs, s.stop ≤ n := by
  rw [List.forall_mem_append, List.forall_mem_singleton]
  refine ⟨fun j hj s hs => Nat.le_trans ((h.rule j hj).stop_le s hs) hn, fun s hs => ?_⟩
  cases h.runs s hs with
  | inl hs => exact hoperands s hs
  | inr hs => exact Nat.le_trans hs hn

theorem perform {t : Trace} (hoperands : ∀ s ∈ operands, t.Readable s) :
    (Plan.ofExcept (i.plan t)).OfValues ∧ ∀ p, i.plan t = .ok p → p.Spans k k' := by
  have hplans : Plans (i.plan t) :=
    Instruction.plans_of_readable h.wellFormed fun s hs => hoperands s (h.reads s hs)
  exact ⟨hplans.ofValues, h.fills t⟩

end Block

def Record.AddsBlock {α : Type} (g : Record α) (operands : List CellSlice)
    (results : α → List CellSlice) : Prop :=
  ∀ k, ∃ a n rules i, g.AddsAt k a n (rules ++ [i]) ∧ Block operands k (k + n) rules i ∧
    ∀ s ∈ results a, s.stop ≤ k + n

namespace Record.AddsBlock

section Plain

theorem of_register {α : Type} {g : Record α} {operands : List CellSlice} {results : α → List CellSlice}
    {a : Nat → α} {n : Nat} {rule : CellRule} {i : Nat → Instruction} (hrule : rule ≠ .free)
    (hg : ∀ k, g.AddsAt k (a k) n ((ruleInstruction? rule ⟨k, n⟩).toList ++ [i k]))
    (hi : ∀ k, (i k).WellFormed ∧ (i k).Fills k (k + n) ∧ (∀ s ∈ (i k).operands, s ∈ operands) ∧
      ∀ s ∈ (i k).runs, s ∈ operands ∨ s.stop ≤ k + n)
    (hresults : ∀ k, ∀ s ∈ results (a k), s.stop ≤ k + n) : g.AddsBlock operands results := by
  intro k
  obtain ⟨hwell, hfills, hoperands, hruns⟩ := hi k
  refine ⟨a k, n, _, i k, hg k, ⟨.of_mem (Nat.le_refl _), hwell, hfills, hoperands, hruns, ?_⟩,
    hresults k⟩
  intro hlt
  obtain ⟨j, hj, hpins⟩ := Instruction.exists_pins_rule (k := k) (n := n) hrule (by omega)
  exact ⟨j, List.mem_append_left _ hj, hpins⟩

theorem decompose (value : Register .element) (count : Nat) :
    (Gadget.decompose value count).AddsBlock [value.slice] fun bits => bits.toList.map (·.slice) := by
  refine of_register (by simp) (Scenario.addsAt_decompose value count) (fun k => ?_) fun k => ?_
  · refine ⟨Nat.le_refl _, Instruction.fills_decompose value, by simp [Instruction.operands], ?_⟩
    simp [Instruction.runs, CellSlice.stop]
  · rw [List.forall_mem_map, TraceM.toList_array rfl, List.forall_mem_map]
    intro j hj
    rw [List.mem_range'_1] at hj
    change j + 1 ≤ _
    exact hj.2

theorem greaterThan (value : CellSlice) (bound limbBits : Nat) :
    (Gadget.greaterThan value bound limbBits).AddsBlock [value] fun r => [r.slice] := by
  refine of_register (by simp) (Scenario.addsAt_greaterThan value bound limbBits) (fun k => ?_) fun k => ?_
  · refine ⟨trivial, Instruction.fills_greaterThan value _ limbBits, by simp [Instruction.operands], ?_⟩
    simp [Instruction.runs, CellSlice.stop, Register.slice, Kind.size]
  · simp [CellSlice.stop, Register.slice, Kind.size]

theorem select {k : Kind} (bit : Register .bit) (ifTrue ifFalse : Register k) :
    (Gadget.select bit ifTrue ifFalse).AddsBlock [bit.slice, ifTrue.slice, ifFalse.slice]
      fun r => [r.slice] := by
  intro i
  let result : Register k := ⟨i⟩
  have hadds : (Gadget.select bit ifTrue ifFalse).AddsAt i result k.size
      ((ruleInstruction? k.rule result.slice).toList ++
        [.select bit ifTrue.slice ifFalse.slice result.slice]) := by
    apply Record.AddsAt.bind_noCells (.alloc i k)
    exact Record.AddsAt.bind_pure (Record.AddsAt.append _ _)
  refine ⟨result, k.size, _, _, hadds, ⟨.of_mem (Nat.le_refl _), ⟨rfl, rfl⟩, ?_, ?_, ?_, ?_⟩, ?_⟩
  · exact Instruction.fills_select bit ifTrue.slice ifFalse.slice
  · simp [Instruction.operands]
  · simp [Instruction.runs, result, CellSlice.stop, Register.slice]
  · intro hlt
    refine ⟨_, List.mem_append_right _ (List.mem_singleton_self _), Instruction.pins_select rfl rfl ?_⟩
    rw [CellSlice.mem_indices]
    change i ≤ i + k.size - 1 ∧ i + k.size - 1 < i + k.size
    omega
  · simp [result, CellSlice.stop, Register.slice]

end Plain

section Field

variable {P : FieldParams}

theorem of_field {g : Record (FieldRegister P)} {operands : List CellSlice} {i : Nat → Instruction}
    (hg : ∀ k, g.AddsAt k ⟨k⟩ P.limbs
      ((ruleInstruction? (.range P.limbBits) ⟨k, P.limbs⟩).toList ++ [i k]))
    (hwell : ∀ k, (i k).WellFormed) (hfills : ∀ k, (i k).Fills k (k + P.limbs))
    (hreads : ∀ k, ∀ s ∈ (i k).operands, s ∈ operands)
    (hruns : ∀ k, ∀ s ∈ (i k).runs, s ∈ operands ∨ s = ⟨k, P.limbs⟩) :
    g.AddsBlock operands fun r => [r.slice] := by
  refine of_register (by simp) hg (fun k => ⟨hwell k, hfills k, hreads k, fun s hs => ?_⟩) fun k => ?_
  · refine (hruns k s hs).imp_right fun hs => ?_
    rw [hs]
    exact Nat.le_refl _
  · simp [CellSlice.stop, Register.slice, Kind.size]

variable [P.HasHeadroom]

theorem constant [NeZero P.modulus] (value : Nat) :
    (Gadget.constant P value).AddsBlock [] fun r => [r.slice] := by
  apply of_field (Scenario.addsAt_constant value)
  · exact fun k => FieldParams.length_digits _
  · exact fun k => Instruction.fills_constant (FieldParams.length_digits _)
  · simp [Instruction.operands]
  · simp [Instruction.runs, Register.slice, Kind.size]

theorem inverseHint (a : FieldRegister P) (allowZero : Bool) :
    (Gadget.inverseHint a allowZero).AddsBlock [a.slice] fun r => [r.slice] := by
  apply of_field (Scenario.addsAt_inverseHint a allowZero)
  · exact fun k => trivial
  · exact fun k => Instruction.fills_inverse a allowZero
  · simp [Instruction.operands]
  · simp [Instruction.runs, Register.slice, Kind.size]

theorem assertEqualConstant [NeZero P.modulus] (a : FieldRegister P) (value : Nat) :
    (Gadget.assertEqualConstant a value).AddsBlock [a.slice] fun _ => [] := by
  intro k
  refine ⟨(), 0, [], _, Scenario.addsAt_assertEqualConstant a value k, ⟨by simp, ?_, ?_, ?_, ?_, ?_⟩,
    by simp⟩
  · exact FieldParams.length_digits _
  · exact (Instruction.passive_assertConstant _ _).fills k
  · simp [Instruction.operands]
  · simp [Instruction.runs]
  · exact fun hlt => absurd hlt (Nat.lt_irrefl k)

section Identity

variable {set : FieldRegister P → Record Unit} {x y z : FieldRegister P → FieldRegister P}
  {f : Identity P → Instruction} {operands : List CellSlice}

theorem of_identity
    (hset : ∀ r, set r = do Record.append (f (← Gadget.identity (x r) (y r) (z r))))
    (hwell : ∀ m, (f m).WellFormed ↔ (∃ xs, P.encode P.modulus = .ok xs) ∧
      m.low.length ≤ m.low.slice.len ∧ m.high.length ≤ m.high.slice.len)
    (hruns : ∀ m, (f m).runs =
      [m.a.slice, m.b.slice, m.result.slice, m.carry.slice, m.low.slice, m.high.slice])
    (hfills : ∀ k, (f (.allocated (x ⟨k⟩) (y ⟨k⟩) (z ⟨k⟩) (k + P.limbs))).Fills k
      (k + Identity.blockSize P))
    (hreads : ∀ k k', ∀ s ∈ (f (.allocated (x ⟨k⟩) (y ⟨k⟩) (z ⟨k⟩) k')).operands, s ∈ operands)
    (hxyz : ∀ r, ∀ s ∈ [(x r).slice, (y r).slice, (z r).slice], s ∈ operands ∨ s = r.slice) :
    (do
      let r ← Record.alloc (.field P)
      set r
      return r : Record (FieldRegister P)).AddsBlock operands fun r => [r.slice] := by
  intro k
  have hlimbs := FieldParams.limbs_pos (P := P)
  have hle : k + P.limbs ≤ k + Identity.blockSize P :=
    Nat.add_le_add_left (Nat.le_add_right _ _) k
  refine ⟨⟨k⟩, _, _, _, .identityBlock hset k, ⟨?_, ?_, hfills k, hreads k _, ?_, ?_⟩, ?_⟩
  · unfold Identity.rules Identity.blockSize
    simp only [List.forall_mem_append]
    refine ⟨.of_mem ?_, .of_mem ?_, .of_mem ?_, .of_mem ?_⟩
    all_goals
      unfold CellSlice.stop
      dsimp only
      omega
  · exact (hwell _).mpr ⟨⟨_, P.encode_eq_digits _⟩, Nat.le_refl _, Nat.le_refl _⟩
  · rw [hruns]
    intro s hs
    obtain hs | hs := List.mem_append (s := [(x ⟨k⟩).slice, (y ⟨k⟩).slice, (z ⟨k⟩).slice]).mp hs
    · refine (hxyz ⟨k⟩ s hs).imp_right fun hs => ?_
      rw [hs]
      exact hle
    · right
      unfold Identity.blockSize
      simp only [Identity.allocated, Register.slice, Kind.size, List.mem_cons, List.not_mem_nil,
        or_false] at hs
      obtain rfl | rfl | rfl := hs
      all_goals
        unfold CellSlice.stop
        dsimp only
        omega
  · intro _
    unfold Identity.rules Identity.blockSize
    -- the last rule is that of the high halves, or of the carry if there is no quotient
    by_cases hw : P.witnessLimbs = 0
    · obtain ⟨j, hj, hpins⟩ := @Instruction.exists_pins_rule (.range P.limbBits)
        (k + P.limbs) _ (by simp) hlimbs
      refine ⟨j, ?_, ?_⟩
      · simp only [List.mem_append]
        exact .inl (.inr (.inl hj))
      · rwa [hw, Nat.add_zero, ← Nat.add_assoc]
    · obtain ⟨j, hj, hpins⟩ := @Instruction.exists_pins_rule (.range P.limbBits)
        (k + P.limbs + P.limbs + P.witnessLimbs) P.witnessLimbs (by simp) (by omega)
      refine ⟨j, ?_, ?_⟩
      · simp only [List.mem_append]
        exact .inl (.inr (.inr (.inr hj)))
      · simpa only [Nat.add_assoc] using hpins
  · simpa [Register.slice, Kind.size, CellSlice.stop] using hle

theorem add (a b : FieldRegister P) :
    (Gadget.add a b).AddsBlock [a.slice, b.slice] fun r => [r.slice] := by
  apply of_identity (f := .fieldSum P) (x := fun _ => a) (y := fun _ => b) (z := fun r => r)
    (fun r => rfl) (fun m => Iff.rfl) (fun m => rfl)
  · exact fun k => Instruction.fills_fieldSum a b
  · simp [Instruction.operands, Identity.allocated]
  · simp

theorem sub (a b : FieldRegister P) :
    (Gadget.sub a b).AddsBlock [a.slice, b.slice] fun r => [r.slice] := by
  apply of_identity (f := .fieldDifference P) (x := fun _ => b) (y := fun r => r) (z := fun _ => a)
    (fun r => rfl) (fun m => Iff.rfl) (fun m => rfl)
  · exact fun k => Instruction.fills_fieldDifference a b
  · simp [Instruction.operands, Identity.allocated]
  · simp

theorem mul (a b : FieldRegister P) :
    (Gadget.mul a b).AddsBlock [a.slice, b.slice] fun r => [r.slice] := by
  apply of_identity (f := .fieldProduct P) (x := fun _ => a) (y := fun _ => b) (z := fun r => r)
    (fun r => rfl) (fun m => Iff.rfl) (fun m => rfl)
  · exact fun k => Instruction.fills_fieldProduct a b
  · simp [Instruction.operands, Identity.allocated]
  · simp

end Identity

section LimbSum

variable {a : FieldRegister P} {b c : FieldRegister P → LimbOperand}

theorem block_limbSum {k : Nat} (hb : (b ⟨k⟩).Encodable) (hc : (c ⟨k⟩).Encodable)
    (hreads : ∀ s ∈ (LimbSum.allocated P a (b ⟨k⟩) (c ⟨k⟩) (k + P.limbs)).operands, s = a.slice)
    (hruns : ∀ s ∈ (b ⟨k⟩).runs ++ (c ⟨k⟩).runs, s = ⟨k, P.limbs⟩)
    (hfills : (Instruction.limbSum (.allocated P a (b ⟨k⟩) (c ⟨k⟩) (k + P.limbs))).Fills k
      (k + P.limbs + (P.limbs - 1))) :
    Block [a.slice] k (k + (P.limbs + (P.limbs - 1)))
      ((ruleInstruction? (.range P.limbBits) ⟨k, P.limbs⟩).toList ++
        (ruleInstruction? .boolean ⟨k + P.limbs, P.limbs - 1⟩).toList)
      (.limbSum (.allocated P a (b ⟨k⟩) (c ⟨k⟩) (k + P.limbs))) := by
  have hlimbs := FieldParams.limbs_pos (P := P)
  rw [← Nat.add_assoc]
  refine ⟨?_, ⟨hb, hc, Nat.le_refl _, FieldParams.limbBits_lt⟩, hfills, ?_, ?_, ?_⟩
  · rw [List.forall_mem_append]
    exact ⟨.of_mem (Nat.le_add_right _ _), .of_mem (Nat.le_refl _)⟩
  · exact fun s hs => List.mem_singleton.mpr (hreads s hs)
  · intro s hs
    rw [Instruction.runs, List.mem_append, List.cons_append, List.mem_cons, List.mem_singleton] at hs
    obtain (rfl | hs) | rfl := hs
    · exact .inl (List.mem_singleton_self _)
    · rw [hruns s hs]
      exact .inr (Nat.le_add_right _ _)
    · exact .inr (Nat.le_refl _)
  · intro _
    by_cases hone : P.limbs - 1 = 0
    · obtain ⟨j, hj, hpins⟩ := @Instruction.exists_pins_rule (.range P.limbBits) k _
        (by simp) hlimbs
      refine ⟨j, List.mem_append_left _ (List.mem_append_left _ hj), ?_⟩
      rwa [hone, Nat.add_zero]
    · obtain ⟨j, hj, hpins⟩ := @Instruction.exists_pins_rule .boolean (k + P.limbs)
        (P.limbs - 1) (by simp) (by omega)
      exact ⟨j, List.mem_append_left _ (List.mem_append_right _ hj), hpins⟩

omit [P.HasHeadroom] in
theorem encodable_encode (hbits : P.limbBits < 64) (value : Nat) :
    (LimbOperand.const (Limbs.encode P.limbBits P.limbs value)).Encodable := by
  intro w hw
  have hlt := Limbs.lt_of_mem_encode hw
  have hpow : 2 ^ P.limbBits ≤ 2 ^ 63 := Nat.pow_le_pow_right (by decide) (by omega)
  have horder : 2 ^ 63 < order := by decide
  omega

theorem assertCanonical (a : FieldRegister P) :
    (Gadget.assertCanonical a).AddsBlock [a.slice] fun _ => [] := by
  intro k
  refine ⟨(), P.limbs + (P.limbs - 1), _, _, Scenario.addsAt_assertCanonical a k, block_limbSum
    (b := fun _ => .const (Limbs.encode P.limbBits P.limbs (2 ^ P.bits - P.modulus)))
    (c := fun r => .cells r.slice) ?_ trivial ?_ ?_ (Instruction.fills_limbSum_result a _), by simp⟩
  · exact encodable_encode FieldParams.limbBits_lt _
  · simp [LimbSum.operands, LimbSum.allocated, LimbOperand.runs]
  · simp [LimbOperand.runs, Register.slice, Kind.size]

theorem slack (a : FieldRegister P) (total : Nat) :
    (do
      let r ← Record.alloc (.field P)
      let _ ← Gadget.limbSum a.slice (.cells r.slice)
        (.const (Limbs.encode P.limbBits P.limbs total)) P.limbBits
      return r : Record (FieldRegister P)).AddsBlock [a.slice] fun r => [r.slice] := by
  intro k
  refine ⟨⟨k⟩, P.limbs + (P.limbs - 1), _, _, Scenario.addsAt_limbSumBlock
    (b := fun r => .cells r.slice) (c := fun _ => .const (Limbs.encode P.limbBits P.limbs total))
    (fun r => rfl) (fun r => Limbs.length_encode _ _ _) k,
    block_limbSum (b := fun r => .cells r.slice)
      (c := fun _ => .const (Limbs.encode P.limbBits P.limbs total)) trivial ?_ ?_ ?_
      (Instruction.fills_limbSum_summand a _), ?_⟩
  · exact encodable_encode FieldParams.limbBits_lt _
  · simp [LimbSum.operands, LimbSum.allocated]
  · simp [LimbOperand.runs, Register.slice, Kind.size]
  · simp [CellSlice.stop, Register.slice, Kind.size]

end LimbSum

theorem slope {E : CurveParams} [E.base.HasHeadroom] (p q : PointRegister E.base) :
    (do
      let r ← Record.alloc (.field E.base)
      Record.append (.slope E p q r)
      return r : Record (FieldRegister E.base)).AddsBlock
        [p.x.slice, p.y.slice, q.x.slice, q.y.slice] fun r => [r.slice] := by
  apply of_field (Scenario.addsAt_slope p q)
  · exact fun k => trivial
  · exact fun k => Instruction.fills_slope p q
  · simp [Instruction.operands]
  · intro k s hs
    obtain hs | hs := List.mem_append (s := [p.x.slice, p.y.slice, q.x.slice, q.y.slice]).mp hs
    · exact .inl hs
    · exact .inr (List.mem_singleton.mp hs)

end Field

end Record.AddsBlock

end ForeignCurve
