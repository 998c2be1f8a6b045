import ForeignCurve.Proofs.Gadget.Primitive
import ForeignCurve.Proofs.Instruction.Footprint
import ForeignCurve.Proofs.Run

namespace ForeignCurve

structure Trace.Agrees (D : Nat → Prop) (t t' : Trace) : Prop where
  layout : t'.layout = t.layout
  numCells : t'.numCells = t.numCells
  store : ∀ j < t.numCells, D j → t'.store j = t.store j

def CellSlice.Within (s : CellSlice) (D : Nat → Prop) : Prop :=
  ∀ j ∈ s.indices, D j

def Instruction.Within (i : Instruction) (D : Nat → Prop) : Prop :=
  ∀ s ∈ i.operands, s.Within D

variable {D : Nat → Prop} {t t' t₁ t₁' : Trace}

namespace Trace.Agrees

theorem readSlice {s : CellSlice} (h : t.Agrees D t') (hs : s.Within D) :
    SucceedsAs (t.readSlice s) (t'.readSlice s) := by
  intro xs hxs
  rw [readSlice_eq_ok_iff, Store.reads_iff] at hxs ⊢
  obtain ⟨hstop, hmap⟩ := hxs
  rw [h.numCells, ← hmap]
  refine ⟨hstop, List.map_congr_left fun j hj => h.store j ?_ (hs j hj)⟩
  exact Nat.lt_of_lt_of_le (CellSlice.mem_indices.mp hj).2 hstop

theorem filled {i : Nat} {xs : List Native} (h : t.Agrees D t') (h₁ : t.Filled i xs t₁)
    (h₁' : t'.Filled i xs t₁') : t₁.Agrees D t₁' := by
  refine ⟨?_, ?_, fun j hj hD => ?_⟩
  · rw [h₁.layout, h₁'.layout, h.layout]
  · rw [h₁.numCells, h₁'.numCells, h.numCells]
  · rw [h₁.numCells] at hj
    rw [h₁.store, h₁'.store]
    unfold Store.fill
    rw [h.store j hj hD]

theorem writeSlice {s : CellSlice} {xs : List Native} (h : t.Agrees D t')
    (hrun : TraceM.writeSlice s xs t = .ok () t₁) (hrun' : TraceM.writeSlice s xs t' = .ok () t₁') :
    t₁.Agrees D t₁' :=
  h.filled (TraceM.filled_writeSlice hrun) (TraceM.filled_writeSlice hrun')

theorem writeEach {k : Kind} {rs : List (Register k)} {xss : List (List Native)} (h : t.Agrees D t')
    (hrun : TraceM.writeEach rs xss t = .ok () t₁) (hrun' : TraceM.writeEach rs xss t' = .ok () t₁') :
    t₁.Agrees D t₁' := by
  induction rs generalizing xss t t' with
  | nil =>
    cases xss with
    | nil =>
      cases hrun
      cases hrun'
      exact h
    | cons xs xss => contradiction
  | cons r rs ih =>
    cases xss with
    | nil => contradiction
    | cons xs xss =>
      obtain ⟨u, t₂, hwrite, hrest⟩ := run_bind_eq_ok_iff.mp hrun
      obtain ⟨u', t₂', hwrite', hrest'⟩ := run_bind_eq_ok_iff.mp hrun'
      exact ih (h.writeSlice hwrite hwrite') hrest hrest'

theorem writeArray {k : Kind} {a : RegisterArray k} {xss : List (List Native)} (h : t.Agrees D t')
    (hrun : TraceM.writeArray a xss t = .ok () t₁) (hrun' : TraceM.writeArray a xss t' = .ok () t₁') :
    t₁.Agrees D t₁' := by
  unfold TraceM.writeArray at hrun hrun'
  split at hrun
  · next hlen =>
    rw [if_pos hlen] at hrun'
    exact h.writeEach hrun hrun'
  · contradiction

theorem perform {p : Plan} (h : t.Agrees D t') (hrun : p.perform t = .ok () t₁)
    (hrun' : p.perform t' = .ok () t₁') : t₁.Agrees D t₁' := by
  induction p generalizing t t' with
  | done =>
    cases hrun
    cases hrun'
    exact h
  | fail f => contradiction
  | write s xs rest ih =>
    obtain ⟨u, t₂, hwrite, hrest⟩ := run_bind_eq_ok_iff.mp hrun
    obtain ⟨u', t₂', hwrite', hrest'⟩ := run_bind_eq_ok_iff.mp hrun'
    exact ih (h.writeSlice hwrite hwrite') hrest hrest'
  | writeArray k a xs rest ih =>
    obtain ⟨u, t₂, hwrite, hrest⟩ := run_bind_eq_ok_iff.mp hrun
    obtain ⟨u', t₂', hwrite', hrest'⟩ := run_bind_eq_ok_iff.mp hrun'
    exact ih (h.writeArray hwrite hwrite') hrest hrest'

theorem write {i : Instruction} (h : t.Agrees D t') (hi : i.Within D)
    (hrun : i.write t = .ok () t₁) (hrun' : i.write t' = .ok () t₁') : t₁.Agrees D t₁' := by
  obtain ⟨p, hplan, hperform⟩ := Instruction.write_eq_ok_iff.mp hrun
  obtain ⟨p', hplan', hperform'⟩ := Instruction.write_eq_ok_iff.mp hrun'
  have hsame := Instruction.plan_of_operands (fun s hs => h.readSlice (hi s hs)) p hplan
  rw [hplan'] at hsame
  cases hsame
  exact h.perform hperform hperform'

theorem steps {is : List Instruction} (h : t.Agrees D t') (his : ∀ i ∈ is, i.Within D)
    (hrun : Steps t is t₁) (hrun' : Steps t' is t₁') : t₁.Agrees D t₁' := by
  induction hrun generalizing t' with
  | nil t =>
    cases hrun'
    exact h
  | cons hwrite _ ih =>
    rw [List.forall_mem_cons] at his
    cases hrun' with
    | cons hwrite' hrest' => exact ih (h.write his.1 hwrite hwrite') his.2 hrest'

end Trace.Agrees

structure Builder.Stays (D : Nat → Prop) (b b' : Builder) : Prop where
  numCells : b.numCells ≤ b'.numCells
  instructions : ∃ is, b'.instructions.toList = b.instructions.toList ++ is ∧ ∀ i ∈ is, i.Within D

namespace Builder.Stays

variable {b b' b'' : Builder}

protected theorem refl (b : Builder) : b.Stays D b :=
  ⟨Nat.le_refl _, [], (List.append_nil _).symm, by simp⟩

protected theorem trans (h : b.Stays D b') (h' : b'.Stays D b'') : b.Stays D b'' := by
  obtain ⟨hle, is, his, hwithin⟩ := h
  obtain ⟨hle', is', his', hwithin'⟩ := h'
  refine ⟨Nat.le_trans hle hle', is ++ is', by rw [his', his, List.append_assoc], ?_⟩
  rw [List.forall_mem_append]
  exact ⟨hwithin, hwithin'⟩

theorem of_adds {n : Nat} {is : List Instruction} (h : b.Adds n is b') (his : ∀ i ∈ is, i.Within D) :
    b.Stays D b' :=
  ⟨by rw [h.numCells]; exact Nat.le_add_right _ _, is, h.instructions, his⟩

theorem requireHeadroom {P : FieldParams} (hrun : (Record.requireHeadroom P).run b = .ok ((), b')) :
    b.Stays D b' := by
  obtain ⟨hcells, hinstructions⟩ := Record.of_requireHeadroom hrun
  exact ⟨Nat.le_of_eq hcells.symm, [], by rw [hinstructions, List.append_nil], by simp⟩

end Builder.Stays

namespace Instruction

theorem within_ruleInstruction? {rule : CellRule} {s : CellSlice} :
    ∀ i ∈ (Record.ruleInstruction? rule s).toList, i.Within D := by
  intro i hi
  unfold Record.ruleInstruction? at hi
  split at hi
  · simp at hi
  · split at hi
    · simp at hi
    · simp at hi
      simp [hi, Within, operands]
    · simp at hi
      simp [hi, Within, operands]

theorem Corresponds.within {Run : CellSlice → CellSlice → Prop} {i i' : Instruction}
    (h : i.Corresponds Run i') (hRun : ∀ s s', Run s s' → s.Within D) : i.Within D := by
  have hoperand {o o' : LimbOperand} (ho : o.Corresponds Run o') : ∀ s ∈ o.runs, s.Within D := by
    cases ho with
    | cells h => simpa [LimbOperand.runs] using hRun _ _ h
    | const limbs => simp [LimbOperand.runs]
  cases h with
  | constant values assign h => simp [Within, operands]
  | select hbit ht hf hr => simpa [Within, operands] using ⟨hRun _ _ hbit, hRun _ _ ht, hRun _ _ hf⟩
  | decompose hvalue hbits => simpa [Within, operands] using hRun _ _ hvalue
  | limbSum limbBits ha hb hc hcarries =>
    cases hc with
    | cells hc => simpa [Within, operands, LimbSum.operands] using ⟨hRun _ _ ha, hoperand hb⟩
    | const limbs => simpa [Within, operands, LimbSum.operands] using hRun _ _ ha
  | greaterThan bound limbBits hs hr => simpa [Within, operands] using hRun _ _ hs
  | fieldSum h => simpa [Within, operands] using ⟨hRun _ _ h.a, hRun _ _ h.b⟩
  | fieldDifference h => simpa [Within, operands] using ⟨hRun _ _ h.a, hRun _ _ h.result⟩
  | fieldProduct h => simpa [Within, operands] using ⟨hRun _ _ h.a, hRun _ _ h.b⟩
  | inverse allowZero ha hr => simpa [Within, operands] using hRun _ _ ha
  | slope hpx hpy hqx hqy hr =>
    simpa [Within, operands] using ⟨hRun _ _ hpx, hRun _ _ hpy, hRun _ _ hqx, hRun _ _ hqy⟩

end Instruction

def PrimitiveLogic.confined (D : Nat → Prop) (lo : Nat) (hlo : ∀ j, lo ≤ j → D j) : PrimitiveLogic where
  Run s s' := s = s' ∧ s.Within D
  Admits _ := True
  Step g _ R := ∀ b a b', g.run b = .ok (a, b') → lo ≤ b.numCells → b.Stays D b' ∧ ∃ a', R a a'
  part {s s' first len} h _ hlen := by
    obtain ⟨rfl, hs⟩ := h
    refine ⟨rfl, fun j hj => hs j ?_⟩
    rw [CellSlice.mem_indices] at hj ⊢
    unfold CellSlice.stop at hj ⊢
    dsimp only at hj
    omega
  pure hR b a b' hrun _ := by
    cases hrun
    exact ⟨.refl b, _, hR⟩
  bind hg hf b c b'' hrun hb := by
    obtain ⟨a, b', hrun₁, hrun₂⟩ := Record.run_bind_eq_ok_iff.mp hrun
    obtain ⟨hstays, a', ha⟩ := hg b a b' hrun₁ hb
    obtain ⟨hstays', hc⟩ := hf a a' ha b' c b'' hrun₂ (Nat.le_trans hb hstays.numCells)
    exact ⟨hstays.trans hstays', hc⟩
  lift x b a b' hrun _ := by
    obtain ⟨rfl, rfl⟩ := Record.run_lift_eq_ok_iff.mp hrun
    exact ⟨.refl _, _, rfl⟩
  throw e R b a b' hrun _ := by contradiction
  len h := by rw [h.1]
  requireHeadroom _ b _ b' hrun _ := ⟨.requireHeadroom hrun, (), trivial⟩
  alloc k b r b' hrun hb := by
    obtain ⟨rfl, hadds⟩ := (Record.AddsAt.alloc b.numCells k).of_run hrun
    refine ⟨.of_adds hadds Instruction.within_ruleInstruction?, _, rfl, fun j hj => hlo j ?_⟩
    exact Nat.le_trans hb (CellSlice.mem_indices.mp hj).1
  allocArray length hk b a b' hrun hb := by
    obtain ⟨rfl, hadds⟩ := (Record.AddsAt.allocArray b.numCells hk length).of_run hrun
    refine ⟨.of_adds hadds Instruction.within_ruleInstruction?, _, ⟨⟨rfl, fun j hj => hlo j ?_⟩, rfl⟩,
      Nat.le_refl _⟩
    exact Nat.le_trans hb (CellSlice.mem_indices.mp hj).1
  append {i i'} hi b _ b' hrun _ := by
    obtain ⟨-, hadds⟩ := (Record.AddsAt.append b.numCells i).of_run hrun
    refine ⟨.of_adds hadds ?_, (), trivial⟩
    simpa using hi.within fun _ _ h => h.2

end ForeignCurve
