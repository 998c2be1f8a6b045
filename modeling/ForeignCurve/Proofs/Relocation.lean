import ForeignCurve.Component
import ForeignCurve.Proofs.CompleteAddition
import ForeignCurve.Proofs.Gadget.Preconditions
import ForeignCurve.Proofs.Gadget.Primitive
import ForeignCurve.Proofs.ScalarMultiplication
import ForeignCurve.Recording

/-!
What a component records does not depend on the builder that it is recorded into, nor on where its inputs
are. It is what is recorded into a new builder, with all cells renamed.
-/

namespace ForeignCurve

section Relocate

variable (f : Nat → Nat)

def CellSlice.relocate (s : CellSlice) : CellSlice :=
  ⟨f s.start, s.len⟩

def Register.relocate {k : Kind} (r : Register k) : Register k :=
  ⟨f r.start⟩

def PointRegister.relocate {P : FieldParams} (p : PointRegister P) : PointRegister P :=
  ⟨p.x.relocate f, p.y.relocate f⟩

def RegisterArray.relocate {k : Kind} (a : RegisterArray k) : RegisterArray k :=
  ⟨a.slice.relocate f, a.length⟩

def LimbOperand.relocate : LimbOperand → LimbOperand
  | cells s => cells (s.relocate f)
  | const limbs => const limbs

def LimbSum.relocate (s : LimbSum) : LimbSum :=
  ⟨s.a.relocate f, s.b.relocate f, s.result.relocate f, s.carries.relocate f, s.limbBits⟩

def Identity.relocate {P : FieldParams} (m : Identity P) : Identity P :=
  ⟨m.a.relocate f, m.b.relocate f, m.result.relocate f, m.carry.relocate f, m.low.relocate f,
    m.high.relocate f⟩

def Instruction.relocate : Instruction → Instruction
  | constant target values assign => constant (target.relocate f) values assign
  | copy source target => copy (source.relocate f) (target.relocate f)
  | boolean cells => boolean (cells.relocate f)
  | range bits cells => range bits (cells.relocate f)
  | select bit ifTrue ifFalse result =>
    select (bit.relocate f) (ifTrue.relocate f) (ifFalse.relocate f) (result.relocate f)
  | decompose value bits => decompose (value.relocate f) (bits.relocate f)
  | limbSum sum => limbSum (sum.relocate f)
  | greaterThan value bound limbBits result =>
    greaterThan (value.relocate f) bound limbBits (result.relocate f)
  | fieldSum P m => fieldSum P (m.relocate f)
  | fieldDifference P m => fieldDifference P (m.relocate f)
  | fieldProduct P m => fieldProduct P (m.relocate f)
  | inverse P a result allowZero => inverse P (a.relocate f) (result.relocate f) allowZero
  | slope E p q result => slope E (p.relocate f) (q.relocate f) (result.relocate f)

structure CellSlice.Moves (s s' : CellSlice) : Prop where
  eq : s' = s.relocate f
  cells : ∀ j < s.len, f (s.start + j) = s'.start + j

end Relocate

section Moves

variable {f : Nat → Nat}

theorem CellSlice.Moves.register {k : Kind} {r r' : Register k} (h : r.slice.Moves f r'.slice) :
    r' = r.relocate f := by
  obtain ⟨i⟩ := r'
  exact congrArg Register.mk (congrArg CellSlice.start h.eq)

theorem LimbOperand.Corresponds.eq_relocate {o o' : LimbOperand}
    (h : o.Corresponds (CellSlice.Moves f) o') : o' = o.relocate f := by
  cases h with
  | cells h => exact congrArg LimbOperand.cells h.eq
  | const limbs => rfl

theorem RegisterArray.Corresponds.eq_relocate {k : Kind} {a a' : RegisterArray k}
    (h : a.Corresponds (CellSlice.Moves f) a') : a' = a.relocate f := by
  obtain ⟨s, n⟩ := a'
  obtain ⟨hslice, hlen⟩ := h
  exact congr (congrArg RegisterArray.mk hslice.eq) hlen

theorem Identity.Corresponds.eq_relocate {P : FieldParams} {m m' : Identity P}
    (h : m.Corresponds (CellSlice.Moves f) m') : m' = m.relocate f := by
  obtain ⟨a, b, result, carry, low, high⟩ := m'
  obtain ⟨ha, hb, hresult, hcarry, hlow, hhigh⟩ := h
  obtain rfl := ha.register
  obtain rfl := hb.register
  obtain rfl := hresult.register
  obtain rfl := hcarry.register
  obtain rfl := hlow.eq_relocate
  obtain rfl := hhigh.eq_relocate
  rfl

theorem Instruction.Corresponds.eq_relocate {i i' : Instruction}
    (h : i.Corresponds (CellSlice.Moves f) i') : i' = i.relocate f := by
  cases h with
  | constant values assign h =>
    rw [h.eq]
    rfl
  | select hbit ht hf hr =>
    rw [hbit.register, ht.eq, hf.eq, hr.eq]
    rfl
  | decompose hvalue hbits =>
    rw [hvalue.register, hbits.eq_relocate]
    rfl
  | limbSum limbBits ha hb hc hcarries =>
    rw [ha.eq, hb.eq_relocate, hc.eq_relocate, hcarries.eq_relocate]
    rfl
  | greaterThan bound limbBits hs hr =>
    rw [hs.eq, hr.register]
    rfl
  | fieldSum h | fieldDifference h | fieldProduct h =>
    rw [h.eq_relocate]
    rfl
  | inverse allowZero ha hr =>
    rw [ha.register, hr.register]
    rfl
  | @slope E p p' q q' r r' hpx hpy hqx hqy hr =>
    obtain ⟨px, py⟩ := p'
    obtain ⟨qx, qy⟩ := q'
    obtain rfl := hpx.register
    obtain rfl := hpy.register
    obtain rfl := hqx.register
    obtain rfl := hqy.register
    rw [hr.register]
    rfl

theorem Record.map_relocate_ruleInstruction? (rule : CellRule) (s : CellSlice) :
    (ruleInstruction? rule s).toList.map (Instruction.relocate f) =
      (ruleInstruction? rule (s.relocate f)).toList := by
  have hrelocate : (s.relocate f).len = s.len := rfl
  unfold ruleInstruction?
  rw [hrelocate]
  by_cases hlen : s.len = 0
  · rw [if_pos hlen, if_pos hlen]
    rfl
  · rw [if_neg hlen, if_neg hlen]
    cases rule with
    | free => rfl
    | boolean => rfl
    | range bits => rfl

def Builder.Aligned (f : Nat → Nat) (b b' : Builder) : Prop :=
  ∀ j, f (b.numCells + j) = b'.numCells + j

structure Builder.Mirrors (f : Nat → Nat) (b b' b₁ b₁' : Builder) (n : Nat) (is : List Instruction) :
    Prop where
  numCells : b₁.numCells = b.numCells + n
  numCells' : b₁'.numCells = b'.numCells + n
  instructions : b₁.instructions.toList = b.instructions.toList ++ is
  instructions' : b₁'.instructions.toList = b'.instructions.toList ++ is.map (Instruction.relocate f)

namespace Builder.Mirrors

variable {b b' b₁ b₁' b₂ b₂' : Builder} {n n' : Nat} {is is' : List Instruction}

protected theorem refl (b b' : Builder) : Mirrors f b b' b b' 0 [] :=
  ⟨rfl, rfl, by simp, by simp⟩

protected theorem trans (h : Mirrors f b b' b₁ b₁' n is) (h' : Mirrors f b₁ b₁' b₂ b₂' n' is') :
    Mirrors f b b' b₂ b₂' (n + n') (is ++ is') := by
  refine ⟨?_, ?_, ?_, ?_⟩
  · rw [h'.numCells, h.numCells, Nat.add_assoc]
  · rw [h'.numCells', h.numCells', Nat.add_assoc]
  · rw [h'.instructions, h.instructions, List.append_assoc]
  · rw [h'.instructions', h.instructions', List.append_assoc, List.map_append]

theorem of_adds (h : b.Adds n is b₁) (h' : b'.Adds n (is.map (Instruction.relocate f)) b₁') :
    Mirrors f b b' b₁ b₁' n is :=
  ⟨h.numCells, h'.numCells, h.instructions, h'.instructions⟩

theorem aligned (h : Mirrors f b b' b₁ b₁' n is) (hb : b.Aligned f b') : b₁.Aligned f b₁' := by
  intro j
  rw [h.numCells, h.numCells', Nat.add_assoc, Nat.add_assoc]
  exact hb (n + j)

end Builder.Mirrors

theorem Builder.Aligned.moves {b b' : Builder} (h : b.Aligned f b') (n : Nat) :
    CellSlice.Moves f ⟨b.numCells, n⟩ ⟨b'.numCells, n⟩ := by
  have hfirst : f b.numCells = b'.numCells := h 0
  refine ⟨?_, fun j _ => h j⟩
  unfold CellSlice.relocate
  rw [hfirst]

theorem Builder.Mirrors.of_allocation {b b' b₁ b₁' : Builder} (hb : b.Aligned f b') {n : Nat}
    {rule : CellRule}
    (h : b.Adds n (Record.ruleInstruction? rule ⟨b.numCells, n⟩).toList b₁)
    (h' : b'.Adds n (Record.ruleInstruction? rule ⟨b'.numCells, n⟩).toList b₁') :
    Mirrors f b b' b₁ b₁' n (Record.ruleInstruction? rule ⟨b.numCells, n⟩).toList := by
  refine of_adds h ?_
  rw [Record.map_relocate_ruleInstruction?, ← (hb.moves n).eq]
  exact h'

namespace PrimitiveLogic

def relocating (f : Nat → Nat) : PrimitiveLogic where
  Run := CellSlice.Moves f
  Admits _ := True
  Step g g' R := ∀ b b' a b₁, b.Aligned f b' → g.run b = .ok (a, b₁) →
    ∃ a' b₁' n is, g'.run b' = .ok (a', b₁') ∧ R a a' ∧ Builder.Mirrors f b b' b₁ b₁' n is
  part {s s' first len} h hpos hlen := by
    have hfirst := h.cells first (by omega)
    refine ⟨?_, fun j hj => ?_⟩
    · unfold CellSlice.relocate
      rw [hfirst]
    · dsimp only at hj ⊢
      rw [Nat.add_assoc, h.cells (first + j) (by omega), Nat.add_assoc]
  pure {α a a' R} hR b b' _ b₁ _ hrun := by
    cases hrun
    exact ⟨a', b', 0, [], rfl, hR, .refl b b'⟩
  bind hg hf b b' c b₂ hb hrun := by
    obtain ⟨a, b₁, hrun₁, hrun₂⟩ := Record.run_bind_eq_ok_iff.mp hrun
    obtain ⟨a', b₁', n, is, hrun₁', ha, hmirrors⟩ := hg b b' a b₁ hb hrun₁
    obtain ⟨c', b₂', n', is', hrun₂', hc, hmirrors'⟩ :=
      hf a a' ha b₁ b₁' c b₂ (hmirrors.aligned hb) hrun₂
    exact ⟨c', b₂', _, _, Record.run_bind_eq_ok_iff.mpr ⟨a', b₁', hrun₁', hrun₂'⟩, hc,
      hmirrors.trans hmirrors'⟩
  lift x b b' a b₁ _ hrun := by
    cases x with
    | error e => contradiction
    | ok a₁ =>
      cases hrun
      exact ⟨_, b', 0, [], rfl, rfl, .refl b b'⟩
  throw e R b b' a b₁ _ hrun := by contradiction
  len h := by
    rw [h.eq]
    rfl
  requireHeadroom {P} _ b b' _ b₁ _ hrun := by
    obtain ⟨u, b₁', hrun'⟩ := (Returns.requireHeadroom P).returns b'
    obtain ⟨hcells, hinstructions⟩ := Record.of_requireHeadroom hrun
    obtain ⟨hcells', hinstructions'⟩ := Record.of_requireHeadroom hrun'
    exact ⟨(), b₁', 0, [], hrun', trivial, hcells, hcells', by simp [hinstructions],
      by simp [hinstructions']⟩
  alloc k b b' r b₁ hb hrun := by
    obtain ⟨rfl, hadds⟩ := (Record.AddsAt.alloc b.numCells k).of_run hrun
    obtain ⟨b₁', hrun', hadds'⟩ := Record.AddsAt.alloc b'.numCells k b' rfl
    exact ⟨_, b₁', _, _, hrun', hb.moves k.size, .of_allocation hb hadds hadds'⟩
  allocArray {k} length hk b b' a b₁ hb hrun := by
    obtain ⟨rfl, hadds⟩ := (Record.AddsAt.allocArray b.numCells hk length).of_run hrun
    obtain ⟨b₁', hrun', hadds'⟩ := Record.AddsAt.allocArray b'.numCells hk length b' rfl
    exact ⟨_, b₁', _, _, hrun', ⟨⟨hb.moves length, rfl⟩, Nat.le_refl _⟩,
      .of_allocation hb hadds hadds'⟩
  append {i i'} h b b' _ b₁ _ hrun := by
    obtain ⟨-, hadds⟩ := (Record.AddsAt.append b.numCells i).of_run hrun
    obtain ⟨b₁', hrun', hadds'⟩ := Record.AddsAt.append b'.numCells i' b' rfl
    rw [h.eq_relocate] at hadds'
    exact ⟨(), b₁', _, _, hrun', trivial, .of_adds hadds hadds'⟩

end PrimitiveLogic

end Moves

def placement (inputs : List CellSlice) (offset j : Nat) : Nat :=
  let cells := inputs.flatMap (·.indices)
  cells.getD j (offset + (j - cells.length))

def consecutive : Nat → List CellSlice → List CellSlice
  | _, [] => []
  | k, s :: ss => ⟨k, s.len⟩ :: consecutive (k + s.len) ss

theorem placement_input (ss ss' : List CellSlice) (s : CellSlice) (offset : Nat) {j : Nat} (hj : j < s.len) :
    placement (ss ++ s :: ss') offset ((ss.flatMap (·.indices)).length + j) = s.start + j := by
  have hj' : j < s.indices.length := by rwa [CellSlice.length_indices]
  unfold placement
  dsimp only
  rw [List.flatMap_append, List.flatMap_cons, List.getD_eq_getElem?_getD,
    List.getElem?_append_right (Nat.le_add_right _ _), Nat.add_sub_cancel_left,
    List.getElem?_append_left hj', List.getElem?_eq_getElem hj']
  simp [CellSlice.indices]

theorem placement_internal (ss : List CellSlice) (offset j : Nat) :
    placement ss offset ((ss.flatMap (·.indices)).length + j) = offset + j := by
  unfold placement
  dsimp only
  rw [List.getD_eq_getElem?_getD, List.getElem?_eq_none (Nat.le_add_right _ _), Nat.add_sub_cancel_left]
  rfl

theorem moves_placement (ss ss' : List CellSlice) (offset : Nat) (h : ∀ s ∈ ss', 0 < s.len) :
    List.Forall₂ (CellSlice.Moves (placement (ss ++ ss') offset))
      (consecutive (ss.flatMap (·.indices)).length ss') ss' := by
  induction ss' generalizing ss with
  | nil => exact .nil
  | cons s ss' ih =>
    rw [List.forall_mem_cons] at h
    refine .cons ⟨?_, fun j hj => placement_input ss ss' s offset hj⟩ ?_
    · have hfirst : placement (ss ++ s :: ss') offset (ss.flatMap (·.indices)).length = s.start :=
        placement_input ss ss' s offset h.1
      unfold CellSlice.relocate
      rw [hfirst]
    · have hrest := ih (ss ++ [s]) h.2
      rw [List.append_assoc, List.flatMap_append, List.length_append, List.flatMap_singleton,
        CellSlice.length_indices] at hrest
      exact hrest

namespace Component

variable {ι ο : Type} {c : Component ι ο} {slices : ι → List CellSlice} {n : Nat}

/--
Every invocation is a copy of the first one. It adds as many cells as a scratch recording, and the same
instructions, with the scratch inputs renamed to the given ones and all other cells shifted.
-/
def PositionIndependent (c : Component ι ο) (slices : ι → List CellSlice) : Prop :=
  ∀ n, c.cellsAmount = .ok n → ∃ before after, c.sample = .ok (before, after) ∧
    (∀ input b, ∃ output b', (c.generate input).run b = .ok (output, b') ∧
      b'.numCells = b.numCells + n ∧
      b'.instructions.toList = b.instructions.toList ++
        (after.instructions.toList.drop before.instructions.size).map
          (Instruction.relocate (placement (slices input) b.numCells))) ∧
    ∀ (inputs : List ι) (b : Builder), ∃ outputs b',
      (inputs.mapM c.generate).run b = .ok (outputs, b') ∧
        b'.numCells = b.numCells + inputs.length * n

theorem mapM_of_forall (h : ∀ input b, ∃ output b', (c.generate input).run b = .ok (output, b') ∧
    b'.numCells = b.numCells + n) (inputs : List ι) (b : Builder) :
    ∃ outputs b', (inputs.mapM c.generate).run b = .ok (outputs, b') ∧
      b'.numCells = b.numCells + inputs.length * n := by
  induction inputs generalizing b with
  | nil => exact ⟨[], b, rfl, by simp⟩
  | cons input inputs ih =>
    obtain ⟨output, b₁, hrun, hcells⟩ := h input b
    obtain ⟨outputs, b₂, hrun', hcells'⟩ := ih b₁
    refine ⟨output :: outputs, b₂, ?_, ?_⟩
    · rw [List.mapM_cons]
      refine Record.run_bind_eq_ok_iff.mpr ⟨output, b₁, hrun, ?_⟩
      exact Record.run_bind_eq_ok_iff.mpr ⟨outputs, b₂, hrun', rfl⟩
    · rw [hcells', hcells, List.length_cons, Nat.succ_mul]
      omega

theorem positionIndependent_of_step {input : ι} {rules : List Instruction} {m : Nat}
    (hadds : c.allocInput.AddsAt 0 input m rules)
    (hslices : ∀ input', slices input = consecutive 0 (slices input') ∧
      ((slices input').flatMap (·.indices)).length = m)
    (hpos : ∀ output before after, (c.generate input).run before = .ok (output, after) →
      ∀ input', ∀ s ∈ slices input', 0 < s.len)
    (hstep : ∀ f input', List.Forall₂ (CellSlice.Moves f) (slices input) (slices input') →
      ∃ R, (PrimitiveLogic.relocating f).Step (c.generate input) (c.generate input') R) :
    c.PositionIndependent slices := by
  intro n hn
  obtain ⟨⟨before, after⟩, hsample, hn⟩ := bind_eq_ok_iff.mp hn
  cases hn
  obtain ⟨⟨input₀, before₀⟩, hinput, hrest⟩ := bind_eq_ok_iff.mp hsample
  obtain ⟨⟨output, after₀⟩, hgenerate, hrest⟩ := bind_eq_ok_iff.mp hrest
  cases hrest
  obtain ⟨rfl, hbefore⟩ := hadds.of_run (b := .empty) hinput
  have hcells : before.numCells = m := hbefore.numCells.trans (Nat.zero_add m)
  -- The sample starts at the first cell. A use elsewhere is the sample moved by the placement of its
  -- inputs, so one run of the generator decides all.
  have hsingle : ∀ input b, ∃ output b', (c.generate input).run b = .ok (output, b') ∧
      b'.numCells = b.numCells + (after.numCells - before.numCells) ∧
      b'.instructions.toList = b.instructions.toList ++
        (after.instructions.toList.drop before.instructions.size).map
          (Instruction.relocate (placement (slices input) b.numCells)) := by
    intro input' b
    obtain ⟨hscratch, hlen⟩ := hslices input'
    have hmoves := moves_placement [] (slices input') b.numCells (hpos _ _ _ hgenerate input')
    have haligned : before.Aligned (placement (slices input') b.numCells) b := by
      intro j
      rw [hcells, ← hlen]
      exact placement_internal _ _ j
    rw [hscratch] at hstep
    rw [List.nil_append] at hmoves
    obtain ⟨R, hstep⟩ := hstep _ input' hmoves
    obtain ⟨output', b', n, is, hrun, -, hmirrors⟩ := hstep before b output after haligned hgenerate
    refine ⟨output', b', hrun, ?_, ?_⟩
    · rw [hmirrors.numCells', hmirrors.numCells, Nat.add_sub_cancel_left]
    · rw [hmirrors.instructions', hmirrors.instructions, ← Array.length_toList, List.drop_left]
  refine ⟨before, after, hsample, hsingle, fun inputs b => mapM_of_forall (fun input b => ?_) inputs b⟩
  obtain ⟨output', b', hrun, hadded, -⟩ := hsingle input b
  exact ⟨output', b', hrun, hadded⟩

theorem pointSum_positionIndependent (E : CurveParams) :
    (pointSum E).PositionIndependent fun input => input.1.slices ++ input.2.slices := by
  refine positionIndependent_of_step (addsAt_summands E) (fun input => ?_)
    (fun output before after hrun input => ?_) fun f input h => ?_
  · simp [summands, PointRegister.slices, PointRegister.ofCell, Register.slice, Kind.size, consecutive,
      Nat.add_assoc]
  · have hE : E.Addable :=
      Needs.needs (g := Gadget.addPoint E (summands E).1 (summands E).2) hrun
    simpa [PointRegister.slices, Register.slice, Kind.size] using
      Nat.pos_of_ne_zero hE.comparable.limbs_ne_zero
  · simp only [PointRegister.slices, List.cons_append, List.nil_append, List.forall₂_cons] at h
    obtain ⟨hpx, hpy, hqx, hqy, -⟩ := h
    exact ⟨_, RecordLogic.addPoint (L := (PrimitiveLogic.relocating f).toRecordLogic) trivial
      ⟨hpx, hpy⟩ ⟨hqx, hqy⟩⟩

theorem scalarMul_positionIndependent (E : CurveParams) :
    (scalarMul E).PositionIndependent fun input => input.1.slice :: input.2.slices := by
  refine positionIndependent_of_step (addsAt_operands E) (fun input => ?_)
    (fun output before after hrun input => ?_) fun f input h => ?_
  · simp [operands, PointRegister.slices, PointRegister.ofCell, Register.slice, Kind.size, consecutive]
  · have hE : E.Scalable :=
      Needs.needs (g := Gadget.scalarMul E (operands E).1 (operands E).2) hrun
    simpa [PointRegister.slices, Register.slice, Kind.size] using
      ⟨Nat.pos_of_ne_zero hE.scalar_comparable.limbs_ne_zero,
        Nat.pos_of_ne_zero hE.comparable.limbs_ne_zero⟩
  · simp only [PointRegister.slices, List.forall₂_cons] at h
    obtain ⟨hs, hpx, hpy, -⟩ := h
    exact ⟨_, RecordLogic.scalarMul (L := (PrimitiveLogic.relocating f).toRecordLogic) trivial trivial
      hs ⟨hpx, hpy⟩⟩

end Component

end ForeignCurve
