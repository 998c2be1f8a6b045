import ForeignCurve.Proofs.Component

/-!
Straight-line programs over a foreign field, and their compilation into gadgets. A program computes in
`ZMod p`; the registers of its circuit hold the same values in every accepted table, up to multiples of
`p`, and in canonical limbs in every table that the witness pass fills.
-/

namespace ForeignCurve

structure Wires (β φ : Type) (m n : Nat) where
  bits : Vector β m
  fields : Vector φ n

namespace Wires

variable {β φ : Type} {m n : Nat}

def empty : Wires β φ 0 0 :=
  ⟨#v[], #v[]⟩

def pushBit (w : Wires β φ m n) (b : β) : Wires β φ (m + 1) n :=
  { w with bits := w.bits.push b }

def pushField (w : Wires β φ m n) (x : φ) : Wires β φ m (n + 1) :=
  { w with fields := w.fields.push x }

def popBit (w : Wires β φ (m + 1) n) : Wires β φ m n :=
  { w with bits := w.bits.pop }

def popField (w : Wires β φ m (n + 1)) : Wires β φ m n :=
  { w with fields := w.fields.pop }

@[simp]
theorem popBit_pushBit (w : Wires β φ m n) (b : β) : (w.pushBit b).popBit = w := by
  simp [pushBit, popBit]

@[simp]
theorem back_pushBit (w : Wires β φ m n) (b : β) : (w.pushBit b).bits.back = b := by
  simp [pushBit, Vector.back]

@[simp]
theorem back_pushField (w : Wires β φ m n) (x : φ) : (w.pushField x).fields.back = x := by
  simp [pushField, Vector.back]

@[simp]
theorem pushBit_popBit (w : Wires β φ (m + 1) n) : w.popBit.pushBit w.bits.back = w := by
  simp [pushBit, popBit]

@[simp]
theorem popField_pushField (w : Wires β φ m n) (x : φ) : (w.pushField x).popField = w := by
  simp [pushField, popField]

@[simp]
theorem pushField_popField (w : Wires β φ m (n + 1)) : w.popField.pushField w.fields.back = w := by
  simp [pushField, popField]

theorem eq_empty (w : Wires β φ 0 0) : w = .empty := by
  obtain ⟨bits, fields⟩ := w
  simp [empty]

end Wires

abbrev WireRegisters (P : FieldParams) := Wires (Register .bit) (FieldRegister P)

inductive Op (m n : Nat) where
  | constant (value : Nat)
  | add (a b : Fin n)
  | sub (a b : Fin n)
  | neg (a : Fin n)
  | mul (a b : Fin n)
  | select (bit : Fin m) (ifTrue ifFalse : Fin n)
  | blend (selector a b : Fin n)

namespace Op

variable {m n : Nat}

def value {R : Type} [CommRing R] (v : Wires Bool R m n) : Op m n → R
  | constant value => (value : R)
  | add a b => v.fields[a] + v.fields[b]
  | sub a b => v.fields[a] - v.fields[b]
  | neg a => -v.fields[a]
  | mul a b => v.fields[a] * v.fields[b]
  | select bit ifTrue ifFalse => if v.bits[bit] then v.fields[ifTrue] else v.fields[ifFalse]
  | blend selector a b => v.fields[b] + v.fields[selector] * (v.fields[a] - v.fields[b])

def record {P : FieldParams} (r : WireRegisters P m n) : Op m n → Record (FieldRegister P)
  | constant value => Gadget.constant P value
  | add a b => Gadget.add r.fields[a] r.fields[b]
  | sub a b => Gadget.sub r.fields[a] r.fields[b]
  | neg a => Gadget.neg r.fields[a]
  | mul a b => Gadget.mul r.fields[a] r.fields[b]
  | select bit ifTrue ifFalse => Gadget.select r.bits[bit] r.fields[ifTrue] r.fields[ifFalse]
  | blend selector a b => Gadget.blend r.fields[selector] r.fields[a] r.fields[b]

end Op

/-- A sequence of operations. The result of each one is an element that all later ones can use. -/
inductive Program (m : Nat) : Nat → Type where
  | done {n : Nat} : Program m n
  | step {n : Nat} (op : Op m n) (rest : Program m (n + 1)) : Program m n

namespace Program

variable {m : Nat}

def run {R : Type} [CommRing R] : {n : Nat} → Program m n → Wires Bool R m n → List R
  | _, done, v => v.fields.toList
  | _, step op rest, v => rest.run (v.pushField (op.value v))

def record {P : FieldParams} :
    {n : Nat} → Program m n → WireRegisters P m n → Record (List (FieldRegister P))
  | _, done, r => return r.fields.toList
  | _, step op rest, r => do rest.record (r.pushField (← op.record r))

end Program

inductive Inputs : Nat → Nat → Type where
  | none : Inputs 0 0
  | bit {m n : Nat} (rest : Inputs m n) : Inputs (m + 1) n
  | field {m n : Nat} (rest : Inputs m n) : Inputs m (n + 1)

namespace Inputs

variable {P : FieldParams}

def alloc (P : FieldParams) : {m n : Nat} → Inputs m n → Record (WireRegisters P m n)
  | _, _, none => return .empty
  | _, _, bit rest => do
    let r ← rest.alloc P
    let b ← Record.alloc .bit
    return r.pushBit b
  | _, _, field rest => do
    let r ← rest.alloc P
    let x ← Record.alloc (.field P)
    return r.pushField x

def write : {m n : Nat} → Inputs m n → WireRegisters P m n → Wires Bool (ZMod P.modulus) m n →
    TraceM Unit
  | _, _, none, _, _ => return
  | _, _, bit rest, r, v => do
    rest.write r.popBit v.popBit
    TraceM.write r.bits.back [Native.ofBool v.bits.back]
  | _, _, field rest, r, v => do
    rest.write r.popField v.popField
    TraceM.writeNumber r.fields.back v.fields.back.val

end Inputs

def Program.component (P : FieldParams) {m n : Nat} (ins : Inputs m n) (prog : Program m n) :
    Component (WireRegisters P m n) (List (FieldRegister P)) where
  allocInput := ins.alloc P
  generate r := prog.record r

section Recording

variable {P : FieldParams} {m n : Nat}

instance (r : WireRegisters P m n) (op : Op m n) : Grows (op.record r) := by
  cases op
  all_goals
    unfold Op.record
    infer_instance

instance (r : WireRegisters P m n) (prog : Program m n) : Grows (prog.record r) := by
  induction prog with
  | done => exact .pure _
  | step op rest ih =>
    unfold Program.record
    infer_instance

variable [P.HasHeadroom] [NeZero P.modulus]

instance (r : WireRegisters P m n) (op : Op m n) : Records (op.record r) := by
  cases op
  all_goals
    unfold Op.record
    infer_instance

instance (r : WireRegisters P m n) (prog : Program m n) : Records (prog.record r) := by
  induction prog with
  | done => exact .pure _
  | step op rest ih =>
    unfold Program.record
    infer_instance

end Recording

namespace Scenario

variable {P : FieldParams} {w : Scenario} {m n : Nat} {r : WireRegisters P m n}
  {v : Wires Bool (ZMod P.modulus) m n}

structure Carries (w : Scenario) (r : WireRegisters P m n) (v : Wires Bool (ZMod P.modulus) m n) :
    Prop where
  bit : ∀ i : Fin m, w.Bit r.bits[i] v.bits[i]
  residue : ∀ i : Fin n, w.Residue r.fields[i] v.fields[i]

theorem Carries.empty : w.Carries (P := P) .empty .empty :=
  ⟨fun i => i.elim0, fun i => i.elim0⟩

theorem Carries.pushBit (h : w.Carries r v) {b : Register .bit} {β : Bool} (hb : w.Bit b β) :
    w.Carries (r.pushBit b) (v.pushBit β) := by
  refine ⟨?_, h.residue⟩
  intro i
  simp only [Wires.pushBit, Fin.getElem_fin, Vector.getElem_push]
  split
  · next hi => exact h.bit ⟨i, hi⟩
  · exact hb

theorem Carries.pushField (h : w.Carries r v) {a : FieldRegister P} {x : ZMod P.modulus}
    (hx : w.Residue a x) : w.Carries (r.pushField a) (v.pushField x) := by
  refine ⟨h.bit, ?_⟩
  intro i
  simp only [Wires.pushField, Fin.getElem_fin, Vector.getElem_push]
  split
  · next hi => exact h.residue ⟨i, hi⟩
  · exact hx

variable [P.HasHeadroom] [NeZero P.modulus]

theorem op_spec (h : w.Carries r v) (op : Op m n) :
    w.Triple (op.record r) (fun a => w.Residue a (op.value v)) := by
  cases op with
  | constant value => exact constant_spec value
  | add a b => exact add_spec (h.residue a) (h.residue b)
  | sub a b => exact sub_spec (h.residue a) (h.residue b)
  | neg a => exact neg_spec (h.residue a)
  | mul a b => exact mul_spec (h.residue a) (h.residue b)
  | select bit a b => exact select_spec (h.bit bit) (h.residue a) (h.residue b)
  | blend selector a b => exact blend_spec (h.residue selector) (h.residue a) (h.residue b)

theorem program_spec (h : w.Carries r v) (prog : Program m n) :
    w.Triple (prog.record r) (fun rs => List.Forall₂ w.Residue rs (prog.run v)) := by
  induction prog with
  | done =>
    apply Triple.pure
    rw [List.forall₂_iff_get]
    refine ⟨by rw [Program.run, Vector.length_toList, Vector.length_toList], ?_⟩
    intro i hi _
    rw [Vector.length_toList] at hi
    exact h.residue ⟨i, hi⟩
  | step op rest ih =>
    apply Triple.bind (op_spec h op)
    intro a ha
    exact ih (h.pushField ha)

end Scenario

namespace Inputs

variable {P : FieldParams} {m n : Nat}

def size (P : FieldParams) : {m n : Nat} → Inputs m n → Nat
  | _, _, none => 0
  | _, _, bit rest => rest.size P + 1
  | _, _, field rest => rest.size P + P.limbs

def registers (P : FieldParams) : {m n : Nat} → Inputs m n → WireRegisters P m n
  | _, _, none => .empty
  | _, _, bit rest => (rest.registers P).pushBit ⟨rest.size P⟩
  | _, _, field rest => (rest.registers P).pushField ⟨rest.size P⟩

def rules (P : FieldParams) : {m n : Nat} → Inputs m n → List Instruction
  | _, _, none => []
  | _, _, bit rest => rest.rules P ++ (Record.ruleInstruction? .boolean ⟨rest.size P, 1⟩).toList
  | _, _, field rest => rest.rules P ++ Record.fieldRules P (rest.size P)

theorem exists_carries [P.HasHeadroom] {w : Scenario} (hw : ¬ w.Honest) (ins : Inputs m n)
    (hbound : ins.size P ≤ w.numCells) (h : ∀ i ∈ ins.rules P, w.Holds i) :
    ∃ v, w.Carries (ins.registers P) v := by
  induction ins with
  | none => exact ⟨.empty, .empty⟩
  | bit rest ih =>
    rw [rules, List.forall_mem_append] at h
    rw [size] at hbound
    obtain ⟨v, hv⟩ := ih (by omega) h.1
    obtain ⟨xs, hxs, hbool⟩ := (Instruction.holds_rule_boolean_iff hbound).mp h.2
    obtain ⟨β, hβ⟩ := Scenario.exists_bit (r := ⟨rest.size P⟩) hxs hbool
    exact ⟨v.pushBit β, hv.pushBit hβ⟩
  | field rest ih =>
    rw [rules, List.forall_mem_append] at h
    rw [size] at hbound
    obtain ⟨v, hv⟩ := ih (by omega) h.1
    obtain ⟨N, hN⟩ := (Scenario.holds_fieldRules_iff hbound).mp h.2
    exact ⟨v.pushField N, hv.pushField (.of_number hN fun hw' => absurd hw' hw)⟩

theorem input [P.HasHeadroom] [NeZero P.modulus] (ins : Inputs m n)
    (v : Wires Bool (ZMod P.modulus) m n) :
    Input (ins.alloc P) 0 (ins.registers P) (ins.size P) (ins.rules P)
      (ins.write (ins.registers P) v) (fun w => w.Carries (ins.registers P) v) := by
  induction ins with
  | none =>
    rw [v.eq_empty]
    refine ⟨.pure 0 _, fun i hi => absurd hi List.not_mem_nil, ?_⟩
    intro t _ hfresh
    exact ⟨t, rfl, .refl t, hfresh, fun w _ _ => ⟨.empty, fun i hi => absurd hi List.not_mem_nil⟩⟩
  -- The outermost register is allocated last, so the induction pairs it with the inputs before it.
  | bit rest ih =>
    have h := ((ih v.popBit).pair (Input.bit (0 + rest.size P) v.bits.back)).map
      fun s => s.1.pushBit s.2
    simp only [bind_assoc, pure_bind, Nat.zero_add] at h
    rw [alloc, registers, rules, size, write]
    rw [Wires.popBit_pushBit, Wires.back_pushBit]
    apply h.weaken
    intro w hw
    rw [← v.pushBit_popBit]
    exact hw.1.pushBit hw.2
  | field rest ih =>
    have hlt := ZMod.val_lt v.fields.back
    have hfits := Nat.lt_trans hlt FieldParams.modulus_lt
    have h := ((ih v.popField).pair (Input.number (0 + rest.size P) hfits)).map
      fun s => s.1.pushField s.2
    simp only [bind_assoc, pure_bind, Nat.zero_add] at h
    rw [alloc, registers, rules, size, write]
    rw [Wires.popField_pushField, Wires.back_pushField]
    apply h.weaken
    intro w hw
    rw [← v.pushField_popField]
    apply hw.1.pushField
    exact (Scenario.Residue.of_number hw.2 fun _ => hlt).congr (ZMod.natCast_zmod_val _)

end Inputs

structure Table.HoldsWires (t : Table Native) (l : Layout) {P : FieldParams} {m n : Nat}
    (r : WireRegisters P m n) (v : Wires Bool (ZMod P.modulus) m n) : Prop where
  bit : ∀ i : Fin m, t.values? l r.bits[i].slice = some [Native.ofBool v.bits[i]]
  field : ∀ i : Fin n, t.residue? l r.fields[i] = some v.fields[i].val

namespace Program

variable {P : FieldParams} {m n : Nat}

instance (ins : Inputs m n) (prog : Program m n) (r : WireRegisters P m n) :
    Grows ((prog.component P ins).generate r) :=
  inferInstanceAs (Grows (prog.record r))

instance [P.HasHeadroom] [NeZero P.modulus] (ins : Inputs m n) (prog : Program m n)
    (r : WireRegisters P m n) : Records ((prog.component P ins).generate r) :=
  inferInstanceAs (Records (prog.record r))

section

variable [P.HasHeadroom] [NeZero P.modulus] {ins : Inputs m n} {prog : Program m n}
  (r : (prog.component P ins).Recorded) {l : Layout}

theorem computes_run (hl : r.chip.manifest.required ≤ l.width)
    (v : Wires Bool (ZMod P.modulus) m n) :
    r.chip.Computes l (ins.write r.input v) fun t =>
      List.Forall₂ (fun a x => t.HoldsNumber a x.val) r.output (prog.run v) := by
  have hinput := ins.input (P := P) v
  rw [(r.before_adds hinput.adds).1]
  apply Chip.Computes.weaken (r.computes hinput hl (Q := fun w rs =>
    List.Forall₂ (fun a x => w.Number a x.val) rs (prog.run v)) ?_)
  · rintro t ⟨w, hstore, hnum, h⟩
    exact h.imp fun a x ha => ha.holdsNumber_trace hstore hnum
  · intro w hw hv
    apply Scenario.Triple.weaken (Scenario.program_spec hv prog)
    intro rs hrs
    exact hrs.imp fun _ _ h => h.number hw

theorem guarantees_run (hl : r.chip.manifest.required ≤ l.width) :
    r.chip.Guarantees l fun t => ∃ v, t.HoldsWires l r.input v ∧
      List.Forall₂ (fun a x => t.residue? l a = some x.val) r.output (prog.run v) := by
  -- a pass on any input shows that the circuit can be emitted
  apply (computes_run r hl ⟨.replicate m false, .replicate n 0⟩).guarantees hl
  intro t h
  have hadds := (ins.input (P := P) ⟨.replicate m false, .replicate n 0⟩).adds
  obtain ⟨w, hw, hstore, hbound, hrules, hpost⟩ := r.exists_accepted hadds h
  obtain ⟨v, hv⟩ := ins.exists_carries hw hbound hrules
  rw [(r.before_adds hadds).1]
  refine ⟨v, ⟨?_, fun i => (hv.residue i).residue? hstore⟩, ?_⟩
  · intro i
    apply Table.values?_eq_some (n := w.numCells)
    rw [← hstore]
    exact hv.bit i
  · apply (hpost _ (Scenario.program_spec hv prog)).imp
    exact fun a x hx => hx.residue? hstore

end

/--
The circuit of a program computes what the program does. From any inputs the witness pass writes every
element in canonical limbs, and in every accepted table every register holds its residue.
-/
theorem compiles (P : FieldParams) [P.HasHeadroom] [NeZero P.modulus] (ins : Inputs m n)
    (prog : Program m n) :
    ∃ r : (prog.component P ins).Recorded, ∀ l : Layout, r.chip.manifest.required ≤ l.width →
      (∀ v, r.chip.Computes l (ins.write r.input v) fun t =>
        List.Forall₂ (fun a x => t.HoldsNumber a x.val) r.output (prog.run v)) ∧
      r.chip.Guarantees l fun t => ∃ v, t.HoldsWires l r.input v ∧
        List.Forall₂ (fun a x => t.residue? l a = some x.val) r.output (prog.run v) := by
  obtain ⟨r⟩ := Component.exists_recorded (c := prog.component P ins)
    (ins.input (P := P) ⟨.replicate m false, .replicate n 0⟩).adds
  exact ⟨r, fun l hl => ⟨computes_run r hl, guarantees_run r hl⟩⟩

theorem compiles_tinyBase :
    let ins : Inputs 1 2 := .field (.bit (.field .none))
    let prog : Program 1 2 := .step (.sub 0 1) (.step (.mul 2 0) (.step (.select 0 3 1) .done))
    ∃ r : (prog.component CurveParams.tinyBase ins).Recorded, ∀ l : Layout,
      r.chip.manifest.required ≤ l.width →
        r.chip.Computes l (ins.write r.input ⟨#v[true], #v[(3 : ZMod 7), 5]⟩) fun t =>
          List.Forall₂ (fun a x => t.HoldsNumber a x) r.output [3, 5, 5, 1, 1] := by
  intro ins prog
  have : CurveParams.tinyBase.HasHeadroom := ⟨by decide⟩
  have : NeZero CurveParams.tinyBase.modulus := ⟨by decide⟩
  obtain ⟨r, hr⟩ := compiles CurveParams.tinyBase ins prog
  refine ⟨r, fun l hl => ?_⟩
  obtain ⟨hcomputes, -⟩ := hr l hl
  apply (hcomputes ⟨#v[true], #v[(3 : ZMod 7), 5]⟩).weaken
  intro t h
  have hrun : (prog.run ⟨#v[true], #v[(3 : ZMod 7), 5]⟩).map ZMod.val = [3, 5, 5, 1, 1] := rfl
  rw [← hrun, List.forall₂_map_right_iff]
  exact h

end Program

end ForeignCurve
