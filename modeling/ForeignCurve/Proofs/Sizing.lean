import ForeignCurve.Proofs.Gadget.Report
import ForeignCurve.Proofs.Recording
import ForeignCurve.Proofs.Relocation
import ForeignCurve.Proofs.Width.Pass

/-!
The size of a component is that of its circuit and of its table. The last cell that a recording
allocates is both constrained and written.
-/

namespace ForeignCurve

-- the instance for the rest of a gadget is as large as the gadget is long
set_option synthInstance.maxSize 1000000

variable {α β : Type}

class Widens (g : Record α) : Prop where
  widens : ∀ {b : Builder} {a : α} {b' : Builder}, g.run b = .ok (a, b') → b.numCells < b'.numCells

namespace Widens

instance bind_left (g : Record α) (f : α → Record β) [hg : Widens g] [hf : ∀ a, Grows (f a)] :
    Widens (g >>= f) where
  widens h := by
    obtain ⟨a, b', hrun, h⟩ := Record.run_bind_eq_ok_iff.mp h
    exact Nat.lt_of_lt_of_le (hg.widens hrun) ((hf a).grows h).numCells

instance bind_right (g : Record α) (f : α → Record β) [hg : Grows g] [hf : ∀ a, Widens (f a)] :
    Widens (g >>= f) where
  widens h := by
    obtain ⟨a, b', hrun, h⟩ := Record.run_bind_eq_ok_iff.mp h
    exact Nat.lt_of_le_of_lt (hg.grows hrun).numCells ((hf a).widens h)

theorem alloc {k : Kind} (h : 0 < k.size) : Widens (Record.alloc k) where
  widens {b a b'} hrun := by
    obtain ⟨-, hadds⟩ := (Record.AddsAt.alloc b.numCells k).of_run hrun
    rw [hadds.numCells]
    omega

instance assertCanonical {P : FieldParams} (a : FieldRegister P) : Widens (Gadget.assertCanonical a) where
  widens hrun := by
    have hcomparable : P.Comparable := Needs.needs hrun
    have halloc : Widens (Record.alloc (.field P)) :=
      alloc (Nat.pos_of_ne_zero hcomparable.limbs_ne_zero)
    unfold Gadget.assertCanonical at hrun
    exact widens hrun

instance completeSum (E : CurveParams) (p q : PointRegister E.base) :
    Widens (Gadget.completeSum E p q) := by
  unfold Gadget.completeSum
  infer_instance

instance addPoint (E : CurveParams) (p q : PointRegister E.base) : Widens (Gadget.addPoint E p q) := by
  unfold Gadget.addPoint
  infer_instance

instance scalarMul (E : CurveParams) (scalar : FieldRegister E.scalar) (point : PointRegister E.base) :
    Widens (Gadget.scalarMul E scalar point) := by
  unfold Gadget.scalarMul
  infer_instance

end Widens

structure Builder.Sealed (n k : Nat) (b : Builder) : Prop where
  wellFormed : ∀ i ∈ b.instructions.toList, i.WellFormed
  stop_le : ∀ i ∈ b.instructions.toList, ∀ s ∈ i.runs, s.stop ≤ n
  last : b.numCells = k ∨ (∃ i ∈ b.instructions.toList, i.Pins (b.numCells - 1)) ∧
    ∃ i ∈ b.instructions.toList, ∃ first, i.Fills first b.numCells ∧ first < b.numCells

namespace Builder.Sealed

variable {n k : Nat} {b b' : Builder}

theorem block (h : b.Sealed n k) {operands : List CellSlice} {m : Nat} {rules : List Instruction}
    {i : Instruction} (hadds : b.Adds m (rules ++ [i]) b')
    (hblock : Block operands b.numCells (b.numCells + m) rules i)
    (hoperands : ∀ s ∈ operands, s.stop ≤ n) (hle : b'.numCells ≤ n) : b'.Sealed n k := by
  rw [hadds.numCells] at hle
  have hmem : ∀ j ∈ rules ++ [i], j ∈ b'.instructions.toList := by
    rw [hadds.instructions]
    exact fun j hj => List.mem_append_right _ hj
  have hold : ∀ j ∈ b.instructions.toList, j ∈ b'.instructions.toList := by
    rw [hadds.instructions]
    exact fun j hj => List.mem_append_left _ hj
  refine ⟨?_, ?_, ?_⟩
  · rw [hadds.instructions, List.forall_mem_append]
    exact ⟨h.wellFormed, hblock.wellFormed_of_mem⟩
  · rw [hadds.instructions, List.forall_mem_append]
    exact ⟨h.stop_le, hblock.stop_le_of_mem hoperands hle⟩
  · rw [hadds.numCells]
    by_cases hm : m = 0
    · subst hm
      rw [Nat.add_zero]
      refine h.last.imp_right ?_
      rintro ⟨⟨p, hp, hpins⟩, f, hf, hfills⟩
      exact ⟨⟨p, hold p hp, hpins⟩, f, hold f hf, hfills⟩
    · obtain ⟨j, hj, hpins⟩ := hblock.pinned (by omega)
      exact .inr ⟨⟨j, hmem j hj, hpins⟩, i, hmem i (by simp), b.numCells, hblock.fills, by omega⟩

end Builder.Sealed

def Carrier.sealing (n k : Nat) : Carrier where
  Known s := s.stop ≤ n
  Covers b := b.numCells ≤ n
  Reaches := Builder.Sealed n k
  part {s first len} hs hlen := by
    unfold CellSlice.stop at hs ⊢
    dsimp only
    omega
  covers h hb' := Nat.le_trans h.numCells hb'
  block hb hcovers hadds hblock hoperands :=
    ⟨hb.block hadds hblock hoperands hcovers, fun _ hs => Nat.le_trans hs hcovers⟩

namespace Chip

open TraceM

variable {b : Builder} {c : Chip} {k : Nat} (hsealed : b.Sealed b.numCells k) (hk : k < b.numCells)
  (hbuild : b.build = .ok c) {l : Layout} (hwidth : c.manifest.required ≤ l.width)

include hsealed hbuild

theorem contained_of_sealed : c.Contained := by
  obtain ⟨-, rfl⟩ := Builder.build_eq_ok_iff.mp hbuild
  exact hsealed.stop_le

include hwidth

theorem exists_emit_of_sealed : ∃ circuit, c.emit l.width = .ok circuit := by
  have hcircuit : ∀ i ∈ c.instructions.toList, ∃ c', i.circuit l c.numCells = .ok c' := by
    obtain ⟨-, rfl⟩ := Builder.build_eq_ok_iff.mp hbuild
    exact fun i hi => Instruction.exists_circuit (hsealed.wellFormed i hi) (hsealed.stop_le i hi) l
  obtain ⟨cs, hcs⟩ := exists_forall₂ hcircuit
  exact ⟨_, (emit_eq_ok_iff hwidth).mpr ⟨cs, hcs, rfl⟩⟩

include hk

theorem rowsAmount_circuit_of_sealed {circuit : Circuit} (hemit : c.emit l.width = .ok circuit) :
    circuit.rowsAmount = l.rowsAmount c.numCells := by
  have hcontained := contained_of_sealed hsealed hbuild
  obtain ⟨-, rfl⟩ := Builder.build_eq_ok_iff.mp hbuild
  obtain hnone | ⟨⟨i, hi, hpins⟩, -⟩ := hsealed.last
  · omega
  · refine (rowsAmount_circuit_eq_iff hwidth hemit hcontained).mpr
      (.inr ⟨l.cell (b.numCells - 1), ?_, ?_⟩)
    · exact refers_of_pins hwidth hemit hi hpins
    · exact l.row_cell_last (by omega)

theorem numRows_of_sealed (entries : List Entry) {t : Trace}
    (hwrite : c.writeWitness (attemptAll (entries.map Entry.write) (.empty l c.numCells)).2 = .ok () t) :
    t.table.numRows = l.rowsAmount c.numCells := by
  obtain ⟨-, rfl⟩ := Builder.build_eq_ok_iff.mp hbuild
  refine (alike_writeWitness (alike_entries l b.numCells entries) hwrite).numRows_eq fun j hj => ?_
  obtain hnone | ⟨-, i, hi, first, hfills, hlt⟩ := hsealed.last
  · omega
  · obtain ⟨t₁, t₂, -, hi, hextends⟩ := (writeWitness_eq_ok_iff.mp hwrite).exists_write hi
    have hassigned : (t₂.store j).isSome := hfills.assigned hi (by omega) (by omega)
    obtain ⟨x, hx⟩ := Option.isSome_iff_exists.mp hassigned
    rw [hextends.store j x hx]
    rfl

end Chip

namespace Component

variable {ι ο : Type} {c : Component ι ο}

/--
On the chip that holds one invocation, the component, the chip, its circuit and its table after a
witness pass all have the same number of rows.
-/
def RowsCoincide (c : Component ι ο) : Prop :=
  ∀ m, c.manifest = .ok m → ∀ l : Layout, m.minWidth ≤ l.width →
    ∃ before after chip circuit t₀, c.sample = .ok (before, after) ∧ after.build = .ok chip ∧
      chip.emit l.width = .ok circuit ∧ chip.newTrace l.width = .ok t₀ ∧
      c.rowsAmount l.width = .ok circuit.rowsAmount ∧
      chip.rowsAmount l.width = .ok circuit.rowsAmount ∧
      ∀ (entries : List Entry) (t : Trace),
        chip.writeWitness (TraceM.attemptAll (entries.map Entry.write) t₀).2 = .ok () t →
          t.table.numRows = circuit.rowsAmount

theorem rowsCoincide_of_step {input : ι} {n : Nat} {rules : List Instruction} {slices : List CellSlice}
    (hadds : c.allocInput.AddsAt 0 input n rules) (hrules : ∀ i ∈ rules, i.IsRule n)
    (hslices : ∀ s ∈ slices, s.stop ≤ n) [Widens (c.generate input)]
    (hcarried : ∀ v : Carrier, (∀ s ∈ slices, v.Known s) →
      ∃ R, v.logic.Step (c.generate input) (c.generate input) R)
    (hreported : ∃ R, (PrimitiveLogic.reporting fun P => P.headroom = .ok ()).Step
      (c.generate input) (c.generate input) R) : c.RowsCoincide := by
  intro m hm l hl
  obtain ⟨⟨before, after⟩, hsample, hm⟩ := bind_eq_ok_iff.mp hm
  cases hm
  obtain ⟨⟨input₀, before₀⟩, hinput, hrest⟩ := bind_eq_ok_iff.mp hsample
  obtain ⟨⟨output, after₀⟩, hgenerate, hrest⟩ := bind_eq_ok_iff.mp hrest
  cases hrest
  obtain ⟨rfl, hbefore⟩ := hadds.of_run (b := .empty) hinput
  have hcells : before.numCells = n := hbefore.numCells.trans (Nat.zero_add n)
  have hwidens : before.numCells < after.numCells := Widens.widens hgenerate
  have hfault : after.headroomFault? = none := by
    obtain ⟨R, hstep⟩ := hreported
    obtain ⟨hreports, -⟩ := hstep before output after hgenerate
    rw [hreports.eq_of_headroom fun P hP => hP, hbefore.headroomFault?]
    rfl
  -- The operands of the generator are the cells of the input, so every later instruction stays inside
  -- the cells that exist when it is recorded.
  have hsealed : after.Sealed after.numCells before.numCells := by
    obtain ⟨R, hstep⟩ := hcarried (.sealing after.numCells before.numCells) fun s hs =>
      Nat.le_trans (hslices s hs) (by omega)
    refine (hstep hgenerate (Nat.le_refl _) ?_).1
    have hinstructions : before.instructions.toList = rules := hbefore.instructions
    refine ⟨?_, ?_, .inl rfl⟩
    · rw [hinstructions]
      exact fun i hi => (hrules i hi).wellFormed
    · rw [hinstructions]
      exact fun i hi s hs => Nat.le_trans ((hrules i hi).stop_le s hs) (by omega)
  have hbuild : after.build = .ok ⟨after.instructions, after.numCells, after.manifest⟩ :=
    Builder.build_eq_ok_iff.mpr ⟨hfault, rfl⟩
  have hwidth : after.manifest.required ≤ l.width := Nat.max_le.mpr ⟨hl, l.width_pos⟩
  obtain ⟨circuit, hemit⟩ := Chip.exists_emit_of_sealed hsealed hbuild hwidth
  have hrows := Chip.rowsAmount_circuit_of_sealed hsealed hwidens hbuild hwidth hemit
  refine ⟨before, after, _, circuit, .empty l after.numCells, hsample, hbuild, hemit, ?_, ?_, ?_,
    fun entries t hwrite => ?_⟩
  · rw [Chip.newTrace, Chip.layout_eq_ok _ hwidth]
    rfl
  · rw [hrows, rowsAmount, hsample, Layout.ofWidth, dif_pos l.width_pos]
    rfl
  · rw [hrows, Chip.rowsAmount, Layout.ofWidth, dif_pos l.width_pos]
    rfl
  · rw [hrows]
    exact Chip.numRows_of_sealed hsealed hwidens hbuild hwidth entries hwrite

instance (E : CurveParams) (i : PointRegister E.base × PointRegister E.base) :
    Widens ((pointSum E).generate i) :=
  Widens.addPoint E i.1 i.2

instance (E : CurveParams) (i : FieldRegister E.scalar × PointRegister E.base) :
    Widens ((scalarMul E).generate i) :=
  Widens.scalarMul E i.1 i.2

theorem pointSum_rowsCoincide {E : CurveParams} (hE : E.base.headroom = .ok ()) :
    (pointSum E).RowsCoincide := by
  have hslices : ∀ s ∈ (summands E).1.slices ++ (summands E).2.slices,
      s.stop ≤ E.base.limbs + E.base.limbs + (E.base.limbs + E.base.limbs) := by
    simp [summands, PointRegister.slices, PointRegister.ofCell, Register.slice, Kind.size, CellSlice.stop]
    omega
  refine rowsCoincide_of_step (addsAt_summands E) ?_ hslices (fun v hv => ?_) ?_
  · unfold summandRules
    rw [List.forall_mem_append]
    exact ⟨.of_mem_pointRules (by omega), .of_mem_pointRules (by omega)⟩
  · rw [List.forall_mem_append] at hv
    exact ⟨_, RecordLogic.addPoint hE (Carrier.samePoint hv.1) (Carrier.samePoint hv.2)⟩
  · let L := (PrimitiveLogic.reporting fun P => P.headroom = .ok ()).toRecordLogic
    exact ⟨_, RecordLogic.addPoint (L := L) hE ⟨rfl, rfl⟩ ⟨rfl, rfl⟩⟩

theorem scalarMul_rowsCoincide {E : CurveParams} (hE : E.base.headroom = .ok ())
    (hS : E.scalar.headroom = .ok ()) : (scalarMul E).RowsCoincide := by
  have hslices : ∀ s ∈ (operands E).1.slice :: (operands E).2.slices,
      s.stop ≤ E.scalar.limbs + (E.base.limbs + E.base.limbs) := by
    simp [operands, PointRegister.slices, PointRegister.ofCell, Register.slice, Kind.size, CellSlice.stop]
    omega
  refine rowsCoincide_of_step (addsAt_operands E) ?_ hslices (fun v hv => ?_) ?_
  · unfold operandRules
    rw [List.forall_mem_append]
    exact ⟨.of_mem_fieldRules (by omega), .of_mem_pointRules (by omega)⟩
  · rw [List.forall_mem_cons] at hv
    exact ⟨_, RecordLogic.scalarMul hS hE (Carrier.same hv.1) (Carrier.samePoint hv.2)⟩
  · let L := (PrimitiveLogic.reporting fun P => P.headroom = .ok ()).toRecordLogic
    exact ⟨_, RecordLogic.scalarMul (L := L) hS hE rfl ⟨rfl, rfl⟩⟩

/--
The sizes of the components are exact, wherever they are recorded, and no circuit of registers that are
all in their arena is larger than the arena.
-/
theorem sizes_exact (E : CurveParams) :
    (pointSum E).PositionIndependent (fun input => input.1.slices ++ input.2.slices) ∧
    (scalarMul E).PositionIndependent (fun input => input.1.slice :: input.2.slices) ∧
    (E.base.headroom = .ok () → (pointSum E).RowsCoincide) ∧
    (E.base.headroom = .ok () → E.scalar.headroom = .ok () → (scalarMul E).RowsCoincide) ∧
    ∀ (c : Chip) (l : Layout) (circuit : Circuit), c.Contained → c.manifest.required ≤ l.width →
      c.emit l.width = .ok circuit →
        (∀ cell, circuit.Refers cell → cell.row < l.rowsAmount c.numCells) ∧
        (circuit.rowsAmount = l.rowsAmount c.numCells ↔
          c.numCells = 0 ∨ ∃ cell, circuit.Refers cell ∧ cell.row + 1 = l.rowsAmount c.numCells) := by
  refine ⟨pointSum_positionIndependent E, scalarMul_positionIndependent E, pointSum_rowsCoincide,
    scalarMul_rowsCoincide, fun c l circuit hcontained hwidth hemit => ⟨fun cell hcell => ?_, ?_⟩⟩
  · exact Nat.lt_of_lt_of_le (Circuit.row_lt_rowsAmount hcell)
      (Chip.rowsAmount_circuit_le hwidth hemit hcontained)
  · exact Chip.rowsAmount_circuit_eq_iff hwidth hemit hcontained

theorem sizes_exact_tinyCurve :
    let E := CurveParams.tinyCurve
    let bit : Chip := ⟨#[.boolean ⟨0, 1⟩], 1, ⟨1⟩⟩
    let column : Layout := ⟨1, Nat.one_pos⟩
    E.base.headroom = .ok () ∧ E.scalar.headroom = .ok () ∧
      (∃ n m, (scalarMul E).cellsAmount = .ok n ∧ (scalarMul E).manifest = .ok m ∧
        (∀ input b, ∃ output b', ((scalarMul E).generate input).run b = .ok (output, b') ∧
          b'.numCells = b.numCells + n) ∧
        ∀ l : Layout, m.minWidth ≤ l.width → ∃ (chip : Chip) (circuit : Circuit),
          chip.emit l.width = .ok circuit ∧
          (scalarMul E).rowsAmount l.width = .ok circuit.rowsAmount ∧
          chip.rowsAmount l.width = .ok circuit.rowsAmount) ∧
      ∃ circuit, bit.Contained ∧ bit.emit column.width = .ok circuit ∧
        ∀ cell, circuit.Refers cell → cell.row < column.rowsAmount bit.numCells := by
  intro E bit column
  have hbase : E.base.headroom = .ok () := CurveParams.PrimeOrder.base_headroom
  have hscalar : E.scalar.headroom = .ok () := CurveParams.PrimeOrder.scalar_headroom
  obtain ⟨r⟩ := exists_recorded (c := scalarMul E) (addsAt_operands E)
  have hcells : (scalarMul E).cellsAmount = .ok (r.after.numCells - r.before.numCells) :=
    bind_eq_ok_iff.mpr ⟨_, r.sample_eq, rfl⟩
  have hbit : bit.Contained := by
    intro i hi s hs
    obtain rfl := List.mem_singleton.mp hi
    obtain rfl := List.mem_singleton.mp hs
    exact Nat.le_refl 1
  obtain ⟨-, hposition, -, hrows, hbound⟩ := sizes_exact E
  obtain ⟨before, after, -, hinvocation, -⟩ := hposition _ hcells
  refine ⟨hbase, hscalar, ⟨_, _, hcells, r.manifest_eq, fun input b => ?_, fun l hl => ?_⟩, _, hbit, rfl,
    (hbound bit column _ hbit (by decide) rfl).1⟩
  · obtain ⟨output, b', hrun, hadded, -⟩ := hinvocation input b
    exact ⟨output, b', hrun, hadded⟩
  · obtain ⟨_, _, chip, circuit, _, -, -, hemit, -, hcomponent, hchip, -⟩ :=
      hrows hbase hscalar _ r.manifest_eq l hl
    exact ⟨chip, circuit, hemit, hcomponent, hchip⟩

end Component

end ForeignCurve
