import ForeignCurve.Proofs.FoldSymmetry
import ForeignCurve.Proofs.Sizing

/-!
The fold of a scalar multiplication is unique. In every accepted table the bit that only a hint has
written is the one that belongs to the scalar, which is canonical; and the witness pass gets past the fold
exactly from canonical scalars. The points play no part in this.
-/

namespace ForeignCurve

theorem Builder.Adds.mem_of_extends {b b' b'' : Builder} {n : Nat} {is : List Instruction}
    (h : b.Adds n is b') (h' : b'.Extends b'') {i : Instruction} (hi : i ∈ is) :
    i ∈ b''.instructions.toList := by
  apply h'.instructions.subset
  rw [h.instructions]
  exact List.mem_append_right _ hi

namespace CurveParams

variable {E : CurveParams}

theorem foldedScalar_eq_min {s : Nat} (hodd : E.groupOrder % 2 = 1) (hs : s < E.groupOrder) :
    E.foldedScalar s = min s (E.groupOrder - s) := by
  unfold foldedScalar
  split
  · omega
  · omega

end CurveParams

namespace Component

variable {E : CurveParams}

structure BeginsWithFold (r : (scalarMul E).Recorded) (negate : Register .bit)
    (folded : FieldRegister E.scalar) (mid : Builder) : Prop where
  fold : (Gadget.foldScalar E r.input.1).run r.before = .ok ((negate, folded), mid)
  extends_after : mid.Extends r.after

structure ScalarGiven (r : (scalarMul E).Recorded) (xs : List Native) (t : Trace) : Prop where
  numCells : t.numCells = r.chip.numCells
  scalar : t.readSlice r.input.1.slice = .ok xs
  inRange : E.scalar.InRange xs
  fresh : t.store.Fresh r.before.numCells r.chip.numCells

variable {r : (scalarMul E).Recorded} {negate : Register .bit} {folded : FieldRegister E.scalar}
  {mid : Builder} {l : Layout} {t : Table Native}

theorem exists_beginsWithFold (hpos : 1 ≤ E.groupOrder) (r : (scalarMul E).Recorded) :
    ∃ negate folded mid, BeginsWithFold r negate folded mid := by
  obtain ⟨f, after, hsplits⟩ := exists_splits_of_pos hpos r
  obtain ⟨⟨negate, folded⟩, mid, hfold, hrest⟩ := Record.run_bind_eq_ok_iff.mp hsplits.fold
  exact ⟨negate, folded, mid, hfold, (Grows.grows hrest).trans (Grows.grows hsplits.multiply)⟩

theorem exists_emit_scalarMul (hbase : E.base.headroom = .ok ()) (hscalar : E.scalar.headroom = .ok ())
    (r : (scalarMul E).Recorded) (hl : r.chip.manifest.required ≤ l.width) :
    ∃ circuit, r.chip.emit l.width = .ok circuit := by
  have hwidth : r.after.manifest.minWidth ≤ l.width := by
    rw [r.chip_eq] at hl
    exact (Nat.le_max_left _ _).trans hl
  obtain ⟨before, after, chip, circuit, -, hsample, hbuild, hemit, -⟩ :=
    scalarMul_rowsCoincide hbase hscalar _ r.manifest_eq l hwidth
  obtain ⟨-, rfl⟩ := Prod.mk.inj (Except.ok.inj (r.sample_eq.symm.trans hsample))
  obtain rfl := Except.ok.inj (r.build_eq.symm.trans hbuild)
  exact ⟨circuit, hemit⟩

namespace BeginsWithFold

variable [hS : E.scalar.HasHeadroom] (hfold : BeginsWithFold r negate folded mid)
  (hodd : E.groupOrder % 2 = 1)

include hfold hodd

theorem folded_of_holds
    (h : ∀ i ∈ r.chip.instructions.toList, i.Holds (t.store l) r.chip.numCells) :
    ∃ s, t.number? l r.input.1 = some s ∧ s < E.groupOrder ∧
      t.values? l negate.slice = some [Native.ofBool (decide ((E.groupOrder - 1) / 2 < s))] ∧
        t.HoldsNumber l folded (min s (E.groupOrder - s)) := by
  obtain ⟨hinput, hnum, hrules⟩ := r.before_adds (addsAt_operands E)
  rw [r.chip_eq] at h
  have hbefore : r.before.Extends r.after := Grows.grows r.generate_eq
  -- An accepted table needs no pass: the rules of the scalar and of the fold are among the instructions.
  let w : Scenario := .accepted ⟨r.after.instructions.toList, r.after.numCells, t.store l, h⟩
  have hrange : ∀ i ∈ Record.fieldRules E.scalar 0, w.Holds i := by
    intro i hi
    apply h i (hbefore.instructions.subset _)
    rw [hrules]
    exact List.mem_append_left _ hi
  have hbound : 0 + E.scalar.limbs ≤ w.numCells := by
    have hle := hbefore.numCells
    change _ ≤ r.after.numCells
    omega
  obtain ⟨s, hs⟩ := (Scenario.holds_fieldRules_iff hbound).mp hrange
  have hscalar : w.Number r.input.1 s := by
    rw [hinput]
    exact hs
  obtain ⟨-, hfolded⟩ := Scenario.foldScalar_spec hodd hscalar (fun hw => absurd hw id) hfold.fold
    ⟨hfold.extends_after.instructions, hfold.extends_after.numCells⟩ trivial
  refine ⟨s, hscalar.number? rfl, hfolded.lt, ?_, ?_⟩
  · exact Table.values?_eq_some (n := w.numCells) hfolded.bit
  · rw [← CurveParams.foldedScalar_eq_min hodd hfolded.lt]
    exact hfolded.number.holdsNumber rfl

end BeginsWithFold

section Pass

variable [hS : E.scalar.HasHeadroom] {t₀ t₁ : Trace} {xs : List Native}

theorem ScalarGiven.digits_decode (h : ScalarGiven r xs t₀) :
    E.scalar.decode xs < 2 ^ E.scalar.bits ∧ E.scalar.digits (E.scalar.decode xs) = xs := by
  have hlen : xs.length = E.scalar.limbs := (Trace.readSlice_eq_ok_iff.mp h.scalar).length_eq
  exact ⟨FieldParams.decode_lt hlen h.inRange, FieldParams.digits_decode hlen h.inRange⟩

omit hS in
theorem exists_scalarGiven (r : (scalarMul E).Recorded) (l : Layout) (hlen : xs.length = E.scalar.limbs)
    (hrange : E.scalar.InRange xs) :
    ∃ t, TraceM.writeSlice r.input.1.slice xs (.empty l r.chip.numCells) = .ok () t ∧
      ScalarGiven r xs t := by
  obtain ⟨hinput, hnum, -⟩ := r.before_adds (addsAt_operands E)
  have hbefore : r.before.Extends r.after := Grows.grows r.generate_eq
  have hcells := hbefore.numCells
  rw [← r.numCells_eq, hnum] at hcells
  obtain ⟨t, hwrite, hextends, hread, hfresh⟩ :=
    TraceM.exists_writeSlice_empty l r.chip.numCells hlen (by omega)
  refine ⟨t, ?_, hextends.numCells, ?_, hrange, fun i hi hi' => hfresh i (by omega) hi'⟩
  · rw [hinput]
    exact hwrite
  · rw [hinput]
    exact hread

theorem BeginsWithFold.lt_of_steps (hfold : BeginsWithFold r negate folded mid)
    (hpos : 1 ≤ E.groupOrder) (h : ScalarGiven r xs t₀) (hsteps : Steps t₀ mid.instructions.toList t₁) :
    E.scalar.decode xs < E.groupOrder := by
  -- the sum with the complement of the order is written only if the scalar is below the order
  obtain ⟨half, b, hhalf, hrun⟩ := Record.run_bind_eq_ok_iff.mp hfold.fold
  obtain ⟨-, rfl⟩ := Record.run_lift_eq_ok_iff.mp hhalf
  obtain ⟨u, b, hcanonical, hrun⟩ := Record.run_bind_eq_ok_iff.mp hrun
  have hextends : b.Extends mid := Grows.grows hrun
  obtain ⟨-, hadds⟩ := (Scenario.addsAt_assertCanonical r.input.1 r.before.numCells).of_run hcanonical
  have hmem := hadds.mem_of_extends hextends (List.mem_append_right _ (List.mem_singleton_self _))
  obtain ⟨t, t', ht, hwrite, -⟩ := hsteps.exists_write hmem
  obtain ⟨plan, hplan, -⟩ := Instruction.write_eq_ok_iff.mp hwrite
  obtain ⟨hlt, hdigits⟩ := h.digits_decode
  have hread := ht.readSlice h.scalar
  rw [← hdigits] at hread
  have hmodulus := FieldParams.modulus_lt (P := E.scalar)
  unfold CurveParams.groupOrder at hpos ⊢
  have hsum := LimbSum.add_lt_of_plan hlt (by omega) hread hplan
  omega

theorem BeginsWithFold.exists_steps (hfold : BeginsWithFold r negate folded mid)
    (hodd : E.groupOrder % 2 = 1) (h : ScalarGiven r xs t₀) (hlt : E.scalar.decode xs < E.groupOrder) :
    ∃ t₁, Steps t₀ mid.instructions.toList t₁ := by
  obtain ⟨p, rfl, hschedule⟩ := Pass.exists_of_schedule t₀ mid.instructions.toList
  have hstop := p.steps.toExtends
  -- The schedule ends with the fold, and its start is the trace with nothing but the scalar in it.
  let w : Scenario := .computed p r.before.instructions.toList fun _ => False
  have hnum : mid.numCells ≤ w.numCells := by
    have hle := hfold.extends_after.numCells
    rw [← r.numCells_eq, ← h.numCells, ← hstop.numCells] at hle
    exact hle
  have hscalar : w.Number r.input.1 (E.scalar.decode xs) := by
    obtain ⟨hbound, hdigits⟩ := h.digits_decode
    refine ⟨hbound, ?_⟩
    rw [hdigits]
    exact Trace.readSlice_eq_ok_iff.mp (hstop.readSlice h.scalar)
  have hreaches : w.Reaches r.before :=
    ⟨p.start, .passive _ (passive_before r), by rw [h.numCells]; exact h.fresh, fun _ hi => hi.elim,
      fun _ hi => .inl hi⟩
  have hcovers : w.Covers mid := by
    refine ⟨?_, hnum⟩
    change _ <+: p.schedule
    rw [hschedule]
  obtain ⟨⟨t₁, ht₁⟩, -⟩ :=
    Scenario.foldScalar_spec hodd hscalar (fun _ => hlt) hfold.fold hcovers hreaches
  exact ⟨t₁, ht₁.steps⟩

end Pass

/--
The fold of a scalar is forced: every table that the circuit accepts holds a canonical scalar, the bit of
its fold, and the canonical limbs of the folded scalar. From limbs in range the witness pass of the fold
succeeds exactly when they are those of a canonical scalar.
-/
theorem fold_forced (E : CurveParams) [hB : E.base.HasHeadroom] [hS : E.scalar.HasHeadroom]
    (hodd : E.groupOrder % 2 = 1) (hthree : 3 ≤ E.groupOrder) :
    (E.base.modulus ≠ 0 → Nonempty (scalarMul E).Recorded) ∧
      ∀ r : (scalarMul E).Recorded, ∃ negate folded mid, BeginsWithFold r negate folded mid ∧
        (∀ l : Layout, r.chip.manifest.required ≤ l.width → r.chip.Guarantees l fun t => ∃ s,
          t.number? l r.input.1 = some s ∧ s < E.groupOrder ∧
            t.values? l negate.slice = some [Native.ofBool (decide ((E.groupOrder - 1) / 2 < s))] ∧
              t.HoldsNumber l folded (min s (E.groupOrder - s))) ∧
        ∀ (xs : List Native) (t₀ : Trace), ScalarGiven r xs t₀ →
          ((∃ t, Chip.runFrom 0 mid.instructions.toList t₀ = .ok () t) ↔
            E.scalar.decode xs < E.groupOrder) := by
  refine ⟨fun hmodulus => ?_, fun r => ?_⟩
  · have : NeZero E.base.modulus := ⟨hmodulus⟩
    have : E.Scalable := CurveParams.scalable_of_three_le hthree
    exact exists_recorded (addsAt_operands E)
  · obtain ⟨negate, folded, mid, hfold⟩ := exists_beginsWithFold (by omega) r
    refine ⟨negate, folded, mid, hfold, fun l hl => ?_, fun xs t₀ h => ?_⟩
    · obtain ⟨circuit, hemit⟩ := exists_emit_scalarMul hB.headroom_eq hS.headroom_eq r hl
      refine ⟨circuit, hemit, fun t ht => hfold.folded_of_holds hodd ?_⟩
      exact (Chip.check_emit_iff hl hemit t).mp ht
    · simp only [Chip.runFrom_eq_ok_iff]
      constructor
      · rintro ⟨t₁, hsteps⟩
        exact hfold.lt_of_steps (by omega) h hsteps
      · exact hfold.exists_steps hodd h

theorem fold_forced_curve32 :
    let E := curve32
    E.base.HasHeadroom ∧ E.scalar.HasHeadroom ∧ E.groupOrder % 2 = 1 ∧ 3 ≤ E.groupOrder ∧
      ∃ r : (scalarMul E).Recorded, ∃ negate folded mid, BeginsWithFold r negate folded mid ∧
        ∀ l : Layout, r.chip.manifest.required ≤ l.width →
          r.chip.Guarantees l (fun t => t.number? l r.input.1 = some 2147469826 →
            t.values? l negate.slice = some [1] ∧ t.HoldsNumber l folded 2147469825) ∧
          ∃ t₀ t₁, ScalarGiven r (E.scalar.digits 2147469826) t₀ ∧
            ScalarGiven r (E.scalar.digits 4294939651) t₁ ∧
            (∃ t, Chip.runFrom 0 mid.instructions.toList t₀ = .ok () t) ∧
            ¬ ∃ t, Chip.runFrom 0 mid.instructions.toList t₁ = .ok () t := by
  -- the smallest scalar of the upper half folds to the largest one of the lower half
  intro E
  have hbase : E.base.HasHeadroom := ⟨by decide⟩
  have hscalar : E.scalar.HasHeadroom := ⟨by decide⟩
  have hodd : E.groupOrder % 2 = 1 := by decide
  have hthree : 3 ≤ E.groupOrder := by decide
  obtain ⟨hrecorded, hforced⟩ := fold_forced E hodd hthree
  obtain ⟨r⟩ := hrecorded (by decide)
  obtain ⟨negate, folded, mid, hfold, hguarantees, hpass⟩ := hforced r
  refine ⟨hbase, hscalar, hodd, hthree, r, negate, folded, mid, hfold, fun l hl => ⟨?_, ?_⟩⟩
  · apply (hguarantees l hl).weaken
    rintro t ⟨s, hs, -, hbit, hfolded⟩ hs'
    obtain rfl : s = 2147469826 := Option.some.inj (hs.symm.trans hs')
    have hupper : decide ((E.groupOrder - 1) / 2 < 2147469826) = true := by decide
    have hmin : min 2147469826 (E.groupOrder - 2147469826) = 2147469825 := by decide
    rw [hupper] at hbit
    rw [hmin] at hfolded
    exact ⟨hbit, hfolded⟩
  · have hgiven (s : Nat) : ∃ t, ScalarGiven r (E.scalar.digits s) t := by
      obtain ⟨t, -, ht⟩ := exists_scalarGiven r l (E.scalar.length_digits s) (E.scalar.inRange_digits s)
      exact ⟨t, ht⟩
    obtain ⟨t₀, ht₀⟩ := hgiven 2147469826
    obtain ⟨t₁, ht₁⟩ := hgiven 4294939651
    refine ⟨t₀, t₁, ht₀, ht₁, (hpass _ t₀ ht₀).mpr (by decide), fun h => ?_⟩
    exact absurd ((hpass _ t₁ ht₁).mp h) (by decide)

end Component

end ForeignCurve
