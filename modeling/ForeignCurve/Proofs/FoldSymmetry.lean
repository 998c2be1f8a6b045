import ForeignCurve.Proofs.Agreement
import ForeignCurve.Proofs.Ownership
import ForeignCurve.Proofs.ScalarMultiplication
import ForeignCurve.Proofs.Twins

/-!
The symmetry of the fold. A multiplication by `s` and one by `n - s` fold to the same scalar. With
opposite points all that comes after the fold is the same, cell by cell; with the same point it is the
same up to the sign of all ordinates. Whether the point is on the curve plays no part in this.
-/

namespace ForeignCurve

class CurveParams.Foldable (E : CurveParams) : Prop where
  base_headroom : E.base.headroom = .ok ()
  scalar_headroom : E.scalar.headroom = .ok ()
  base_prime : E.base.modulus.Prime
  base_odd : E.base.modulus ≠ 2
  order_odd : E.groupOrder % 2 = 1
  three_le : 3 ≤ E.groupOrder

def Gadget.Folding.Shares {E : CurveParams} (f : Gadget.Folding E) (j : Nat) : Prop :=
  (∃ c ∈ f.runs, j ∈ c.indices) ∨ f.point.y.start ≤ j

namespace CurveParams.Foldable

variable {E : CurveParams} [hE : E.Foldable]

instance : E.base.HasHeadroom := ⟨hE.base_headroom⟩

instance : E.scalar.HasHeadroom := ⟨hE.scalar_headroom⟩

instance : Fact E.base.modulus.Prime := ⟨hE.base_prime⟩

instance : E.Scalable :=
  scalable_of_three_le hE.three_le

end CurveParams.Foldable

namespace Component

variable {E : CurveParams}

structure Splits (r : (scalarMul E).Recorded) (f : Gadget.Folding E) (mid : Builder) : Prop where
  fold : (Gadget.fold E r.input.1 r.input.2).run r.before = .ok (f, mid)
  multiply : (Gadget.multiplyFolded E (CurveParams.digitCount ((E.groupOrder - 1) / 2)) f).run mid =
    .ok (r.output, r.after)

structure Starts (r : (scalarMul E).Recorded) (l : Layout) (s : Nat) (P : Point) (t : Trace) : Prop where
  write : TraceM.writeOperands r.input s P (.empty l r.chip.numCells) = .ok () t
  extends_empty : (Trace.empty l r.chip.numCells).Extends t
  fresh : t.store.Fresh r.before.numCells r.chip.numCells
  passing : ∀ p : Pass, p.start = t → p.stop.numCells = r.chip.numCells ∧
    (passing p r.before r.before.numCells).Number r.input.1 s ∧
      (passing p r.before r.before.numCells).Numbers r.input.2 P ∧
        (passing p r.before r.before.numCells).Reaches r.before

variable {r : (scalarMul E).Recorded} {f : Gadget.Folding E} {mid : Builder} {l : Layout} {s s' : Nat}
  {P P' : Point} {t t' : Trace}

theorem passive_before (r : (scalarMul E).Recorded) : ∀ i ∈ r.before.instructions.toList, i.Passive := by
  rw [(r.before_adds (addsAt_operands E)).2.2, operandRules, List.forall_mem_append]
  exact ⟨Record.passive_fieldRules, Record.passive_pointRules⟩

namespace Starts

theorem run_eq (h : Starts r l s P t) :
    (do TraceM.writeOperands r.input s P; r.chip.writeWitness) (.empty l r.chip.numCells) =
      r.chip.writeWitness t :=
  run_bind_of_ok h.write

theorem exists_pass (h : Starts r l s P t) :
    ∃ p : Pass, p.start = t ∧ p.schedule = r.chip.instructions.toList ∧
      (Component.passing p r.before r.before.numCells).Covers r.after ∧
        (Component.passing p r.before r.before.numCells).Number r.input.1 s ∧
          (Component.passing p r.before r.before.numCells).Numbers r.input.2 P ∧
            (Component.passing p r.before r.before.numCells).Reaches r.before := by
  obtain ⟨p, hp, hschedule⟩ := Pass.exists_of_schedule t r.chip.instructions.toList
  obtain ⟨hcells, hs, hpoint, hreaches⟩ := h.passing p hp
  refine ⟨p, hp, hschedule, ⟨?_, ?_⟩, hs, hpoint, hreaches⟩
  · change _ <+: p.schedule
    rw [hschedule, r.instructions_eq]
  · exact Nat.le_of_eq (hcells.trans r.numCells_eq).symm

theorem readable_operands (h : Starts r l s P t) :
    t.Readable r.input.1.slice ∧ t.Readable r.input.2.x.slice ∧ t.Readable r.input.2.y.slice := by
  -- the pass that stops before its first instruction shows what is on its start
  obtain ⟨-, hs, hpoint, -⟩ := h.passing ⟨t, [], t, [], .nil t, by simp⟩ rfl
  have hreads {s : CellSlice} {xs : List Native} (h : t.store.Reads t.numCells s xs) : t.Readable s :=
    ⟨xs, Trace.readSlice_eq_ok_iff.mpr h⟩
  exact ⟨hreads hs.reads, hreads hpoint.x.reads, hreads hpoint.y.reads⟩

theorem assigned (h : Starts r l s P t) {j : Nat} (hj : j < r.before.numCells) : (t.store j).isSome := by
  obtain ⟨hinput, hnum, -⟩ := r.before_adds (addsAt_operands E)
  obtain ⟨hs, hx, hy⟩ := h.readable_operands
  rw [hinput] at hs hx hy
  rw [hnum] at hj
  have hmem : j ∈ (operands E).1.slice.indices ∨ j ∈ (operands E).2.x.slice.indices ∨
      j ∈ (operands E).2.y.slice.indices := by
    simp only [CellSlice.mem_indices, CellSlice.stop, Register.slice, Kind.size, operands,
      PointRegister.ofCell]
    omega
  rcases hmem with hj | hj | hj
  · exact (Trace.Readable.iff_assigned.mp hs).2 j hj
  · exact (Trace.Readable.iff_assigned.mp hx).2 j hj
  · exact (Trace.Readable.iff_assigned.mp hy).2 j hj

end Starts

namespace Splits

theorem stop_y (h : Splits r f mid) : f.point.y.start + E.base.limbs = mid.numCells := by
  obtain ⟨folded, b₁, -, hrun⟩ := Record.run_bind_eq_ok_iff.mp h.fold
  obtain ⟨bits, b₂, -, hrun⟩ := Record.run_bind_eq_ok_iff.mp hrun
  obtain ⟨a, b₃, -, hrun⟩ := Record.run_bind_eq_ok_iff.mp hrun
  obtain ⟨negY, b₄, -, hrun⟩ := Record.run_bind_eq_ok_iff.mp hrun
  obtain ⟨y, b₅, hselect, hrun⟩ := Record.run_bind_eq_ok_iff.mp hrun
  obtain ⟨rfl, hadds⟩ := (Scenario.addsAt_select folded.1 negY r.input.2.y b₄.numCells).of_run hselect
  cases hrun
  exact hadds.numCells.symm

theorem stays (h : Splits r f mid) : mid.Stays f.Shares r.after := by
  have hstop := h.stop_y
  let L := (PrimitiveLogic.confined f.Shares mid.numCells fun j hj => .inr (by omega)).toRecordLogic
  have hsame {k : Kind} {c : Register k} (hc : c.slice ∈ f.runs) : L.Same c c :=
    ⟨rfl, fun j hj => .inl ⟨_, hc, hj⟩⟩
  have hf : L.SameFolding f f := by
    refine ⟨hsame ?_, List.forall₂_same.mpr fun bit hbit => hsame ?_, hsame ?_, hsame ?_, hsame ?_⟩
    · simp [Gadget.Folding.runs]
    · exact List.mem_append_right _ (List.mem_map_of_mem hbit)
    all_goals simp [Gadget.Folding.runs]
  exact (RecordLogic.multiplyFolded trivial _ hf _ _ _ h.multiply (Nat.le_refl _)).1

end Splits

theorem exists_splits_of_pos (hpos : 1 ≤ E.groupOrder) (r : (scalarMul E).Recorded) :
    ∃ f mid, Splits r f mid := by
  have hrun : (Gadget.scalarMul E r.input.1 r.input.2).run r.before = .ok (r.output, r.after) :=
    r.generate_eq
  rw [Gadget.scalarMul_eq, CurveParams.halfOrder_eq_ok hpos] at hrun
  obtain ⟨half, b, hhalf, hrun⟩ := Record.run_bind_eq_ok_iff.mp hrun
  obtain ⟨hhalf, rfl⟩ := Record.run_lift_eq_ok_iff.mp hhalf
  cases hhalf
  obtain ⟨f, mid, hfold, hmultiply⟩ := Record.run_bind_eq_ok_iff.mp hrun
  exact ⟨f, mid, hfold, hmultiply⟩

variable [hE : E.Foldable]

theorem exists_splits (r : (scalarMul E).Recorded) : ∃ f mid, Splits r f mid :=
  exists_splits_of_pos (Nat.le_trans (by decide) hE.three_le) r

theorem exists_starts (r : (scalarMul E).Recorded) (l : Layout) (hs : s < E.groupOrder)
    (hP : P.Reduced E.base.modulus) : ∃ t, Starts r l s P t := by
  obtain ⟨hinput, hnum, -⟩ := r.before_adds (addsAt_operands E)
  have hcells := r.numCells_eq
  have hextends : r.before.Extends r.after := Grows.grows r.generate_eq
  obtain ⟨t, hwrite, ht, hfresh, hpass⟩ := exists_start (input_operands hs hP) (Nat.le_of_eq hnum.symm)
    hextends.numCells (passive_before r) l
  rw [← hinput, ← hcells] at hwrite
  rw [← hcells] at ht
  rw [← hnum, ← hcells] at hfresh
  refine ⟨t, hwrite, ht, hfresh, fun p hp => ?_⟩
  obtain ⟨hstop, hoperands, -, hreaches⟩ := hpass p hp
  rw [← hinput, ← hnum] at hoperands
  rw [← hnum] at hreaches
  exact ⟨hstop.trans hcells.symm, hoperands.1, hoperands.2, hreaches⟩

namespace Starts

theorem exists_twins (hsplits : Splits r f mid) {ε : ZMod E.base.modulus} (hε : ε * ε = 1)
    (hpos : 1 ≤ s) (hlt : s < E.groupOrder) (h : Starts r l s P t)
    (h' : Starts r l (E.groupOrder - s) P' t') (hP : P.Reduced E.base.modulus)
    (hP' : P'.Reduced E.base.modulus)
    (hreflect : Coordinates.ofPoint E.base.modulus P' = (Coordinates.ofPoint _ P).reflect (-ε)) :
    ∃ T : Twins, T.left.start = t ∧ T.right.start = t' ∧
      T.left.schedule = r.chip.instructions.toList ∧
        (T.Halt ∨ T.Complete ∧ T.FoldsAlike ε s f ∧ ∃ X : Coordinates (ZMod E.base.modulus),
          T.first.Numbers r.output X.toPoint ∧ T.second.Numbers r.output (X.reflect ε).toPoint) := by
  obtain ⟨p, hp, hschedule, hcovers, hs, hpoint, hreaches⟩ := h.exists_pass
  obtain ⟨p', hp', hschedule', hcovers', hs', hpoint', hreaches'⟩ := h'.exists_pass
  let T : Twins := ⟨p, p', hschedule'.trans hschedule.symm, r.before.instructions.toList,
    fun i => r.before.numCells ≤ i ∧ i < r.before.numCells⟩
  have hX : T.first.At r.input.2 (.ofPoint _ P) := hpoint.at fun _ => hP
  have hX' : T.second.At r.input.2 (.ofPoint _ P') := hpoint'.at fun _ => hP'
  rw [hreflect] at hX'
  refine ⟨T, hp, hp', hschedule, ?_⟩
  have hextends : mid.Extends r.after := Grows.grows hsplits.multiply
  obtain hhalt | ⟨hmid, hf⟩ := Twins.fold (T := T) hE.order_odd hpos hlt hs hs' hX hX' hsplits.fold
    ⟨hcovers.of_extends hextends, hcovers'.of_extends hextends⟩ ⟨hreaches, hreaches'⟩
  · exact .inl hhalt
  obtain hhalt | ⟨hafter, X, hresult⟩ := Twins.multiplyFolded hE.base_odd hε hf
    (CurveParams.digitCount_pos _) (CurveParams.two_mul_digitCount_le E) hsplits.multiply
    ⟨hcovers, hcovers'⟩ hmid
  · exact .inl hhalt
  · have hinstructions : r.after.instructions.toList = T.left.schedule := by
      change _ = p.schedule
      rw [hschedule, r.instructions_eq]
    exact .inr ⟨Twins.complete_of_reaches hafter hinstructions, hf, X, hresult⟩

theorem exists_owns (hsplits : Splits r f mid) {p : Pass} (h : Starts r l s P p.start)
    (hschedule : p.schedule = r.chip.instructions.toList) (hgo : ¬ p.Ended) :
    (∃ t, p.Owns mid t) ∧ ∃ t, p.Owns r.after t := by
  have hinstructions := hschedule.trans (congrArg Array.toList r.instructions_eq)
  have hnumCells := r.numCells_eq.symm
  have hmid : mid.Extends r.after := Grows.grows hsplits.multiply
  have hcells : r.chip.numCells ≤ p.start.numCells := Nat.le_of_eq h.extends_empty.numCells.symm
  have howns : p.Owns r.before p.start :=
    ⟨.passive _ (passive_before r), fun j hj => h.assigned hj, fun _ _ => rfl⟩
  let v := p.ownership hgo r.before.numCells r.chip.numCells hcells h.fresh
  have hoperand {s : CellSlice} (hs : p.start.Readable s) : v.Same s s :=
    ⟨rfl, hs.imp fun xs hxs => p.steps.toExtends.readSlice hxs⟩
  obtain ⟨hs, hx, hy⟩ := h.readable_operands
  have hfold : v.logic.Step (Gadget.fold E r.input.1 r.input.2) (Gadget.fold E r.input.1 r.input.2)
      v.logic.SameFolding :=
    RecordLogic.fold hE.scalar_headroom hE.base_headroom (hoperand hs) ⟨hoperand hx, hoperand hy⟩
  obtain ⟨hmid', f', hf⟩ := hfold hsplits.fold
    ⟨hinstructions ▸ hmid.instructions, hnumCells ▸ hmid.numCells⟩ ⟨Nat.le_refl _, _, howns⟩
  have hmultiply := RecordLogic.multiplyFolded hE.base_headroom
    (CurveParams.digitCount ((E.groupOrder - 1) / 2)) hf
  obtain ⟨hafter, -⟩ := hmultiply hsplits.multiply
    ⟨hinstructions ▸ List.prefix_rfl, Nat.le_of_eq hnumCells⟩ hmid'
  exact ⟨hmid'.2, hafter.2⟩

end Starts

namespace Splits

theorem agrees_fold (hsplits : Splits r f mid) {T : Twins} {s'' : Nat} (h : Starts r l s P T.left.start)
    (h' : Starts r l s' P' T.right.start) (hinit : mid.instructions.toList <+: T.left.schedule)
    (hf : T.FoldsAlike 1 s'' f) (ht : T.left.Owns mid t) (ht' : T.right.Owns mid t') :
    t.Agrees f.Shares t' := by
  have hstart := h.extends_empty.trans ht.steps.toExtends
  have hstart' := h'.extends_empty.trans ht'.steps.toExtends
  refine ⟨hstart'.layout.trans hstart.layout.symm, hstart'.numCells.trans hstart.numCells.symm, ?_⟩
  intro j hj hshares
  rw [hstart.numCells] at hj
  by_cases hlow : j < mid.numCells
  · have hstore : T.right.stop.store j = T.left.stop.store j := by
      obtain ⟨c, hc, hj⟩ | hy := hshares
      · exact hf.store_eq hc hj
      · have hstop : j < f.point.y.start + E.base.limbs := hsplits.stop_y ▸ hlow
        exact hf.store_eq (c := f.point.y.slice) (by simp [Gadget.Folding.runs])
          (CellSlice.mem_indices.mpr ⟨hy, hstop⟩)
    -- the cell is assigned by now, so it is already as it is in the end
    obtain ⟨x, hx⟩ := Option.isSome_iff_exists.mp (ht.assigned j hlow)
    obtain ⟨x', hx'⟩ := Option.isSome_iff_exists.mp (ht'.assigned j hlow)
    rw [(ht.extends_stop hinit).store j x hx,
      (ht'.extends_stop (T.schedule_eq ▸ hinit)).store j x' hx'] at hstore
    rw [hx, hx', hstore]
  · have hbefore : r.before.Extends mid := Grows.grows hsplits.fold
    have hhigh := Nat.le_of_not_lt hlow
    have hfree : r.before.numCells ≤ j := Nat.le_trans hbefore.numCells hhigh
    rw [ht.untouched j hhigh, ht'.untouched j hhigh, h.fresh j hfree hj, h'.fresh j hfree hj]

theorem agrees (hsplits : Splits r f mid) {T : Twins} {s'' : Nat} (h : Starts r l s P T.left.start)
    (h' : Starts r l s' P' T.right.start) (hschedule : T.left.schedule = r.chip.instructions.toList)
    (hcomplete : T.Complete) (hf : T.FoldsAlike 1 s'' f) :
    T.left.stop.Agrees f.Shares T.right.stop ∧
      ∀ j < r.chip.numCells, (T.left.stop.store j).isSome := by
  obtain ⟨hleft, hright⟩ := hcomplete
  have hinstructions := hschedule.trans (congrArg Array.toList r.instructions_eq)
  obtain ⟨⟨t, ht⟩, u, hu⟩ := h.exists_owns hsplits hschedule (Pass.not_ended hleft)
  obtain ⟨⟨t', ht'⟩, -⟩ := h'.exists_owns hsplits (T.schedule_eq.trans hschedule)
    (Pass.not_ended (T.schedule_eq ▸ hright))
  obtain ⟨-, is, his, hwithin⟩ := hsplits.stays
  rw [his] at hinstructions
  have hagrees := hsplits.agrees_fold h h' (hinstructions ▸ List.prefix_append _ _) hf ht ht'
  rw [hinstructions] at hleft hright
  rw [← his] at hleft
  obtain rfl := hu.steps.unique hleft
  rw [his] at hleft
  obtain ⟨t₁, hfold, hrest⟩ := hleft.split
  obtain ⟨t₁', hfold', hrest'⟩ := hright.split
  obtain rfl := ht.steps.unique hfold
  obtain rfl := ht'.steps.unique hfold'
  exact ⟨hagrees.steps hwithin hrest hrest', fun j hj => hu.assigned j (r.numCells_eq ▸ hj)⟩

end Splits

/-- The traces have the same result, and the same values in all cells that the fold shares. -/
structure SameFromFold (r : (scalarMul E).Recorded) (f : Gadget.Folding E) (t t' : Trace) : Prop where
  cells : ∀ j < r.chip.numCells, f.Shares j → ∃ x, t.readCell j = .ok x ∧ t'.readCell j = .ok x
  result : ∃ R, t.readPoint r.output = .ok R ∧ t'.readPoint r.output = .ok R

structure OppositeResults (r : (scalarMul E).Recorded) (t t' : Trace) : Prop where
  limbs : ∃ xs, t.readSlice r.output.x.slice = .ok xs ∧ t'.readSlice r.output.x.slice = .ok xs
  result : ∃ R R', t.readPoint r.output = .ok R ∧ t'.readPoint r.output = .ok R' ∧ Point.neg E R = .ok R'

section Runs

variable (hsplits : Splits r f mid) (hpos : 1 ≤ s) (hlt : s < E.groupOrder) (h : Starts r l s P t)
  (hP : P.Reduced E.base.modulus)

include hsplits hpos hlt h hP

theorem parallel_opposite (h' : Starts r l (E.groupOrder - s) P' t') (hP' : P'.Reduced E.base.modulus)
    (hneg : Coordinates.ofPoint E.base.modulus P' = -Coordinates.ofPoint _ P) :
    Chip.Parallel (SameFromFold r f) (r.chip.writeWitness t) (r.chip.writeWitness t') := by
  rw [← Coordinates.reflect_neg_one] at hneg
  obtain ⟨T, rfl, rfl, hschedule, hhalt | ⟨hcomplete, hf, X, hX, hX'⟩⟩ :=
    h.exists_twins hsplits (one_mul 1) hpos hlt h' hP hP' hneg
  · exact hhalt.parallel hschedule
  rw [Coordinates.reflect_one] at hX'
  obtain ⟨hagrees, hassigned⟩ := hsplits.agrees h h' hschedule hcomplete hf
  refine hcomplete.parallel hschedule ⟨fun j hj hshares => ?_, _, hX.readPoint rfl rfl, hX'.readPoint rfl rfl⟩
  obtain ⟨x, hx⟩ := Option.isSome_iff_exists.mp (hassigned j hj)
  rw [← (h.passing T.left rfl).1] at hj
  exact ⟨x, Trace.readCell_eq_ok_iff.mpr hx,
    Trace.readCell_eq_ok_iff.mpr ((hagrees.store j hj hshares).trans hx)⟩

theorem parallel_same (h' : Starts r l (E.groupOrder - s) P t') :
    Chip.Parallel (OppositeResults r) (r.chip.writeWitness t) (r.chip.writeWitness t') := by
  have hsame : Coordinates.ofPoint E.base.modulus P = (Coordinates.ofPoint _ P).reflect (- -1) := by
    rw [neg_neg, Coordinates.reflect_one]
  obtain ⟨T, rfl, rfl, hschedule, hhalt | ⟨hcomplete, -, X, hX, hX'⟩⟩ :=
    h.exists_twins hsplits (neg_one_mul (-1) |>.trans (neg_neg 1)) hpos hlt h' hP hP hsame
  · exact hhalt.parallel hschedule
  refine hcomplete.parallel hschedule ⟨⟨_, Trace.readSlice_eq_ok_iff.mpr hX.x.reads,
    Trace.readSlice_eq_ok_iff.mpr hX'.x.reads⟩, _, _, hX.readPoint rfl rfl, hX'.readPoint rfl rfl, ?_⟩
  rw [Coordinates.reflect_neg_one]
  exact Point.neg_eq_ok X

end Runs

/--
Whatever the reduced point, the witness passes for `s` and the point, and for `n - s` and the opposite
point, fail at the same instruction or agree on all that comes from the fold on. With `n - s` and the
point itself the pass fails there too, or has the opposite result.
-/
theorem scalarMul_fold_symmetric (E : CurveParams) [hE : E.Foldable] :
    ∃ (r : (scalarMul E).Recorded) (f : Gadget.Folding E) (mid : Builder), Splits r f mid ∧
      ∀ l : Layout, r.chip.manifest.required ≤ l.width → ∃ t₀, r.chip.newTrace l.width = .ok t₀ ∧
        let run (s : Nat) (P : Point) :=
          (do TraceM.writeOperands r.input s P; r.chip.writeWitness : TraceM Unit) t₀
        ∀ (s : Nat) (P : Point), 1 ≤ s → s < E.groupOrder → P.Reduced E.base.modulus →
          ∃ P', Point.neg E P = .ok P' ∧
            Chip.Parallel (SameFromFold r f) (run s P) (run (E.groupOrder - s) P') ∧
              Chip.Parallel (OppositeResults r) (run s P) (run (E.groupOrder - s) P) := by
  obtain ⟨r⟩ := exists_recorded (addsAt_operands E)
  obtain ⟨f, mid, hsplits⟩ := exists_splits r
  refine ⟨r, f, mid, hsplits, fun l hl => ⟨_, r.chip.newTrace_eq_ok hl, ?_⟩⟩
  intro run s P hpos hlt hP
  have hneg := Point.neg_eq_ok (Coordinates.ofPoint E.base.modulus P)
  rw [Coordinates.toPoint_ofPoint, Point.reduce_of_reduced hP] at hneg
  have hP' : (-Coordinates.ofPoint E.base.modulus P).toPoint.Reduced E.base.modulus :=
    ⟨ZMod.val_lt _, ZMod.val_lt _⟩
  obtain ⟨t, h⟩ := exists_starts r l hlt hP
  obtain ⟨t', h'⟩ := exists_starts r l (show E.groupOrder - s < E.groupOrder by omega) hP'
  obtain ⟨t'', h''⟩ := exists_starts r l (show E.groupOrder - s < E.groupOrder by omega) hP
  refine ⟨_, hneg, ?_, ?_⟩
  · dsimp only [run]
    rw [h.run_eq, h'.run_eq]
    exact parallel_opposite hsplits hpos hlt h hP h' hP' (Coordinates.ofPoint_toPoint _)
  · dsimp only [run]
    rw [h.run_eq, h''.run_eq]
    exact parallel_same hsplits hpos hlt h hP h''

instance : CurveParams.tinyCurve.Foldable where
  base_headroom := rfl
  scalar_headroom := rfl
  base_prime := by decide
  base_odd := by decide
  order_odd := rfl
  three_le := by decide

theorem scalarMul_fold_symmetric_tinyCurve :
    CurveParams.tinyCurve.Foldable ∧
      ∃ (r : (scalarMul .tinyCurve).Recorded) (f : Gadget.Folding .tinyCurve),
        ∀ l : Layout, r.chip.manifest.required ≤ l.width → ∃ t₀, r.chip.newTrace l.width = .ok t₀ ∧
          let run (s : Nat) (P : Point) :=
            (do TraceM.writeOperands r.input s P; r.chip.writeWitness : TraceM Unit) t₀
          ∃ t t' t'', run 9 ⟨1, 2⟩ = .ok () t ∧ run 4 ⟨1, 5⟩ = .ok () t' ∧ run 4 ⟨1, 2⟩ = .ok () t'' ∧
            SameFromFold r f t t' ∧ t.readPoint r.output = .ok ⟨4, 2⟩ ∧
              t''.readPoint r.output = .ok ⟨4, 5⟩ := by
  obtain ⟨r, f, -, -, hr⟩ := scalarMul_fold_symmetric .tinyCurve
  refine ⟨inferInstance, r, f, fun l hl => ?_⟩
  obtain ⟨t₀, ht₀, hrun⟩ := hr l hl
  have hP : Point.Reduced CurveParams.tinyCurve.base.modulus ⟨1, 2⟩ := ⟨by decide, by decide⟩
  obtain ⟨P', hP', hopposite, hsame⟩ := hrun 9 ⟨1, 2⟩ (by decide) (by decide) hP
  obtain rfl : ⟨1, 5⟩ = P' := Except.ok.inj hP'
  obtain ⟨R, hR, -, t₁, t, -, ht₁, hpass, -, hread⟩ := scalarMul_computes (E := .tinyCurve) (s := 9)
    (by decide) hP (by decide) (by decide) r hl
  obtain rfl : ⟨4, 2⟩ = R := Except.ok.inj hR
  obtain rfl : t₀ = t₁ := Except.ok.inj (ht₀.symm.trans ht₁)
  obtain ⟨t', ht', hfold⟩ := hopposite.exists_completed hpass
  obtain ⟨t'', ht'', hresults⟩ := hsame.exists_completed hpass
  obtain ⟨S, S', hS, hS', hneg⟩ := hresults.result
  obtain rfl : ⟨4, 2⟩ = S := Except.ok.inj (hread.symm.trans hS)
  obtain rfl : ⟨4, 5⟩ = S' := Except.ok.inj hneg
  exact ⟨t₀, ht₀, t, t', t'', hpass, ht', ht'', hfold, hread, hS'⟩

end Component

end ForeignCurve
