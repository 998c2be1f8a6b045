import ForeignCurve.Proofs.Checks
import ForeignCurve.Proofs.Curve.Elliptic
import ForeignCurve.Proofs.Instruction.Safety

/-!
No input breaks the witness pass. Whatever the cells hold that a caller has written, and whichever they
are, each instruction that a gadget has recorded writes its cells or reports a fault.
-/

namespace ForeignCurve

variable {α β : Type} {A : Abort → Prop}

def Builder.Guarded (A : Abort → Prop) (b : Builder) : Prop :=
  ∀ i ∈ b.instructions.toList, i.Guarded A

class Guards (A : Abort → Prop) (g : Record α) : Prop where
  guards : ∀ {b : Builder} {a : α} {b' : Builder}, g.run b = .ok (a, b') → b.Guarded A → b'.Guarded A

namespace Guards

instance pure (a : α) : Guards A (pure a) where
  guards h hb := by
    cases h
    exact hb

instance bind (g : Record α) (f : α → Record β) [hg : Guards A g] [hf : ∀ a, Guards A (f a)] :
    Guards A (g >>= f) where
  guards h hb := by
    obtain ⟨a, b', hrun, h⟩ := Record.run_bind_eq_ok_iff.mp h
    exact (hf a).guards h (hg.guards hrun hb)

instance throw (e : Abort) : Guards A (throw e : Record α) where
  guards h := by contradiction

instance lift (x : Except Abort α) : Guards A (liftM x : Record α) where
  guards h hb := by
    obtain ⟨-, rfl⟩ := Record.run_lift_eq_ok_iff.mp h
    exact hb

instance ite (c : Prop) [Decidable c] (g g' : Record α) [Guards A g] [Guards A g'] :
    Guards A (if c then g else g') := by
  split
  · infer_instance
  · infer_instance

instance append (i : Instruction) [hi : i.Guarded A] : Guards A (Record.append i) where
  guards h hb := by
    cases h
    intro j hj
    rw [Array.toList_push, List.mem_append, List.mem_singleton] at hj
    cases hj with
    | inl hj => exact hb j hj
    | inr hj => exact hj ▸ hi

theorem of_adds {b b' : Builder} {n : Nat} {rule : CellRule} {s : CellSlice}
    (h : b.Adds n (Record.ruleInstruction? rule s).toList b') (hb : b.Guarded A) : b'.Guarded A := by
  unfold Builder.Guarded
  rw [h.instructions, List.forall_mem_append]
  refine ⟨hb, fun i hi => ?_⟩
  obtain ⟨s, -, rfl | ⟨bits, rfl⟩⟩ := (Instruction.IsRule.of_mem (Nat.le_refl s.stop) i hi).cases
  · exact .boolean s
  · exact .range bits s

instance requireHeadroom (P : FieldParams) : Guards A (Record.requireHeadroom P) where
  guards h hb := by
    unfold Builder.Guarded
    rw [(Record.of_requireHeadroom h).2]
    exact hb

instance alloc (k : Kind) : Guards A (Record.alloc k) where
  guards h hb := by
    obtain ⟨-, hadds⟩ := (Record.AddsAt.alloc _ k).of_run h
    exact of_adds hadds hb

instance allocArray (k : Kind) (length : Nat) : Guards A (Record.allocArray k length) where
  guards h hb := by
    have hsize : k.size ≠ 0 := Needs.needs h
    obtain ⟨-, hadds⟩ := (Record.AddsAt.allocCellArray _ hsize length).of_run h
    exact of_adds hadds hb

instance allocPoint (P : FieldParams) : Guards A (Record.allocPoint P) := by
  unfold Record.allocPoint
  infer_instance

end Guards

attribute [instance] Instruction.Guarded.constant Instruction.Guarded.copy Instruction.Guarded.select
  Instruction.Guarded.decompose Instruction.Guarded.greaterThan

namespace Guards

instance setConstant {k : Kind} (target : Register k) (values : List Native) :
    Guards A (Gadget.setConstant target values) := by
  unfold Gadget.setConstant
  infer_instance

instance assertConstant {k : Kind} (target : Register k) (values : List Native) :
    Guards A (Gadget.assertConstant target values) := by
  unfold Gadget.assertConstant
  infer_instance

instance select {k : Kind} (bit : Register .bit) (ifTrue ifFalse : Register k) :
    Guards A (Gadget.select bit ifTrue ifFalse) := by
  unfold Gadget.select Gadget.setSelect
  infer_instance

instance decompose (value : Register .element) (count : Nat) : Guards A (Gadget.decompose value count) := by
  unfold Gadget.decompose
  infer_instance

instance greaterThan (value : CellSlice) (bound limbBits : Nat) :
    Guards A (Gadget.greaterThan value bound limbBits) := by
  unfold Gadget.greaterThan
  infer_instance

instance setToCopyPoint {P : FieldParams} (source target : PointRegister P) :
    Guards A (Gadget.setToCopyPoint source target) := by
  unfold Gadget.setToCopyPoint Gadget.setToCopy
  infer_instance

theorem limbSum {a : CellSlice} {b c : LimbOperand} {limbBits : Nat}
    (h : ∀ carries, LimbSum.Derives ⟨a, b, c, carries, limbBits⟩) :
    Guards A (Gadget.limbSum a b c limbBits) := by
  have hsum (carries : RegisterArray .bit) : (Instruction.limbSum ⟨a, b, c, carries, limbBits⟩).Guarded A :=
    .limbSum (h carries)
  unfold Gadget.limbSum
  infer_instance

theorem derives_result {P : FieldParams} (hP : P.Usable A) (a r : FieldRegister P) (value : Nat)
    (carries : RegisterArray .bit) :
    LimbSum.Derives ⟨a.slice, .const (Limbs.encode P.limbBits P.limbs value), .cells r.slice, carries,
      P.limbBits⟩ :=
  .result hP.limbBits_le (Limbs.length_encode _ _ _) fun _ hx => Limbs.lt_of_mem_encode hx

theorem derives_summand {P : FieldParams} (hP : P.Usable A) (a r : FieldRegister P) (total : Nat)
    (carries : RegisterArray .bit) :
    LimbSum.Derives ⟨a.slice, .cells r.slice, .const (Limbs.encode P.limbBits P.limbs total), carries,
      P.limbBits⟩ :=
  .summand hP.limbBits_le (Limbs.length_encode _ _ _)

section Field

variable {P : FieldParams} [hP : P.Usable A]

omit hP in
instance identity (a b result : FieldRegister P) : Guards A (Gadget.identity a b result) := by
  unfold Gadget.identity
  infer_instance

instance setAdd (a b result : FieldRegister P) : Guards A (Gadget.setAdd a b result) := by
  have hsum (m : Identity P) : (Instruction.fieldSum P m).Guarded A := .fieldSum m hP
  unfold Gadget.setAdd
  infer_instance

instance setSub (a b result : FieldRegister P) : Guards A (Gadget.setSub a b result) := by
  have hdifference (m : Identity P) : (Instruction.fieldDifference P m).Guarded A := .fieldDifference m hP
  unfold Gadget.setSub
  infer_instance

instance setMul (a b result : FieldRegister P) : Guards A (Gadget.setMul a b result) := by
  have hproduct (m : Identity P) : (Instruction.fieldProduct P m).Guarded A := .fieldProduct m hP
  unfold Gadget.setMul
  infer_instance

instance add (a b : FieldRegister P) : Guards A (Gadget.add a b) := by
  unfold Gadget.add
  infer_instance

instance sub (a b : FieldRegister P) : Guards A (Gadget.sub a b) := by
  unfold Gadget.sub
  infer_instance

instance mul (a b : FieldRegister P) : Guards A (Gadget.mul a b) := by
  unfold Gadget.mul
  infer_instance

omit hP in
instance constant (value : Nat) : Guards A (Gadget.constant P value) := by
  unfold Gadget.constant
  infer_instance

omit hP in
instance assertEqualConstant (a : FieldRegister P) (value : Nat) :
    Guards A (Gadget.assertEqualConstant a value) := by
  unfold Gadget.assertEqualConstant
  infer_instance

instance inverseHint (a : FieldRegister P) (allowZero : Bool) :
    Guards A (Gadget.inverseHint a allowZero) := by
  have hinverse (r : FieldRegister P) : (Instruction.inverse P a r allowZero).Guarded A :=
    .inverse a r allowZero hP
  unfold Gadget.inverseHint
  infer_instance

instance assertCanonical (a : FieldRegister P) : Guards A (Gadget.assertCanonical a) := by
  have hsum (r : FieldRegister P) (complement : Nat) := @limbSum A _ _ _ _ (derives_result hP a r complement)
  unfold Gadget.assertCanonical
  infer_instance

instance slack (a : FieldRegister P) (total : Nat) : Guards A (do
    let r ← Record.alloc (.field P)
    let _ ← Gadget.limbSum a.slice (.cells r.slice)
      (.const (Limbs.encode P.limbBits P.limbs total)) P.limbBits
    return r : Record (FieldRegister P)) := by
  have hsum (r : FieldRegister P) := @limbSum A _ _ _ _ (derives_summand hP a r total)
  infer_instance

instance slope {E : CurveParams} [hE : E.base.Usable A] (p q : PointRegister E.base) : Guards A (do
    let r ← Record.alloc (.field E.base)
    Record.append (.slope E p q r)
    return r : Record (FieldRegister E.base)) := by
  have hslope (r : FieldRegister E.base) : (Instruction.slope E p q r).Guarded A := .slope p q r hE
  infer_instance

end Field

section Logic

def Steps (A : Abort → Prop) (g _ : Record α) (R : α → α → Prop) : Prop :=
  ∀ b a b', g.run b = .ok (a, b') → b.Guarded A → b'.Guarded A ∧ ∃ a', R a a'

theorem steps {g g' : Record α} {R : α → α → Prop} (hg : Guards A g) (hR : ∀ a, R a a) : Steps A g g' R :=
  fun _ a _ hrun hb => ⟨hg.guards hrun hb, a, hR a⟩

def logic (A : Abort → Prop) : RecordLogic where
  Run _ _ := True
  Admits := FieldParams.Usable A
  Step := Steps A
  part _ _ _ := trivial
  pure hR b a b' hrun hb := by
    cases hrun
    exact ⟨hb, _, hR⟩
  bind hg hf b c b'' hrun hb := by
    obtain ⟨a, b', hrun₁, hrun₂⟩ := Record.run_bind_eq_ok_iff.mp hrun
    obtain ⟨hb', a', ha⟩ := hg b a b' hrun₁ hb
    exact hf a a' ha b' c b'' hrun₂ hb'
  lift x := steps (lift x) fun _ => rfl
  throw e R b a b' hrun := by contradiction
  constant value _ := steps (constant value) fun _ => trivial
  assertEqualConstant value _ _ := steps (assertEqualConstant _ value) fun _ => trivial
  add hP _ _ := steps (add _ _) fun _ => trivial
  sub hP _ _ := steps (sub _ _) fun _ => trivial
  mul hP _ _ := steps (mul _ _) fun _ => trivial
  inverseHint allowZero hP _ := steps (inverseHint _ allowZero) fun _ => trivial
  assertCanonical hP _ := steps (assertCanonical _) fun _ => trivial
  select _ _ _ := steps (select _ _ _) fun _ => trivial
  decompose count _ := steps (decompose _ count) fun _ => List.forall₂_same.mpr fun _ _ => trivial
  greaterThan bound limbBits _ := steps (greaterThan _ bound limbBits) fun _ => trivial
  slack total hP _ := steps (slack _ total) fun _ => trivial
  slope hE _ _ _ _ := steps (slope _ _) fun _ => trivial

theorem of_step {g g' : Record α} {R : α → α → Prop} (h : (logic A).Step g g' R) : Guards A g where
  guards hrun hb := (h _ _ _ hrun hb).1

section Curve

variable {E : CurveParams} [hE : E.base.Usable A]

theorem samePoint {P : FieldParams} (p : PointRegister P) : (logic A).SamePoint p p :=
  ⟨trivial, trivial⟩

instance addPoint (p q : PointRegister E.base) : Guards A (Gadget.addPoint E p q) :=
  of_step (RecordLogic.addPoint hE (samePoint p) (samePoint q))

instance scalarMul [hS : E.scalar.Usable A] (scalar : FieldRegister E.scalar) (p : PointRegister E.base) :
    Guards A (Gadget.scalarMul E scalar p) := by
  have hscalar : (logic A).Same scalar scalar := trivial
  exact of_step (RecordLogic.scalarMul hS hE hscalar (samePoint p))

instance setAddPoint (p q r : PointRegister E.base) : Guards A (Gadget.setAddPoint E p q r) := by
  unfold Gadget.setAddPoint
  infer_instance

instance setScalarMul [E.scalar.Usable A] (scalar : FieldRegister E.scalar) (p r : PointRegister E.base) :
    Guards A (Gadget.setScalarMul E scalar p r) := by
  unfold Gadget.setScalarMul
  infer_instance

end Curve

end Logic

end Guards

namespace Call

def IsLimbSum : Call → Prop
  | limbSum .. => True
  | _ => False

theorem guards {c : Call} (hc : ¬ c.IsLimbSum) (hP : ∀ P ∈ c.checked, P.Usable A) : Guards A c.run := by
  have hfirst {P : FieldParams} {Ps : List FieldParams} (h : c.checked = P :: Ps) : P.Usable A :=
    hP P (by simp [h])
  have hregister {k : Kind} {g : Record (Register k)} (hg : Guards A g) : Guards A (register g) :=
    .bind _ _
  have hnothing {g : Record Unit} (hg : Guards A g) : Guards A (nothing g) := .bind _ _
  -- The calls that only compute are one case, by the relational step of recordings; the others have an
  -- instance for each recording.
  cases c
  case limbSum => exact (hc trivial).elim
  case alloc k => exact hregister (.alloc k)
  case allocArray k length => exact .bind (Record.allocArray k length) _
  case allocPoint P => exact .bind (Record.allocPoint P) _
  case setSelect | setConstant | assertConstant | setToCopy => exact hnothing inferInstance
  case setAdd P x y r =>
    have husable : P.Usable A := hfirst rfl
    exact hnothing (.setAdd x y r)
  case setSub P x y r =>
    have husable : P.Usable A := hfirst rfl
    exact hnothing (.setSub x y r)
  case setMul P x y r =>
    have husable : P.Usable A := hfirst rfl
    exact hnothing (.setMul x y r)
  case setAddPoint E p q r =>
    have hbase : E.base.Usable A := hfirst rfl
    exact hnothing (.setAddPoint p q r)
  case setScalarMul E scalar p r =>
    have hscalar : E.scalar.Usable A := hfirst rfl
    have hbase : E.base.Usable A := hP E.base (by simp [checked])
    exact hnothing (.setScalarMul scalar p r)
  all_goals
    exact Guards.of_step (ComputesFrom.step (L := Guards.logic A) (by constructor) (fun _ _ => trivial) hP)

theorem Allocates.guards {c : Call} (hc : c.Allocates) : Guards A c.run := by
  cases hc with
  | alloc k => exact Call.guards id fun P hP => by contradiction
  | allocArray k length => exact Call.guards id fun P hP => by contradiction
  | allocPoint P => exact Call.guards id fun P hP => by contradiction

theorem ComputesFrom.not_isLimbSum {c : Call} {operands : List CellSlice} (hc : c.ComputesFrom operands) :
    ¬ c.IsLimbSum := by
  intro h
  cases hc <;> contradiction

theorem guarded_of_mapM {calls : List Call} (hcalls : ∀ c ∈ calls, ¬ c.IsLimbSum)
    (hP : ∀ c ∈ calls, ∀ P ∈ c.checked, P.Usable A) {b b' : Builder} {answers : List (List CellSlice)}
    (hrun : (calls.mapM run).run b = .ok (answers, b')) (hb : b.Guarded A) : b'.Guarded A := by
  induction calls generalizing b answers with
  | nil =>
    cases hrun
    exact hb
  | cons c calls ih =>
    rw [List.forall_mem_cons] at hcalls hP
    rw [List.mapM_cons] at hrun
    obtain ⟨answer, b₁, hc, hrun⟩ := Record.run_bind_eq_ok_iff.mp hrun
    obtain ⟨rest, b₂, hrest, hpure⟩ := Record.run_bind_eq_ok_iff.mp hrun
    cases hpure
    exact ih hcalls.2 hP.2 hrest ((guards hcalls.1 hP.1).guards hc hb)

theorem usable_of_mapM {calls : List Call} (hmodulus : ∀ c ∈ calls, ∀ P ∈ c.checked, 2 ≤ P.modulus)
    {b : Builder} {answers : List (List CellSlice)}
    (hrun : (calls.mapM run).run .empty = .ok (answers, b)) (hb : b.headroomFault? = none) :
    ∀ c ∈ calls, ∀ P ∈ c.checked, P.Usable (fun _ => False) := by
  intro c hc P hP
  have hreports : b.headroomFault? = (calls.flatMap checked).findSome? FieldParams.violation? :=
    mapM_reportsFirst hrun
  rw [hb, eq_comm, List.findSome?_eq_none_iff] at hreports
  have hviolation := hreports P (List.mem_flatMap.mpr ⟨c, hc, hP⟩)
  refine ⟨?_, fun hzero => absurd (hmodulus c hc P hP) (by omega)⟩
  cases hheadroom : P.headroom with
  | ok u => rfl
  | error v =>
    rw [FieldParams.violation?_eq_some hheadroom] at hviolation
    contradiction

end Call

theorem Session.guarded {b : Builder} {inputs : List CellSlice} (h : Session b inputs)
    (hfault : b.headroomFault? = none) : b.Guarded (· = .zeroModulus) := by
  induction h with
  | start =>
    intro i hi
    contradiction
  | @allocate b b' inputs runs c h hc hrun ih =>
    have hextends : b.Extends b' := Grows.grows hrun
    exact hc.guards.guards hrun (ih (hextends.headroomFault?_eq_none hfault))
  | @compute b b' inputs operands runs c h hc hoperands hrun ih =>
    have hextends : b.Extends b' := Grows.grows hrun
    -- headroom is enforced, and only the modulus is left open
    have husable : ∀ P ∈ c.checked, P.Usable (· = .zeroModulus) := fun P hP =>
      ⟨(Call.requires hP).headroom_eq hrun hfault, fun _ => rfl⟩
    exact (Call.guards hc.not_isLimbSum husable).guards hrun (ih (hextends.headroomFault?_eq_none hfault))

namespace Chip

theorem abortsIn_runFrom {index : Nat} {is : List Instruction} (h : ∀ i ∈ is, i.Guarded A) :
    TraceM.AbortsIn A (runFrom index is) := by
  induction is generalizing index with
  | nil => exact .pure ()
  | cons i is ih =>
    rw [List.forall_mem_cons] at h
    refine .bind (fun t a t' hrun => ?_) fun _ => ih h.2
    have hwrite := h.1.abortsIn t
    unfold atInstruction at hrun
    split at hrun
    · cases hrun
    · exact hwrite a t' hrun

theorem abortsIn_writeWitness (c : Chip) (h : ∀ i ∈ c.instructions.toList, i.Guarded A) :
    TraceM.AbortsIn A c.writeWitness :=
  abortsIn_runFrom h

/--
On any trace, whatever its width and whatever was written to it, the witness pass of a chip that is
recorded from gadgets and allocations goes through or reports a fault.
-/
theorem writeWitness_reports {calls : List Call} {answers : List (List CellSlice)} {b : Builder} {c : Chip}
    (hcalls : ∀ call ∈ calls, ¬ call.IsLimbSum)
    (hmodulus : ∀ call ∈ calls, ∀ P ∈ call.checked, 2 ≤ P.modulus)
    (hrun : (calls.mapM Call.run).run .empty = .ok (answers, b)) (hbuild : b.build = .ok c) (t : Trace) :
    (∃ t', c.writeWitness t = .ok () t') ∨ ∃ cause t', c.writeWitness t = .error (.fault cause) t' := by
  obtain ⟨hfault, rfl⟩ := Builder.build_eq_ok_iff.mp hbuild
  have husable := Call.usable_of_mapM hmodulus hrun hfault
  have hguarded : b.Guarded (fun _ => False) := Call.guarded_of_mapM hcalls husable hrun fun i hi => by contradiction
  have hpass := abortsIn_writeWitness ⟨b.instructions, b.numCells, b.manifest⟩ hguarded
  cases hwrite : writeWitness ⟨b.instructions, b.numCells, b.manifest⟩ t with
  | ok u t' => exact .inl ⟨t', rfl⟩
  | error f t' =>
    cases f with
    | fault cause => exact .inr ⟨cause, t', rfl⟩
    | abort a => exact absurd hwrite (hpass t a t')

def squareCalls (P : FieldParams) : List Call :=
  [.alloc (.field P), .mul P ⟨0⟩ ⟨0⟩]

theorem writeWitness_reports_square :
    ∃ answers b c, ((squareCalls CurveParams.tinyBase).mapM Call.run).run .empty = .ok (answers, b) ∧
      b.build = .ok c ∧ ∀ t, (∃ t', c.writeWitness t = .ok () t') ∨
        ∃ cause t', c.writeWitness t = .error (.fault cause) t' := by
  have hcalls : ∀ call ∈ squareCalls CurveParams.tinyBase, ¬ call.IsLimbSum := by
    simp [squareCalls, Call.IsLimbSum]
  have hrecordable : ∀ call ∈ squareCalls CurveParams.tinyBase, call.Recordable := by
    simp [squareCalls, Call.Recordable]
  have hmodulus : ∀ call ∈ squareCalls CurveParams.tinyBase, ∀ P ∈ call.checked, 2 ≤ P.modulus := by
    decide
  obtain ⟨answers, b, hrun⟩ := (Call.mapM_returns hrecordable).returns .empty
  have hreports := Call.mapM_reportsFirst hrun
  have hfault : b.headroomFault? = none := Eq.trans hreports (by decide)
  have hbuild := Builder.build_eq_ok_iff.mpr ⟨hfault, rfl⟩
  exact ⟨answers, b, _, hrun, hbuild, writeWitness_reports hcalls hmodulus hrun hbuild⟩

end Chip

end ForeignCurve
