import ForeignCurve.Proofs.Circuit.Emission
import ForeignCurve.Proofs.Gadget.Records
import ForeignCurve.Proofs.Recording

/-!
What becomes of a recording under parameters without headroom. Where all constants exist it goes on to
the end, and building the chip reports the first violation in the order of the calls. Where one does not
exist, the call that needs it stops the recording, and nothing is built.
-/

namespace ForeignCurve

-- the instance for the rest of a gadget is as large as the gadget is long
set_option synthInstance.maxSize 1000000

def FieldParams.violation? (P : FieldParams) : Option HeadroomFault :=
  match P.headroom with
  | .ok _ => none
  | .error v => some v

namespace FieldParams

variable {P : FieldParams}

theorem violation?_eq_none (h : P.headroom = .ok ()) : P.violation? = none := by
  rw [violation?, h]

theorem violation?_eq_some {v : HeadroomFault} (h : P.headroom = .error v) : P.violation? = some v := by
  rw [violation?, h]

end FieldParams

def Builder.ReportsFirst (Ps : List FieldParams) (b b' : Builder) : Prop :=
  b'.headroomFault? = b.headroomFault?.or (Ps.findSome? FieldParams.violation?)

namespace Builder.ReportsFirst

variable {Ps Qs : List FieldParams} {P : FieldParams} {b b₁ b' : Builder}

theorem of_eq (h : b'.headroomFault? = b.headroomFault?) : b.ReportsFirst [] b' := by
  rw [ReportsFirst, h, List.findSome?_nil, Option.or_none]

protected theorem trans (h : b.ReportsFirst Ps b₁) (h' : b₁.ReportsFirst Qs b') :
    b.ReportsFirst (Ps ++ Qs) b' := by
  unfold ReportsFirst at h h' ⊢
  rw [h', h, List.findSome?_append, Option.or_assoc]

theorem snoc (h : b.ReportsFirst Ps b₁) (hextends : b₁.Extends b')
    (hreports : b.Reports (· ∈ Ps ++ [P]) b')
    (hrequires : b'.headroomFault? = none → P.headroom = .ok ()) : b.ReportsFirst (Ps ++ [P]) b' := by
  unfold ReportsFirst at h ⊢
  rw [List.findSome?_append, List.findSome?_singleton, ← Option.or_assoc, ← h]
  cases hb₁ : b₁.headroomFault? with
  | some v => rw [hextends.headroomFault? v hb₁, Option.some_or]
  | none =>
    rw [hb₁, eq_comm, Option.or_eq_none_iff, List.findSome?_eq_none_iff] at h
    obtain ⟨hb, hPs⟩ := h
    rw [Option.none_or]
    obtain hsame | ⟨-, Q, v, hQ, hv, hb'⟩ := hreports
    · rw [hsame, hb, FieldParams.violation?_eq_none (hrequires (hsame.trans hb))]
    · rw [hb', ← FieldParams.violation?_eq_some hv]
      cases List.mem_append.mp hQ with
      | inl hQ =>
        have hnone := hPs Q hQ
        rw [FieldParams.violation?_eq_some hv] at hnone
        contradiction
      | inr hQ => rw [List.mem_singleton.mp hQ]

theorem single (hextends : b.Extends b') (hreports : b.Reports (· ∈ [P]) b')
    (hrequires : b'.headroomFault? = none → P.headroom = .ok ()) : b.ReportsFirst [P] b' :=
  (of_eq (b := b) rfl).snoc hextends hreports hrequires

end Builder.ReportsFirst

namespace Call

section Returns

variable {k : Kind} {P : FieldParams}

instance (g : Record (Register k)) [Returns g] : Returns (register g) := by
  unfold register
  infer_instance

instance (g : Record (RegisterArray k)) [Returns g] : Returns (array g) := by
  unfold array
  infer_instance

instance (g : Record (PointRegister P)) [Returns g] : Returns (point g) := by
  unfold point
  infer_instance

instance (g : Record Unit) [Returns g] : Returns (nothing g) := by
  unfold nothing
  infer_instance

end Returns

section Needs

variable {C : Prop} {k : Kind} {P : FieldParams}

instance (g : Record (Register k)) [Needs C g] : Needs C (register g) := by
  unfold register
  infer_instance

instance (g : Record (RegisterArray k)) [Needs C g] : Needs C (array g) := by
  unfold array
  infer_instance

instance (g : Record (PointRegister P)) [Needs C g] : Needs C (point g) := by
  unfold point
  infer_instance

instance (g : Record Unit) [Needs C g] : Needs C (nothing g) := by
  unfold nothing
  infer_instance

end Needs

/-- What a call computes while it is recorded exists. -/
def Recordable : Call → Prop
  | allocArray k _ => k.size ≠ 0
  | limbSum a b result _ => a.len ≠ 0 ∧ b.length = a.len ∧ result.length = a.len
  | constant P value | assertEqualConstant P _ value => P.Encodes value
  | constantPoint P p => P.Encodes p.x ∧ P.Encodes p.y
  | assertCanonical P _ => P.Comparable
  | div P _ _ | neg P _ | inverseOrZero P _ | isZero P _ => P.modulus ≠ 0
  | chordAdd P _ _ | double P _ _ | doubleAndAdd P _ _ | negPoint P _ => P.modulus ≠ 0
  | addPoint E _ _ | setAddPoint E _ _ _ | completeSum E _ _ => E.Addable
  | scalarMul E _ _ | setScalarMul E _ _ _ => E.Scalable
  | alloc _ | allocPoint _ | select _ _ _ _ | setSelect _ _ _ _ | selectPoint _ _ _ _ => True
  | setConstant _ _ | assertConstant _ _ | setToCopy _ _ | decompose _ _ | greaterThan _ _ _ => True
  | add _ _ _ | sub _ _ _ | mul _ _ _ | blend _ _ _ _ | inverseHint _ _ _ => True
  | setAdd _ _ _ _ | setSub _ _ _ _ | setMul _ _ _ _ => True

variable {c : Call} {b b' : Builder} {answer : List CellSlice}

theorem returns (h : c.Recordable) : Returns c.run := by
  cases c
  case allocArray k length =>
    have halloc : Returns (Record.allocArray k length) := .allocArray h length
    unfold run
    infer_instance
  case limbSum a b result limbBits =>
    have hsum : Returns (Gadget.limbSum a b result limbBits) := .limbSum a limbBits h.1 h.2.1 h.2.2
    unfold run
    infer_instance
  case constantPoint P p =>
    have hx : P.Encodes p.x := h.1
    have hy : P.Encodes p.y := h.2
    unfold run
    infer_instance
  case div P _ _ | neg P _ | inverseOrZero P _ | isZero P _ | chordAdd P _ _ | double P _ _ |
      doubleAndAdd P _ _ | negPoint P _ =>
    have hmodulus : NeZero P.modulus := ⟨h⟩
    unfold run
    infer_instance
  all_goals
    unfold Recordable at h
    unfold run
    infer_instance

theorem recordable_of_run (hrun : c.run.run b = .ok (answer, b')) : c.Recordable := by
  cases c
  all_goals
    unfold run at hrun
    unfold Recordable
  case constantPoint P p => exact ⟨Needs.needs hrun, Needs.needs hrun⟩
  all_goals first
    | trivial
    | exact Needs.needs hrun

theorem ComputesFrom.reports {operands : List CellSlice} (hc : c.ComputesFrom operands)
    (hrun : c.run.run b = .ok (answer, b')) : b.Reports (· ∈ c.checked) b' := by
  have hstep := hc.step (L := (PrimitiveLogic.reporting (· ∈ c.checked)).toRecordLogic)
    (fun _ _ => rfl) fun _ hP => hP
  exact (hstep b answer b' hrun).1

theorem reportsFirst_of_reports (hrun : c.run.run b = .ok (answer, b'))
    (hreports : b.Reports (· ∈ c.checked) b') (hlength : c.checked.length ≤ 1) :
    b.ReportsFirst c.checked b' := by
  cases hchecked : c.checked with
  | nil =>
    rw [hchecked] at hreports
    exact .of_eq (hreports.eq_of_headroom fun P hP => by contradiction)
  | cons P Ps =>
    have hPs : Ps = [] := by
      rw [hchecked, List.length_cons] at hlength
      exact List.eq_nil_of_length_eq_zero (by omega)
    subst hPs
    have hP : P ∈ c.checked := by simp [hchecked]
    rw [hchecked] at hreports
    exact .single (c.grows.grows hrun) hreports ((requires hP).headroom_eq hrun)

section ScalarMul

variable {E : CurveParams} {scalar : FieldRegister E.scalar} {point : PointRegister E.base}

theorem reportsFirst_scalarMul (hrun : (scalarMul E scalar point).run.run b = .ok (answer, b')) :
    b.ReportsFirst [E.scalar, E.base] b' := by
  -- the scalar is checked while it is folded, before anything else is
  have hreports := (ComputesFrom.scalarMul E scalar point).reports hrun
  have hbase : Requires E.base (scalarMul E scalar point).run := requires (by simp [checked])
  obtain ⟨r, b₁, hmul, hpure⟩ := Record.run_bind_eq_ok_iff.mp hrun
  cases hpure
  unfold Gadget.scalarMul at hmul
  obtain ⟨half, b₁, hhalf, hsteps⟩ := Record.run_bind_eq_ok_iff.mp hmul
  obtain ⟨-, rfl⟩ := Record.run_lift_eq_ok_iff.mp hhalf
  obtain ⟨⟨negate, folded⟩, b₂, hfold, hrest⟩ := Record.run_bind_eq_ok_iff.mp hsteps
  let L := (PrimitiveLogic.reporting (· ∈ [E.scalar])).toRecordLogic
  have hstep : L.Step (Gadget.foldScalar E scalar) (Gadget.foldScalar E scalar) _ :=
    RecordLogic.foldScalar (List.mem_singleton_self _) rfl
  have hscalar : b₁.ReportsFirst [E.scalar] b₂ :=
    .single (Grows.grows hfold) (hstep _ _ _ hfold).1 (Requires.headroom_eq hfold)
  exact hscalar.snoc (Grows.grows hrest) hreports (hbase.headroom_eq hrun)

end ScalarMul

section Copy

variable {P : FieldParams}

theorem exists_run_of_copied {g : Record (PointRegister P)} {result : PointRegister P}
    (hrun : (nothing (do Gadget.setToCopyPoint (← g) result)).run b = .ok (answer, b')) :
    ∃ answer₁ b₁, (point g).run b = .ok (answer₁, b₁) ∧ b'.headroomFault? = b₁.headroomFault? := by
  obtain ⟨_, b₂, hcopied, hpure⟩ := Record.run_bind_eq_ok_iff.mp hrun
  cases hpure
  obtain ⟨p, b₁, hg, hcopy⟩ := Record.run_bind_eq_ok_iff.mp hcopied
  refine ⟨p.slices, b₁, Record.run_bind_eq_ok_iff.mpr ⟨p, b₁, hg, rfl⟩, ?_⟩
  obtain ⟨_, b₃, hcopy', hfault⟩ := (Records.setToCopyPoint p result).records b₁
  rw [hcopy] at hcopy'
  cases hcopy'
  exact hfault

end Copy

section Reports

variable {A : FieldParams → Prop} {P : FieldParams}

theorem reports_nothing {g : Record Unit} {R : Unit → Unit → Prop}
    (hstep : (PrimitiveLogic.reporting A).Step g g R) (hrun : (nothing g).run b = .ok (answer, b')) :
    b.Reports A b' := by
  obtain ⟨_, b₁, hg, hpure⟩ := Record.run_bind_eq_ok_iff.mp hrun
  cases hpure
  exact (hstep b _ _ hg).1

theorem reports_limbSum {a : CellSlice} {x y : LimbOperand} {limbBits : Nat}
    (hrun : (limbSum a x y limbBits).run.run b = .ok (answer, b')) : b.Reports A b' := by
  have hself (o : LimbOperand) : o.Corresponds (PrimitiveLogic.reporting A).Run o := by
    cases o with
    | cells s => exact .cells rfl
    | const limbs => exact .const limbs
  have hstep := PrimitiveLogic.limbSum (L := .reporting A) limbBits (a := a) rfl (hself x) (hself y)
  obtain ⟨sum, b₁, hsum, hpure⟩ := Record.run_bind_eq_ok_iff.mp hrun
  cases hpure
  exact (hstep b sum _ hsum).1

theorem Allocates.reports (hc : c.Allocates) (hrun : c.run.run b = .ok (answer, b')) :
    b.Reports A b' := by
  obtain ⟨n, rules, hadds, -, -⟩ := hc.exists_adds hrun
  exact .of_adds hadds

end Reports

theorem reportsFirst (hrun : c.run.run b = .ok (answer, b')) : b.ReportsFirst c.checked b' := by
  -- A call that copies its result into given cells reports what the call without the copy does; scalar
  -- multiplication checks two fields, so its first violation is found by hand.
  cases c
  case alloc k => exact reportsFirst_of_reports hrun (Allocates.reports (.alloc k) hrun) (Nat.zero_le 1)
  case allocArray k length =>
    exact reportsFirst_of_reports hrun (Allocates.reports (.allocArray k length) hrun) (Nat.zero_le 1)
  case allocPoint P =>
    exact reportsFirst_of_reports hrun (Allocates.reports (.allocPoint P) hrun) (Nat.zero_le 1)
  case setSelect | setConstant | assertConstant | setToCopy =>
    cases hrun
    exact .of_eq rfl
  case limbSum => exact reportsFirst_of_reports hrun (reports_limbSum hrun) (Nat.zero_le 1)
  case setAdd P x y r =>
    have hstep := PrimitiveLogic.setAdd (L := .reporting (· ∈ [P])) (List.mem_singleton_self P)
      (a := x) (b := y) (r := r) rfl rfl rfl
    exact reportsFirst_of_reports hrun (reports_nothing hstep hrun) (Nat.le_refl 1)
  case setSub P x y r =>
    have hstep := PrimitiveLogic.setSub (L := .reporting (· ∈ [P])) (List.mem_singleton_self P)
      (a := x) (b := y) (r := r) rfl rfl rfl
    exact reportsFirst_of_reports hrun (reports_nothing hstep hrun) (Nat.le_refl 1)
  case setMul P x y r =>
    have hstep := PrimitiveLogic.setMul (L := .reporting (· ∈ [P])) (List.mem_singleton_self P)
      (a := x) (b := y) (r := r) rfl rfl rfl
    exact reportsFirst_of_reports hrun (reports_nothing hstep hrun) (Nat.le_refl 1)
  case setAddPoint E p q _ =>
    obtain ⟨_, b₁, hadd, hfault⟩ := exists_run_of_copied hrun
    rw [Builder.ReportsFirst, hfault]
    exact reportsFirst_of_reports (c := addPoint E p q) hadd ((ComputesFrom.addPoint E p q).reports hadd)
      (Nat.le_refl 1)
  case scalarMul => exact reportsFirst_scalarMul hrun
  case setScalarMul =>
    obtain ⟨_, b₁, hmul, hfault⟩ := exists_run_of_copied hrun
    rw [Builder.ReportsFirst, hfault]
    exact reportsFirst_scalarMul hmul
  all_goals exact reportsFirst_of_reports hrun (ComputesFrom.reports (by constructor) hrun) (by simp [checked])

section List

variable {calls : List Call} {answers : List (List CellSlice)}

theorem mapM_returns (h : ∀ c ∈ calls, c.Recordable) : Returns (calls.mapM run) := by
  induction calls with
  | nil => exact .pure []
  | cons c calls ih =>
    rw [List.forall_mem_cons] at h
    have hc := returns h.1
    have hrest := ih h.2
    rw [List.mapM_cons]
    infer_instance

theorem recordable_of_mapM (hrun : (calls.mapM run).run b = .ok (answers, b')) :
    ∀ c ∈ calls, c.Recordable := by
  induction calls generalizing b b' answers with
  | nil => exact fun c hc => by contradiction
  | cons c calls ih =>
    rw [List.mapM_cons] at hrun
    obtain ⟨answer, b₁, hc, hrun⟩ := Record.run_bind_eq_ok_iff.mp hrun
    obtain ⟨rest, b₂, hrest, -⟩ := Record.run_bind_eq_ok_iff.mp hrun
    rw [List.forall_mem_cons]
    exact ⟨recordable_of_run hc, ih hrest⟩

theorem mapM_reportsFirst (hrun : (calls.mapM run).run b = .ok (answers, b')) :
    b.ReportsFirst (calls.flatMap checked) b' := by
  induction calls generalizing b answers with
  | nil =>
    cases hrun
    exact .of_eq rfl
  | cons c calls ih =>
    rw [List.mapM_cons] at hrun
    obtain ⟨answer, b₁, hc, hrun⟩ := Record.run_bind_eq_ok_iff.mp hrun
    obtain ⟨rest, b₂, hrest, hpure⟩ := Record.run_bind_eq_ok_iff.mp hrun
    cases hpure
    rw [List.flatMap_cons]
    exact (reportsFirst hc).trans (ih hrest)

end List

/--
Either all calls can be recorded, and building the chip reports the first violation of what they check;
or one of them stops the recording, whatever it would have reported.
-/
theorem build_reports_first_violation (calls : List Call) :
    (∀ c ∈ calls, c.Recordable) ∧ (∃ answers b, (calls.mapM run).run .empty = .ok (answers, b) ∧
        b.build = match (calls.flatMap checked).findSome? FieldParams.violation? with
          | some v => .error (.invalidParameters v)
          | none => .ok ⟨b.instructions, b.numCells, b.manifest⟩) ∨
      (∃ c ∈ calls, ¬ c.Recordable) ∧ ∃ e, (calls.mapM run).run .empty = .error e := by
  by_cases hcalls : ∃ c ∈ calls, ¬ c.Recordable
  · refine .inr ⟨hcalls, ?_⟩
    cases hrun : (calls.mapM run).run .empty with
    | error e => exact ⟨e, rfl⟩
    | ok result =>
      obtain ⟨c, hc, hnot⟩ := hcalls
      exact absurd (recordable_of_mapM hrun c hc) hnot
  · have hall : ∀ c ∈ calls, c.Recordable := fun c hc => by_contra fun hnot => hcalls ⟨c, hc, hnot⟩
    obtain ⟨answers, b, hrun⟩ := (mapM_returns hall).returns .empty
    have hfault : b.headroomFault? = (calls.flatMap checked).findSome? FieldParams.violation? :=
      mapM_reportsFirst hrun
    refine .inl ⟨hall, answers, b, hrun, ?_⟩
    rw [← hfault]
    rfl

def zeroWidth : FieldParams where
  limbBits := 0
  limbs := 2
  witnessLimbs := 2
  offset := 2
  modulus := 7

theorem assertCanonical_stops_recording :
    zeroWidth.violation? = some (.limbWidth 0) ∧
      (([.alloc (.field zeroWidth), .assertCanonical zeroWidth ⟨0⟩] : List Call).mapM run).run .empty =
        .error .underflow := by
  constructor
  · rfl
  · rfl

end Call

end ForeignCurve
