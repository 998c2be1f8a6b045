import ForeignCurve.Proofs.Gadget.Block
import ForeignCurve.Proofs.Gadget.Carrier
import ForeignCurve.Proofs.Gadget.Input
import ForeignCurve.Recording

namespace ForeignCurve

namespace Instruction.IsRule

variable {P : FieldParams} {k n : Nat}

theorem of_mem_fieldRules (h : k + P.limbs ≤ n) : ∀ i ∈ Record.fieldRules P k, i.IsRule n :=
  of_mem h

theorem of_mem_pointRules (h : k + (P.limbs + P.limbs) ≤ n) : ∀ i ∈ Record.pointRules P k, i.IsRule n := by
  unfold Record.pointRules
  rw [List.forall_mem_append]
  exact ⟨of_mem_fieldRules (by omega), of_mem_fieldRules (by omega)⟩

end Instruction.IsRule

namespace Call

section Grows

variable {k : Kind} {P : FieldParams}

instance (g : Record (Register k)) [Grows g] : Grows (register g) := by
  unfold register
  infer_instance

instance (g : Record (RegisterArray k)) [Grows g] : Grows (array g) := by
  unfold array
  infer_instance

instance (g : Record (PointRegister P)) [Grows g] : Grows (point g) := by
  unfold point
  infer_instance

instance (g : Record Unit) [Grows g] : Grows (nothing g) := by
  unfold nothing
  infer_instance

instance grows (c : Call) : Grows c.run := by
  cases c
  all_goals
    unfold run
    infer_instance

end Grows

def checked : Call → List FieldParams
  | constantPoint P _ | constant P _ | assertEqualConstant P _ _ | assertCanonical P _ => [P]
  | add P _ _ | sub P _ _ | mul P _ _ | div P _ _ | neg P _ | blend P _ _ _ => [P]
  | setAdd P _ _ _ | setSub P _ _ _ | setMul P _ _ _ => [P]
  | inverseHint P _ _ | inverseOrZero P _ | isZero P _ => [P]
  | chordAdd P _ _ | double P _ _ | doubleAndAdd P _ _ | negPoint P _ => [P]
  | addPoint E _ _ | setAddPoint E _ _ _ | completeSum E _ _ => [E.base]
  | scalarMul E _ _ | setScalarMul E _ _ _ => [E.scalar, E.base]
  | alloc _ | allocArray _ _ | allocPoint _ | select _ _ _ _ | setSelect _ _ _ _ => []
  | setConstant _ _ | assertConstant _ _ | setToCopy _ _ | selectPoint _ _ _ _ => []
  | decompose _ _ | greaterThan _ _ _ | limbSum _ _ _ _ => []

section Requires

variable {Q : FieldParams}

instance {k : Kind} (g : Record (Register k)) [Requires Q g] : Requires Q (register g) := by
  unfold register
  infer_instance

instance {P : FieldParams} (g : Record (PointRegister P)) [Requires Q g] : Requires Q (point g) := by
  unfold point
  infer_instance

instance (g : Record Unit) [Requires Q g] : Requires Q (nothing g) := by
  unfold nothing
  infer_instance

theorem requires {c : Call} (h : Q ∈ c.checked) : Requires Q c.run := by
  cases c
  case scalarMul E scalar p | setScalarMul E scalar p r =>
    unfold run
    cases List.mem_pair.mp h with
    | inl h =>
      subst h
      infer_instance
    | inr h =>
      subst h
      infer_instance
  all_goals first
    | contradiction
    | cases List.mem_singleton.mp h
      unfold run
      infer_instance

end Requires

inductive Allocates : Call → Prop where
  | alloc (k : Kind) : Allocates (alloc k)
  | allocArray (k : Kind) (length : Nat) : Allocates (allocArray k length)
  | allocPoint (P : FieldParams) : Allocates (allocPoint P)

inductive ComputesFrom : Call → List CellSlice → Prop where
  | constantPoint (P : FieldParams) (p : Point) : ComputesFrom (constantPoint P p) []
  | select {k : Kind} (bit : Register .bit) (a b : Register k) :
    ComputesFrom (select k bit a b) [bit.slice, a.slice, b.slice]
  | decompose (value : Register .element) (count : Nat) :
    ComputesFrom (decompose value count) [value.slice]
  | greaterThan (value : CellSlice) (bound limbBits : Nat) :
    ComputesFrom (greaterThan value bound limbBits) [value]
  | constant (P : FieldParams) (value : Nat) : ComputesFrom (constant P value) []
  | assertEqualConstant {P : FieldParams} (a : FieldRegister P) (value : Nat) :
    ComputesFrom (assertEqualConstant P a value) [a.slice]
  | assertCanonical {P : FieldParams} (a : FieldRegister P) :
    ComputesFrom (assertCanonical P a) [a.slice]
  | add {P : FieldParams} (a b : FieldRegister P) : ComputesFrom (add P a b) [a.slice, b.slice]
  | sub {P : FieldParams} (a b : FieldRegister P) : ComputesFrom (sub P a b) [a.slice, b.slice]
  | mul {P : FieldParams} (a b : FieldRegister P) : ComputesFrom (mul P a b) [a.slice, b.slice]
  | div {P : FieldParams} (a b : FieldRegister P) : ComputesFrom (div P a b) [a.slice, b.slice]
  | neg {P : FieldParams} (a : FieldRegister P) : ComputesFrom (neg P a) [a.slice]
  | blend {P : FieldParams} (selector a b : FieldRegister P) :
    ComputesFrom (blend P selector a b) [selector.slice, a.slice, b.slice]
  | inverseHint {P : FieldParams} (a : FieldRegister P) (allowZero : Bool) :
    ComputesFrom (inverseHint P a allowZero) [a.slice]
  | inverseOrZero {P : FieldParams} (a : FieldRegister P) : ComputesFrom (inverseOrZero P a) [a.slice]
  | isZero {P : FieldParams} (a : FieldRegister P) : ComputesFrom (isZero P a) [a.slice]
  | chordAdd {P : FieldParams} (p q : PointRegister P) :
    ComputesFrom (chordAdd P p q) (p.slices ++ q.slices)
  | double {P : FieldParams} (p : PointRegister P) (a : FieldRegister P) :
    ComputesFrom (double P p a) (p.slices ++ [a.slice])
  | doubleAndAdd {P : FieldParams} (t q : PointRegister P) :
    ComputesFrom (doubleAndAdd P t q) (t.slices ++ q.slices)
  | negPoint {P : FieldParams} (p : PointRegister P) : ComputesFrom (negPoint P p) p.slices
  | selectPoint {P : FieldParams} (bit : Register .bit) (p q : PointRegister P) :
    ComputesFrom (selectPoint P bit p q) (bit.slice :: p.slices ++ q.slices)
  | addPoint (E : CurveParams) (p q : PointRegister E.base) :
    ComputesFrom (addPoint E p q) (p.slices ++ q.slices)
  | completeSum (E : CurveParams) (p q : PointRegister E.base) :
    ComputesFrom (completeSum E p q) (p.slices ++ q.slices)
  | scalarMul (E : CurveParams) (scalar : FieldRegister E.scalar) (point : PointRegister E.base) :
    ComputesFrom (scalarMul E scalar point) (scalar.slice :: point.slices)

theorem ComputesFrom.step {L : RecordLogic} {c : Call} {operands : List CellSlice}
    (hc : c.ComputesFrom operands) (hoperands : ∀ s ∈ operands, L.Run s s)
    (hchecked : ∀ P ∈ c.checked, L.Admits P) : L.Step c.run c.run (fun _ _ => True) := by
  have hstep {α : Type} {g : Record α} {f : α → List CellSlice} {R : α → α → Prop}
      (h : L.Step g g R) :
      L.Step (g >>= fun a => pure (f a)) (g >>= fun a => pure (f a)) (fun _ _ => True) :=
    L.bind h fun _ _ _ => L.pure trivial
  have hfirst {P : FieldParams} {Ps : List FieldParams} (h : c.checked = P :: Ps) : L.Admits P :=
    hchecked P (by simp [h])
  have hsame {k : Kind} {r : Register k} (h : r.slice ∈ operands) : L.Same r r := hoperands _ h
  have hpoint {P : FieldParams} {p : PointRegister P} (h : p.slices ⊆ operands) : L.SamePoint p p :=
    ⟨hsame (h (by simp [PointRegister.slices])), hsame (h (by simp [PointRegister.slices]))⟩
  cases hc with
  | constantPoint P p => exact hstep (RecordLogic.constantPoint (hfirst rfl) p)
  | select bit a b => exact hstep (L.select (hsame (by simp)) (hsame (by simp)) (hsame (by simp)))
  | decompose value count => exact hstep (L.decompose count (hsame (by simp)))
  | greaterThan value bound limbBits =>
    exact hstep (L.greaterThan bound limbBits (hoperands value (by simp)))
  | constant P value => exact hstep (L.constant value (hfirst rfl))
  | assertEqualConstant a value =>
    exact hstep (L.assertEqualConstant value (hfirst rfl) (hsame (by simp)))
  | assertCanonical a => exact hstep (L.assertCanonical (hfirst rfl) (hsame (by simp)))
  | add a b => exact hstep (L.add (hfirst rfl) (hsame (by simp)) (hsame (by simp)))
  | sub a b => exact hstep (L.sub (hfirst rfl) (hsame (by simp)) (hsame (by simp)))
  | mul a b => exact hstep (L.mul (hfirst rfl) (hsame (by simp)) (hsame (by simp)))
  | div a b => exact hstep (RecordLogic.div (hfirst rfl) (hsame (by simp)) (hsame (by simp)))
  | neg a => exact hstep (RecordLogic.neg (hfirst rfl) (hsame (by simp)))
  | blend selector a b =>
    exact hstep
      (RecordLogic.blend (hfirst rfl) (hsame (by simp)) (hsame (by simp)) (hsame (by simp)))
  | inverseHint a allowZero => exact hstep (L.inverseHint allowZero (hfirst rfl) (hsame (by simp)))
  | inverseOrZero a => exact hstep (RecordLogic.inverseOrZero (hfirst rfl) (hsame (by simp)))
  | isZero a => exact hstep (RecordLogic.isZero (hfirst rfl) (hsame (by simp)))
  | chordAdd p q => exact hstep (RecordLogic.chordAdd (hfirst rfl) (hpoint (by simp)) (hpoint (by simp)))
  | double p a => exact hstep (RecordLogic.double (hfirst rfl) (hpoint (by simp)) (hsame (by simp)))
  | doubleAndAdd t q =>
    exact hstep (RecordLogic.doubleAndAdd (hfirst rfl) (hpoint (by simp)) (hpoint (by simp)))
  | negPoint p => exact hstep (RecordLogic.negPoint (hfirst rfl) (hpoint (by simp)))
  | selectPoint bit p q =>
    exact hstep
      (RecordLogic.selectPoint (hsame (by simp)) (hpoint (by simp)) (hpoint (by simp)))
  | addPoint E p q => exact hstep (RecordLogic.addPoint (hfirst rfl) (hpoint (by simp)) (hpoint (by simp)))
  | completeSum E p q =>
    exact hstep (RecordLogic.completeSum (hfirst rfl) (hpoint (by simp)) (hpoint (by simp)))
  | scalarMul E scalar point =>
    have hbase : L.Admits E.base := hchecked E.base (by simp [checked])
    exact hstep (RecordLogic.scalarMul (hfirst rfl) hbase (hsame (by simp)) (hpoint (by simp)))

theorem Allocates.exists_adds {c : Call} (hc : c.Allocates) {b b' : Builder} {runs : List CellSlice}
    (hrun : c.run.run b = .ok (runs, b')) :
    ∃ n rules, b.Adds n rules b' ∧ (∀ i ∈ rules, i.IsRule (b.numCells + n)) ∧
      ∀ j, (∃ s ∈ runs, j ∈ s.indices) ↔ b.numCells ≤ j ∧ j < b.numCells + n := by
  cases hc with
  | alloc k =>
    have hadds : (Call.alloc k).run.AddsAt b.numCells [⟨b.numCells, k.size⟩] k.size _ :=
      Record.AddsAt.bind_pure (.alloc b.numCells k)
    obtain ⟨rfl, hadds⟩ := hadds.of_run hrun
    refine ⟨_, _, hadds, .of_mem (Nat.le_refl _), fun j => ?_⟩
    simp [CellSlice.mem_indices, CellSlice.stop]
  | allocArray k length =>
    obtain ⟨a, b₁, halloc, -⟩ := Record.run_bind_eq_ok_iff.mp hrun
    have hsize : k.size ≠ 0 := Needs.needs halloc
    have hadds : (Call.allocArray k length).run.AddsAt b.numCells
        [⟨b.numCells, k.size * length⟩] (k.size * length) _ :=
      Record.AddsAt.bind_pure (.allocCellArray b.numCells hsize length)
    obtain ⟨rfl, hadds⟩ := hadds.of_run hrun
    refine ⟨_, _, hadds, .of_mem (Nat.le_refl _), fun j => ?_⟩
    simp [CellSlice.mem_indices, CellSlice.stop]
  | allocPoint P =>
    have hadds : (Call.allocPoint P).run.AddsAt b.numCells
        (PointRegister.ofCell P b.numCells).slices (P.limbs + P.limbs) _ :=
      Record.AddsAt.bind_pure (.allocPoint P b.numCells)
    obtain ⟨rfl, hadds⟩ := hadds.of_run hrun
    refine ⟨_, _, hadds, ?_, fun j => ?_⟩
    · exact Instruction.IsRule.of_mem_pointRules (Nat.le_refl _)
    · simp only [PointRegister.slices, PointRegister.ofCell, Register.slice, Kind.size,
        List.mem_cons, List.not_mem_nil, or_false, exists_eq_or_imp, exists_eq_left,
        CellSlice.mem_indices, CellSlice.stop]
      omega

end Call

namespace Carrier

variable {v : Carrier} {b b' : Builder} {runs : List CellSlice}

theorem same {k : Kind} {r : Register k} (h : v.Known r.slice) : v.logic.Same r r :=
  ⟨rfl, h⟩

theorem samePoint {P : FieldParams} {p : PointRegister P} (h : ∀ s ∈ p.slices, v.Known s) :
    v.logic.SamePoint p p :=
  ⟨same (h p.x.slice (by simp [PointRegister.slices])),
    same (h p.y.slice (by simp [PointRegister.slices]))⟩

theorem reaches_of_call {c : Call} {operands : List CellSlice} (hc : c.ComputesFrom operands)
    (hoperands : ∀ s ∈ operands, v.Known s) (hrun : c.run.run b = .ok (runs, b'))
    (hfault : b'.headroomFault? = none) (hcovers : v.Covers b') (hb : v.Reaches b) : v.Reaches b' := by
  have hstep := hc.step (L := v.logic) (fun s hs => ⟨rfl, hoperands s hs⟩)
    fun P hP => (Call.requires hP).headroom_eq hrun hfault
  exact (hstep hrun hcovers hb).1

end Carrier

/--
Recordings that never take an operand from cells that are not allocated yet. The runs of cells are those
that the caller allocated.
-/
inductive Session : Builder → List CellSlice → Prop where
  | start : Session .empty []
  | allocate {b b' : Builder} {inputs runs : List CellSlice} {c : Call} (h : Session b inputs)
    (hc : c.Allocates) (hrun : c.run.run b = .ok (runs, b')) : Session b' (inputs ++ runs)
  | compute {b b' : Builder} {inputs operands runs : List CellSlice} {c : Call} (h : Session b inputs)
    (hc : c.ComputesFrom operands) (hoperands : ∀ s ∈ operands, s.stop ≤ b.numCells)
    (hrun : c.run.run b = .ok (runs, b')) : Session b' inputs

theorem Session.input_lt {b : Builder} {inputs : List CellSlice} (h : Session b inputs) {j : Nat}
    (hj : ∃ s ∈ inputs, j ∈ s.indices) : j < b.numCells := by
  induction h with
  | start =>
    obtain ⟨s, hs, -⟩ := hj
    contradiction
  | @allocate b b' inputs runs c h hc hrun ih =>
    obtain ⟨n, rules, hadds, -, hcells⟩ := hc.exists_adds hrun
    rw [hadds.numCells]
    obtain ⟨s, hs, hj⟩ := hj
    cases List.mem_append.mp hs with
    | inl hs => exact Nat.lt_of_lt_of_le (ih ⟨s, hs, hj⟩) (Nat.le_add_right _ _)
    | inr hs => exact ((hcells j).mp ⟨s, hs, hj⟩).2
  | @compute b b' inputs operands runs c h hc hoperands hrun ih =>
    have hextends : b.Extends b' := Grows.grows hrun
    exact Nat.lt_of_lt_of_le (ih hj) hextends.numCells

end ForeignCurve
