import ForeignCurve.Constraint.Script
import ForeignCurve.Proofs.Constraint.Calls

namespace ForeignCurve.Script

open Emitter

inductive Line where
  | value (v : ValueStep)
  | assert (a : AssertStep)

namespace Line

end Line

section Reading

variable {V W : Type} [Arith V] [Arith W]

def read (cells : CellValues V) : Values V → List Line → Except Abort (List (Assertion V))
  | _, [] => return []
  | vs, .value v :: lines => do
    let new ← v.values cells vs
    read cells (vs ++ new) lines
  | vs, .assert a :: lines => do
    let as ← Assertion.checked [← a.assertion vs]
    return as ++ (← read cells vs lines)

variable {f : V → W} (hf : Arith.Hom f)

omit [Arith V] [Arith W] in
theorem Values.get_map (f : V → W) (vs : Values V) (i : Nat) :
    Values.get (vs.map f) i = (vs.get i).map f := by
  unfold Values.get
  rw [Array.getElem?_map]
  cases vs[i]? <;> rfl

omit [Arith V] [Arith W] in
theorem Values.getAll_map (f : V → W) (vs : Values V) (is : List Nat) :
    Values.getAll (vs.map f) is = (vs.getAll is).map (List.map f) := by
  unfold Values.getAll
  rw [← mapM_map]
  congr 1
  funext i
  exact Values.get_map f vs i

include hf

theorem ValueStep.values_map (cells : CellValues V) (vs : Values V) (v : ValueStep) :
    v.values (cells.map f) (vs.map f) = (v.values cells vs).map (List.map f) := by
  cases v with
  | cells s => exact CellValues.slice_map f cells s
  | const c => exact congrArg (fun x => Except.ok [x]) (hf.const c).symm
  | constPoly cs => exact congrArg Except.ok (hf.map_constPoly cs).symm
  | add a b | sub a b | neg a | mul a b | addConst a c | subConst a c | mulConst a c | polyAdd as bs
  | polySub as bs | polyMul as bs | polyShift as b | polyScale as b | polyMulConst as cs =>
    simp only [values, Values.get_map, Values.getAll_map, bind_map, map_bind, map_pure,
      List.map_cons, List.map_nil, hf.add, hf.sub, hf.neg, hf.mul, hf.map_addConst, hf.map_subConst, hf.map_mulConst,
      hf.map_polyAdd, hf.map_polySub, hf.map_polyMul, hf.map_polyShift, hf.map_polyScale,
      hf.map_polyMulConst]

end Reading

section Filter

variable {V : Type} [Arith V] {cells : CellValues V} {vs : Values V} {lines : List Line}
  {as : List (Assertion V)}

end Filter

section Emission

variable {e : Emitter} {ids : Values NodeId} {xs : Values Expr}
  (h : e.graph.DenoteAll ids.toList xs.toList)

include h

theorem agree_get (i : Nat) : Agree e.graph.Denotes (ids.get i) (xs.get i) := by
  have hsize : ids.size = xs.size := h.length_eq
  unfold Values.get
  by_cases hi : i < ids.size
  · rw [Array.getElem?_eq_getElem hi, Array.getElem?_eq_getElem (hsize ▸ hi)]
    exact .ok (h.get hi (Nat.lt_of_lt_of_eq hi hsize))
  · rw [Array.getElem?_eq_none (Nat.not_lt.mp hi), Array.getElem?_eq_none (hsize ▸ Nat.not_lt.mp hi)]
    exact .error _

theorem builds_get (i : Nat) : e.Builds (liftM (ids.get i)) (xs.get i) Graph.Denotes :=
  builds_agree (agree_get h i)

theorem builds_getAll (is : List Nat) :
    e.Builds (liftM (ids.getAll is)) (xs.getAll is) Graph.DenoteAll :=
  builds_agree (Agree.mapM (agree_get h) is)

theorem ValueStep.builds_emit (v : ValueStep) :
    e.Builds (v.emit ids) (v.values e.cells xs) Graph.DenoteAll := by
  have hget (b : Nat) (e' : Emitter) (h' : e.Records [] e') := builds_get (h.mono h'.graph) b
  have hgetAll (bs : List Nat) (e' : Emitter) (h' : e.Records [] e') := builds_getAll (h.mono h'.graph) bs
  cases v with
  | cells s => exact e.builds_slice s
  | const c => exact (builds_const c).singleton
  | constPoly cs => exact builds_constPoly cs
  | add a b => exact (builds_get h a).bind₂ .mono (hget b) fun ha hb => (builds_add ha hb).singleton
  | sub a b => exact (builds_get h a).bind₂ .mono (hget b) fun ha hb => (builds_sub ha hb).singleton
  | neg a => exact (builds_get h a).bind fun _ _ _ _ ha => (builds_neg ha).singleton
  | mul a b => exact (builds_get h a).bind₂ .mono (hget b) fun ha hb => (builds_mul ha hb).singleton
  | addConst a c => exact (builds_get h a).bind fun _ _ _ _ ha => (builds_addConst ha c).singleton
  | subConst a c => exact (builds_get h a).bind fun _ _ _ _ ha => (builds_subConst ha c).singleton
  | mulConst a c => exact (builds_get h a).bind fun _ _ _ _ ha => (builds_mulConst ha c).singleton
  | polyAdd as bs => exact (builds_getAll h as).bind₂ Graph.DenoteAll.mono (hgetAll bs) builds_polyAdd
  | polySub as bs => exact (builds_getAll h as).bind₂ Graph.DenoteAll.mono (hgetAll bs) builds_polySub
  | polyMul as bs => exact (builds_getAll h as).bind₂ Graph.DenoteAll.mono (hgetAll bs) builds_polyMul
  | polyShift as b => exact (builds_getAll h as).bind₂ Graph.DenoteAll.mono (hget b) builds_polyShift
  | polyScale as b => exact (builds_getAll h as).bind₂ Graph.DenoteAll.mono (hget b) builds_polyScale
  | polyMulConst as cs => exact (builds_getAll h as).bind fun _ _ _ _ ha => builds_polyMulConst ha cs

theorem AssertStep.asserts_emit (a : AssertStep) :
    e.Asserts (a.emit ids) (a.assertion xs >>= fun b => Assertion.checked [b]) := by
  cases a with
  | vanishes a =>
    simp only [assertion, bind_assoc, pure_bind]
    refine (builds_get h a).bind fun a x e₁ h₁ ha => ?_
    exact (asserts_constraint ha).checked
  | equal a b =>
    simp only [assertion, bind_assoc, pure_bind]
    refine (builds_get h a).bind₂ .mono (fun _ h' => builds_get (h.mono h'.graph) b) fun ha hb => ?_
    exact (asserts_assertEqual ha hb).checked
  | lookup table as =>
    simp only [assertion, bind_assoc, pure_bind]
    refine (builds_getAll h as).bind fun as xs e₁ h₁ ha => ?_
    exact (asserts_lookup table ha).checked
  | link a b => exact e.asserts_link a b

end Emission

namespace Emission

def line : Line → EStateM Abort Emission Unit
  | .value v => do
    let _ ← value v
  | .assert a => assert a

end Emission

end ForeignCurve.Script
