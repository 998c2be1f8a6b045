import ForeignCurve.Constraint.Calls
import ForeignCurve.Proofs.Constraint.Emitter
import ForeignCurve.Proofs.Constraint.Valuation

namespace ForeignCurve

open ForeignCurve.Graph

instance : Add Expr := Arith.toAdd

instance : Sub Expr := Arith.toSub

instance : Neg Expr := Arith.toNeg

instance : Mul Expr := Arith.toMul

namespace Emitter

def expressions : ArithM.Valuation Abort Emitter (Arith.const : Native → Expr) where
  le e e' := e.Records [] e'
  value e id x := e.graph.Denotes id x
  refl := Records.refl
  trans h h' := h.trans h'
  mono h ha := ha.mono h.graph
  const _ c := builds_const c
  add ha hb := builds_add ha hb
  sub ha hb := builds_sub ha hb
  neg ha := builds_neg ha
  mul ha hb := builds_mul ha hb

variable {e : Emitter} {a b : NodeId} {x y : Expr} {as bs : List NodeId} {xs ys : List Expr}

theorem builds_addConst (ha : e.graph.Denotes a x) (c : Native) :
    e.Builds (addConst a c) (.ok (Arith.addConst x c)) Denotes :=
  expressions.addConst ha c

theorem builds_subConst (ha : e.graph.Denotes a x) (c : Native) :
    e.Builds (subConst a c) (.ok (Arith.subConst x c)) Denotes :=
  expressions.subConst ha c

theorem builds_mulConst (ha : e.graph.Denotes a x) (c : Native) :
    e.Builds (mulConst a c) (.ok (Arith.mulConst x c)) Denotes :=
  expressions.mulConst ha c

theorem asserts_assertEqual (ha : e.graph.Denotes a x) (hb : e.graph.Denotes b y) :
    e.Asserts (assertEqual a b) (.ok [.vanishes (Arith.sub x y)]) :=
  (builds_sub ha hb).step fun _ _ _ hc => asserts_constraint hc

theorem builds_constPoly (cs : List Native) :
    e.Builds (constPoly cs) (.ok (Arith.constPoly cs)) DenoteAll :=
  expressions.constPoly e cs

theorem builds_polyAdd (ha : e.graph.DenoteAll as xs) (hb : e.graph.DenoteAll bs ys) :
    e.Builds (polyAdd as bs) (.ok (Arith.polyAdd xs ys)) DenoteAll := by
  rw [Arith.polyAdd_eq]
  exact expressions.polyAdd ha hb

theorem builds_polySub (ha : e.graph.DenoteAll as xs) (hb : e.graph.DenoteAll bs ys) :
    e.Builds (polySub as bs) (.ok (Arith.polySub xs ys)) DenoteAll := by
  rw [Arith.polySub_eq]
  exact expressions.polySub ha hb

theorem builds_polyShift (ha : e.graph.DenoteAll as xs) (hb : e.graph.Denotes b y) :
    e.Builds (polyShift as b) (.ok (Arith.polyShift xs y)) DenoteAll :=
  expressions.polyShift ha hb

theorem builds_polyScale (ha : e.graph.DenoteAll as xs) (hb : e.graph.Denotes b y) :
    e.Builds (polyScale as b) (.ok (Arith.polyScale xs y)) DenoteAll :=
  expressions.polyScale ha hb

theorem builds_polyMul (ha : e.graph.DenoteAll as xs) (hb : e.graph.DenoteAll bs ys) :
    e.Builds (polyMul as bs) (.ok (Arith.polyMul xs ys)) DenoteAll := by
  rw [Arith.polyMul, Arith.mulAcc_eq]
  exact expressions.polyMul ha hb

theorem builds_polyMulConst (ha : e.graph.DenoteAll as xs) (cs : List Native) :
    e.Builds (polyMulConst as cs) (.ok (Arith.polyMulConst xs cs)) DenoteAll := by
  rw [Arith.polyMulConst, Arith.mulAcc_eq]
  exact expressions.polyMulConst ha cs

end Emitter

end ForeignCurve
