import ForeignCurve.Proofs.Circuit.Acceptance
import ForeignCurve.Proofs.Constraint.Calls

/-!
Polynomials over variables against polynomials over values. The two are implemented apart from each other,
the one by the calls of the constraints and the other by coefficient lists of the witness pass; they agree
on every pair of operands, whatever their lengths.
-/

namespace ForeignCurve

namespace ArithM.Valuation

variable {ε σ F V : Type} [ArithM F V (EStateM ε σ)] [CommRing F]

def YieldsPoly (ν : Valuation ε σ (id : F → F)) (s : σ) (x : EStateM ε σ (List V)) (coeffs : List F)
    (length : Nat) : Prop :=
  Yields ν.le s x fun s' vs => ν.Values s' vs coeffs ∧ vs.length = length

/--
The calls for the polynomials `as` and `bs`, the scalar `c` and the constants `cs` do what is done to the
coefficients `xs` and `ys`, the value `z` and the constants. On coefficients these are the operations of
`Poly`: its sum, difference and product.
-/
structure Mirrors (ν : Valuation ε σ (id : F → F)) (s : σ) (as bs : List V) (c : V) (xs ys : List F) (z : F)
    (cs : List F) : Prop where
  constPoly : ν.YieldsPoly s (ArithM.constPoly cs) cs cs.length
  sum : ν.YieldsPoly s (ArithM.polyAdd as bs) (Poly.addCoeffs xs ys) (max as.length bs.length)
  difference : ν.YieldsPoly s (ArithM.polySub as bs) (Poly.subCoeffs xs ys) (max as.length bs.length)
  shift : ν.YieldsPoly s (ArithM.polyShift as c) (Poly.subCoeffs xs (.replicate xs.length z)) as.length
  scale : ν.YieldsPoly s (ArithM.polyScale as c) (Poly.mulCoeffs xs [z]) as.length
  product : ν.YieldsPoly s (ArithM.polyMul as bs) (Poly.mulCoeffs xs ys)
    (if as = [] ∨ bs = [] then 0 else as.length + bs.length - 1)
  productConst : ν.YieldsPoly s (ArithM.polyMulConst as cs) (Poly.mulCoeffs xs cs)
    (if as = [] ∨ cs = [] then 0 else as.length + cs.length - 1)

theorem yieldsPoly {ν : Valuation ε σ (id : F → F)} {s : σ} {x : EStateM ε σ (List V)} {coeffs : List F}
    {length : Nat} (h : Yields ν.le s x (ν.Values · · coeffs)) (hlen : coeffs.length = length) :
    ν.YieldsPoly s x coeffs length :=
  h.imp fun _ _ _ hvs => ⟨hvs, hvs.length_eq.trans hlen⟩

theorem Values.eq_nil_iff {ν : Valuation ε σ (id : F → F)} {s : σ} {vs : List V} {xs : List F}
    (h : ν.Values s vs xs) : vs = [] ↔ xs = [] := by
  rw [← List.length_eq_zero_iff, ← List.length_eq_zero_iff, h.length_eq]

/-- Where constants and ring operations are right, so is the arithmetic of polynomials of any lengths. -/
theorem mirrors (ν : Valuation ε σ (id : F → F)) {s : σ} {as bs : List V} {c : V} {xs ys : List F} {z : F}
    (ha : ν.Values s as xs) (hb : ν.Values s bs ys) (hc : ν.value s c z) (cs : List F) :
    ν.Mirrors s as bs c xs ys z cs := by
  have hproduct := ν.polyMul ha hb
  have hproductConst := ν.polyMulConst ha cs
  simp only [id_eq] at hproductConst
  rw [← Poly.mulCoeffs_eq_sumRows] at hproduct hproductConst
  have hscale := ν.polyScale ha hc
  rw [← Poly.mulCoeffs_singleton] at hscale
  have hshift := ν.polyShift ha hc
  rw [← Poly.subCoeffs_replicate] at hshift
  have hconst := ν.constPoly s cs
  rw [List.map_id] at hconst
  have hlena := ha.length_eq
  have hlenb := hb.length_eq
  refine ⟨yieldsPoly hconst rfl, yieldsPoly (ν.polyAdd ha hb) ?_, yieldsPoly (ν.polySub ha hb) ?_,
    yieldsPoly hshift ?_, yieldsPoly hscale ?_, yieldsPoly hproduct ?_, yieldsPoly hproductConst ?_⟩
  · rw [Poly.length_addCoeffs, hlena, hlenb]
  · rw [Poly.length_subCoeffs, hlena, hlenb]
  · rw [Poly.subCoeffs_replicate, List.length_map, hlena]
  · rw [Poly.mulCoeffs_singleton, List.length_map, hlena]
  · simp only [Poly.length_mulCoeffs_eq, hlena, hlenb, ha.eq_nil_iff, hb.eq_nil_iff]
  · simp only [Poly.length_mulCoeffs_eq, hlena, ha.eq_nil_iff]

end ArithM.Valuation

namespace Emitter

open Fin.CommRing

def HasValue (t : Table Native) (e : Emitter) (id : NodeId) (x : Native) : Prop :=
  ∃ y, e.graph.Denotes id y ∧ y.value? t = some x

section HasValue

variable {t : Table Native} {e : Emitter} {a b : NodeId} {x y : Native}

theorem yields_hasValue {z : Expr} {call : Emit NodeId} (h : e.Builds call (.ok z) Graph.Denotes)
    (hz : z.value? t = some x) : ArithM.Yields expressions.le e call (HasValue t · · x) := by
  obtain ⟨id, e', hcall, hrec, hid⟩ := h
  exact ⟨id, e', hcall, hrec, z, hid, hz⟩

theorem yields_operation {call : Emit NodeId} {f : Expr → Expr → Expr} {g : Native → Native → Native}
    (hcall : ∀ {z w : Expr}, e.graph.Denotes a z → e.graph.Denotes b w →
      e.Builds call (.ok (f z w)) Graph.Denotes)
    (hf : ∀ z w : Expr, (f z w).value? t = do return g (← z.value? t) (← w.value? t))
    (ha : HasValue t e a x) (hb : HasValue t e b y) :
    ArithM.Yields expressions.le e call (HasValue t · · (g x y)) := by
  obtain ⟨z, hz, hx⟩ := ha
  obtain ⟨w, hw, hy⟩ := hb
  apply yields_hasValue (hcall hz hw)
  rw [hf, hx, hy]
  rfl

theorem yields_neg (ha : HasValue t e a x) :
    ArithM.Yields expressions.le e (neg a) (HasValue t · · (-x)) := by
  obtain ⟨z, hz, hx⟩ := ha
  apply yields_hasValue (builds_neg hz)
  rw [(Expr.hom_value? t).neg, hx]
  rfl

end HasValue

def values (t : Table Native) : ArithM.Valuation Abort Emitter (id : Native → Native) where
  le := expressions.le
  value := HasValue t
  refl := expressions.refl
  trans := expressions.trans
  mono := by
    rintro e e' a x h ⟨y, hy, hx⟩
    exact ⟨y, expressions.mono h hy, hx⟩
  const e c := yields_hasValue (builds_const c) rfl
  add ha hb := yields_operation builds_add (Expr.hom_value? t).add ha hb
  sub ha hb := yields_operation builds_sub (Expr.hom_value? t).sub ha hb
  neg ha := yields_neg ha
  mul ha hb := yields_operation builds_mul (Expr.hom_value? t).mul ha hb

def threeCells : Table Native :=
  ⟨⟨3, by decide⟩, #[some 2, some 3, some 5], by decide⟩

theorem values_threeCells {i : Nat} {x : Native} (hi : i < 3)
    (hx : threeCells.get? (threeCells.layout.cell i) = some x) :
    (values threeCells).value (.empty threeCells.layout 3) i x :=
  ⟨_, denotes_cell hi, (Expr.value?_cell threeCells _).trans hx⟩

theorem mirrors_threeCells :
    (values threeCells).Values (.empty threeCells.layout 3) [0, 1] [2, 3] ∧
      (values threeCells).Values (.empty threeCells.layout 3) [2] [5] ∧
      (values threeCells).value (.empty threeCells.layout 3) 1 3 ∧
      (values threeCells).Mirrors (.empty threeCells.layout 3) [0, 1] [2] 1 [2, 3] [5] 3 [1, 7, 4] := by
  have h₀ := values_threeCells (show 0 < 3 by decide) rfl
  have h₁ := values_threeCells (show 1 < 3 by decide) rfl
  have h₂ := values_threeCells (show 2 < 3 by decide) rfl
  exact ⟨.cons h₀ (.cons h₁ .nil), .cons h₂ .nil, h₁,
    (values threeCells).mirrors (.cons h₀ (.cons h₁ .nil)) (.cons h₂ .nil) h₁ [1, 7, 4]⟩

end Emitter

end ForeignCurve
