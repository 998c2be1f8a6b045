import ForeignCurve.Proofs.Curve.Elliptic

/-!
The reference arithmetic on every curve whose constant term does not vanish, singular ones included. It
never subtracts below zero, and takes points of the curve to points of the curve; sums commute, and are
the point at infinity for negatives only. On a singular curve they need not be associative.
-/

namespace ForeignCurve

open WeierstrassCurve.Affine

namespace Coordinates

section Field

variable {F : Type} [Field F] {a b : F} {P Q : Coordinates F}

def OnCurve (P : Coordinates F) (a b : F) : Prop :=
  P = 0 ∨ P.Solves a b

theorem neg_zero_eq : -(0 : Coordinates F) = 0 :=
  Coordinates.ext rfl neg_zero

theorem Solves.neg (h : P.Solves a b) : (-P).Solves a b := by
  unfold Solves at h ⊢
  exact (neg_mul_neg P.y P.y).trans h

theorem OnCurve.neg (h : P.OnCurve a b) : (-P).OnCurve a b := by
  obtain rfl | h := h
  · exact .inl neg_zero_eq
  · exact .inr h.neg

theorem Solves.eq_or_eq_neg (hP : P.Solves a b) (hQ : Q.Solves a b) (hx : P.x = Q.x) :
    Q = P ∨ Q = -P := by
  unfold Solves at hP hQ
  rw [← hx, ← hP] at hQ
  obtain hy | hy := mul_self_eq_mul_self_iff.mp hQ
  · exact .inl (Coordinates.ext hx.symm hy)
  · exact .inr (Coordinates.ext hx.symm hy)

variable [DecidableEq F]

theorem Solves.tangent (htwo : (2 : F) ≠ 0) (hP : P.Solves a b) (hy : P.y ≠ 0) :
    (P.chord P.x (P.tangentSlope a)).Solves a b := by
  have hne : P.y ≠ (shortCurve a b).negY P.x P.y := by
    rw [negY_shortCurve]
    intro h
    exact mul_ne_zero htwo hy (by linear_combination h)
  have hslope : (shortCurve a b).slope P.x P.x P.y P.y = P.tangentSlope a := by
    rw [slope_of_Y_ne rfl hne, negY_shortCurve, tangentSlope]
    change (3 * P.x ^ 2 + 2 * 0 * P.x + a - 0 * P.y) / (P.y - -P.y) = _
    congr 1
    · ring
    · ring
  have heq := (equation_shortCurve P.x P.y).mpr hP
  have h := equation_add heq heq fun hxy => hne hxy.2
  rwa [hslope, addX_shortCurve, addY_shortCurve, equation_shortCurve] at h

theorem add_self (P : Coordinates F) (htwo : (2 : F) ≠ 0) : P.add P a = P.double a := by
  unfold add
  by_cases hP : P = 0
  · have hy : (0 : Coordinates F).y = 0 := rfl
    rw [if_pos hP, double, hP, if_pos hy]
  · rw [if_neg hP, if_neg hP, if_pos rfl]
    by_cases hy : P.y = 0
    · rw [if_pos (by rw [hy, add_zero]), double, if_pos hy]
    · rw [if_neg fun h => mul_ne_zero htwo hy (by rw [two_mul, h])]

theorem add_zero_eq (P : Coordinates F) : P.add 0 a = P := by
  unfold add
  by_cases hP : P = 0
  · rw [if_pos hP, hP]
  · rw [if_neg hP, if_pos rfl]

theorem add_neg_self (P : Coordinates F) : P.add (-P) a = 0 := by
  by_cases hP : P = 0
  · rw [hP, neg_zero_eq, add_zero_eq]
  · have hneg : -P ≠ 0 := by
      intro h
      obtain ⟨hx, hy⟩ := Coordinates.ext_iff.mp h
      exact hP (Coordinates.ext hx (neg_eq_zero.mp hy))
    have hx : P.x = (-P).x := rfl
    have hy : P.y + (-P).y = 0 := add_neg_cancel P.y
    rw [add, if_neg hP, if_neg hneg, if_pos hx, if_pos hy]

theorem add_cases (htwo : (2 : F) ≠ 0) (hP : P.OnCurve a b) (hQ : Q.OnCurve a b) :
    (P = 0 ∧ P.add Q a = Q) ∨ (Q = 0 ∧ P.add Q a = P) ∨ (Q = -P ∧ P.add Q a = 0) ∨
      (P.Solves a b ∧ Q = P ∧ P.y ≠ 0 ∧ P.add Q a = P.chord P.x (P.tangentSlope a)) ∨
      (P.Solves a b ∧ Q.Solves a b ∧ P.x ≠ Q.x ∧ P.add Q a = P.chord Q.x (P.chordSlope Q)) := by
  by_cases hP₀ : P = 0
  · exact .inl ⟨hP₀, if_pos hP₀⟩
  by_cases hQ₀ : Q = 0
  · exact .inr (.inl ⟨hQ₀, by rw [hQ₀, add_zero_eq]⟩)
  have hP' := hP.resolve_left hP₀
  have hQ' := hQ.resolve_left hQ₀
  by_cases hx : P.x = Q.x
  · obtain rfl | rfl := hP'.eq_or_eq_neg hQ' hx
    · by_cases hy : Q.y = 0
      · have hneg : Q = -Q := Coordinates.ext rfl (by change Q.y = -Q.y; rw [hy, neg_zero])
        exact .inr (.inr (.inl ⟨hneg, by rw [add_self _ htwo, double, if_pos hy]⟩))
      · refine .inr (.inr (.inr (.inl ⟨hP', rfl, hy, ?_⟩)))
        rw [add_self _ htwo, double_eq_chord hy]
    · exact .inr (.inr (.inl ⟨rfl, add_neg_self P⟩))
  · exact .inr (.inr (.inr (.inr ⟨hP', hQ', hx, add_eq_chord hP₀ hQ₀ hx a⟩)))

theorem OnCurve.add (htwo : (2 : F) ≠ 0) (hP : P.OnCurve a b) (hQ : Q.OnCurve a b) :
    (P.add Q a).OnCurve a b := by
  obtain ⟨-, h⟩ | ⟨-, h⟩ | ⟨-, h⟩ | ⟨hP', -, hy, h⟩ | ⟨hP', hQ', hx, h⟩ := add_cases htwo hP hQ
  · rwa [h]
  · rwa [h]
  · exact .inl h
  · exact .inr (h ▸ hP'.tangent htwo hy)
  · exact .inr (h ▸ hP'.chord hQ' hx)

theorem add_comm_of_onCurve (htwo : (2 : F) ≠ 0) (hP : P.OnCurve a b) (hQ : Q.OnCurve a b) :
    P.add Q a = Q.add P a := by
  obtain ⟨rfl, h⟩ | ⟨rfl, h⟩ | ⟨rfl, h⟩ | ⟨-, rfl, -, -⟩ | ⟨hP', hQ', hx, h⟩ := add_cases htwo hP hQ
  · rw [h, add_zero_eq]
  · exact h.trans (if_pos rfl).symm
  · have hneg : - -P = P := Coordinates.ext rfl (neg_neg P.y)
    have hcancel := add_neg_self (a := a) (-P)
    rw [hneg] at hcancel
    rw [h, hcancel]
  · rfl
  · by_cases hP₀ : P = 0
    · rw [hP₀, add_zero_eq, Coordinates.add, if_pos rfl]
    by_cases hQ₀ : Q = 0
    · rw [hQ₀, add_zero_eq, Coordinates.add, if_pos rfl]
    rw [h, add_eq_chord hQ₀ hP₀ hx.symm, chord_comm hx]

theorem add_eq_zero_iff (htwo : (2 : F) ≠ 0) (hb : b ≠ 0) (hP : P.OnCurve a b) (hQ : Q.OnCurve a b) :
    P.add Q a = 0 ↔ Q = -P := by
  -- no chord or tangent goes through `(0, 0)`
  refine ⟨fun hzero => ?_, fun h => h ▸ add_neg_self P⟩
  obtain ⟨rfl, h⟩ | ⟨rfl, h⟩ | ⟨h, -⟩ | ⟨hP', -, hy, h⟩ | ⟨hP', hQ', hx, h⟩ := add_cases htwo hP hQ
  · rw [← h, hzero, neg_zero_eq]
  · rw [← h, hzero, neg_zero_eq]
  · exact h
  · exact absurd (h.symm.trans hzero) ((hP'.tangent htwo hy).ne_zero hb)
  · exact absurd (h.symm.trans hzero) ((hP'.chord hQ' hx).ne_zero hb)

end Field

end Coordinates

namespace Point

open Coordinates

variable {E : CurveParams} {P Q : Point}

section Reference

variable [hp : Fact E.base.modulus.Prime]

theorem On.exists_coordinates (h : P.On E) :
    ∃ X : Coordinates (ZMod E.base.modulus), X.OnCurve E.a E.b ∧ X.toPoint = P := by
  have hpoint : (ofPoint E.base.modulus P).toPoint = P := by
    rw [toPoint_ofPoint, reduce_of_reduced h.reduced]
  have hcurve := h.onCurve
  rw [← hpoint, CurveParams.onCurve_toPoint_iff] at hcurve
  exact ⟨_, hcurve, hpoint⟩

theorem on_toPoint {X : Coordinates (ZMod E.base.modulus)} (h : X.OnCurve E.a E.b) : X.toPoint.On E where
  reduced := ⟨ZMod.val_lt _, ZMod.val_lt _⟩
  onCurve := CurveParams.onCurve_toPoint_iff.mpr h

theorem toPoint_inj {X Y : Coordinates (ZMod E.base.modulus)} : X.toPoint = Y.toPoint ↔ X = Y := by
  constructor
  · intro h
    rw [← ofPoint_toPoint X, h, ofPoint_toPoint]
  · rintro rfl
    rfl

variable (hodd : E.base.modulus ≠ 2)

include hodd

theorem exists_double (hP : P.On E) : ∃ D, D.On E ∧ double E P = .ok D ∧ add E P P = .ok D := by
  have htwo := two_ne_zero_of_odd hodd
  obtain ⟨X, hX, rfl⟩ := hP.exists_coordinates
  refine ⟨_, on_toPoint (hX.add htwo hX), ?_, add_eq_ok hodd X X⟩
  rw [double_eq_ok hodd, add_self X htwo]

theorem exists_add (hP : P.On E) (hQ : Q.On E) : ∃ S, S.On E ∧ add E P Q = .ok S := by
  obtain ⟨X, hX, rfl⟩ := hP.exists_coordinates
  obtain ⟨Y, hY, rfl⟩ := hQ.exists_coordinates
  exact ⟨_, on_toPoint (hX.add (two_ne_zero_of_odd hodd) hY), add_eq_ok hodd X Y⟩

theorem exists_mul_go (digits scalar : Nat) {acc power : Point} (hacc : acc.On E) (hpower : power.On E) :
    ∃ M, M.On E ∧ mul.go E digits scalar acc power = .ok M := by
  -- whether or not a digit is set, the sum and the power stay on the curve
  induction digits generalizing scalar acc power with
  | zero => exact ⟨acc, hacc, rfl⟩
  | succ digits ih =>
    obtain ⟨D, hD, hdouble, -⟩ := exists_double hodd hpower
    rw [mul.go]
    by_cases hbit : scalar % 2 = 1
    · obtain ⟨S, hS, hadd⟩ := exists_add hodd hacc hpower
      obtain ⟨M, hM, hgo⟩ := ih (scalar / 2) hS hD
      rw [if_pos hbit]
      exact ⟨M, hM, bind_eq_ok_iff.mpr ⟨S, hadd, bind_eq_ok_iff.mpr ⟨D, hdouble, hgo⟩⟩⟩
    · obtain ⟨M, hM, hgo⟩ := ih (scalar / 2) hacc hD
      rw [if_neg hbit]
      exact ⟨M, hM, bind_eq_ok_iff.mpr ⟨acc, rfl, bind_eq_ok_iff.mpr ⟨D, hdouble, hgo⟩⟩⟩

end Reference

theorem on_identity (E : CurveParams) (h : 0 < E.base.modulus) : identity.On E where
  reduced := ⟨h, h⟩
  onCurve := rfl

/--
The reference arithmetic on the points of a curve over a prime field of odd order: it always returns, and
what it returns is a point of the curve with reduced coordinates. The sum commutes, the point at infinity
is neutral, and it is the sum of two points exactly if each is the negative of the other.
-/
theorem arithmetic_closed (hprime : E.base.modulus.Prime) (hodd : E.base.modulus ≠ 2)
    (hb : E.b % E.base.modulus ≠ 0) (hP : P.On E) (hQ : Q.On E) (scalar : Nat) :
    (∃ N, N.On E ∧ neg E P = .ok N ∧ add E P N = .ok identity) ∧
      (∃ D, D.On E ∧ double E P = .ok D ∧ add E P P = .ok D) ∧
      (∃ S, S.On E ∧ add E P Q = .ok S ∧ add E Q P = .ok S ∧
        (S = identity ↔ neg E P = .ok Q) ∧ (S = identity ↔ neg E Q = .ok P)) ∧
      (∃ M, M.On E ∧ mul E P scalar = .ok M) ∧
      add E P identity = .ok P := by
  have : Fact E.base.modulus.Prime := ⟨hprime⟩
  have htwo := two_ne_zero_of_odd hodd
  have hb' := CurveParams.natCast_ne_zero hb
  refine ⟨?_, exists_double hodd hP, ?_,
    exists_mul_go hodd _ scalar (on_identity E hprime.pos) hP, ?_⟩
  · obtain ⟨X, hX, rfl⟩ := hP.exists_coordinates
    refine ⟨_, on_toPoint hX.neg, neg_eq_ok X, ?_⟩
    rw [add_eq_ok hodd, add_neg_self, toPoint_zero]
  · obtain ⟨X, hX, rfl⟩ := hP.exists_coordinates
    obtain ⟨Y, hY, rfl⟩ := hQ.exists_coordinates
    have hcomm := add_comm_of_onCurve htwo hX hY
    refine ⟨_, on_toPoint (hX.add htwo hY), add_eq_ok hodd X Y, ?_, ?_, ?_⟩
    · rw [add_eq_ok hodd, hcomm]
    · rw [neg_eq_ok, Except.ok.injEq, toPoint_inj, ← toPoint_zero, toPoint_inj,
        add_eq_zero_iff htwo hb' hX hY, eq_comm]
    · rw [neg_eq_ok, Except.ok.injEq, toPoint_inj, ← toPoint_zero, toPoint_inj, hcomm,
        add_eq_zero_iff htwo hb' hY hX, eq_comm]
  · obtain ⟨X, -, rfl⟩ := hP.exists_coordinates
    rw [← toPoint_zero, add_eq_ok hodd, add_zero_eq]

def nodalCurve : CurveParams :=
  { CurveParams.evenCurve with a := 4, b := 2, generator := ⟨0, 3⟩ }

theorem arithmetic_closed_nodalCurve :
    let E := nodalCurve
    let P : Point := ⟨1, 0⟩
    let Q : Point := ⟨0, 3⟩
    E.base.modulus.Prime ∧ E.base.modulus ≠ 2 ∧ E.b % E.base.modulus ≠ 0 ∧ P.On E ∧ Q.On E ∧
      add E P Q = .ok P ∧ neg E P = .ok P ∧
      (∃ N, N.On E ∧ neg E P = .ok N ∧ add E P N = .ok identity) ∧
      (∃ D, D.On E ∧ double E P = .ok D ∧ add E P P = .ok D) ∧
      (∃ S, S.On E ∧ add E P Q = .ok S ∧ add E Q P = .ok S ∧
        (S = identity ↔ neg E P = .ok Q) ∧ (S = identity ↔ neg E Q = .ok P)) ∧
      (∃ M, M.On E ∧ mul E P 5 = .ok M) ∧
      add E P identity = .ok P := by
  have hprime : nodalCurve.base.modulus.Prime := by decide
  have hP : On nodalCurve ⟨1, 0⟩ := ⟨⟨by decide, by decide⟩, by decide⟩
  have hQ : On nodalCurve ⟨0, 3⟩ := ⟨⟨by decide, by decide⟩, by decide⟩
  exact ⟨hprime, by decide, by decide, hP, hQ, by decide, by decide,
    arithmetic_closed hprime (by decide) (by decide) hP hQ 5⟩

end Point

end ForeignCurve
