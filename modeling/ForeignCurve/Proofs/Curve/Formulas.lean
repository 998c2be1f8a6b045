import ForeignCurve.Curve.Point
import ForeignCurve.Instruction.Basic
import ForeignCurve.Proofs.Instruction.Hint

namespace ForeignCurve

namespace Point

structure Reduced (p : Nat) (P : Point) : Prop where
  x : P.x < p
  y : P.y < p

def reduce (p : Nat) (P : Point) : Point :=
  ⟨P.x % p, P.y % p⟩

theorem reduce_of_reduced {p : Nat} {P : Point} (h : P.Reduced p) : P.reduce p = P := by
  unfold reduce
  rw [Nat.mod_eq_of_lt h.x, Nat.mod_eq_of_lt h.y]

end Point

@[ext]
structure Coordinates (F : Type) where
  x : F
  y : F
deriving DecidableEq

namespace Coordinates

variable {F : Type}

instance [Zero F] : Zero (Coordinates F) := ⟨⟨0, 0⟩⟩

instance [Neg F] : Neg (Coordinates F) := ⟨fun P => ⟨P.x, -P.y⟩⟩

section Field

variable [Field F]

def chord (P : Coordinates F) (x slope : F) : Coordinates F :=
  let u := slope * slope - P.x - x
  ⟨u, slope * (P.x - u) - P.y⟩

def chordSlope (P Q : Coordinates F) : F :=
  (Q.y - P.y) / (Q.x - P.x)

def tangentSlope (P : Coordinates F) (a : F) : F :=
  (3 * (P.x * P.x) + a) / (2 * P.y)

def doubleAndAdd (T Q : Coordinates F) : Coordinates F :=
  let slope := T.chordSlope Q
  let x := slope * slope - T.x - Q.x
  let slope := slope + (T.y + T.y) / (x - T.x)
  let xr := slope * slope - T.x - x
  ⟨xr, slope * (xr - T.x) - T.y⟩

def Solves (P : Coordinates F) (a b : F) : Prop :=
  P.y * P.y = P.x * P.x * P.x + a * P.x + b

section Chord

variable {P Q : Coordinates F}

theorem mul_chordSlope (h : P.x ≠ Q.x) : P.chordSlope Q * (Q.x - P.x) = Q.y - P.y :=
  div_mul_cancel₀ _ (sub_ne_zero.mpr h.symm)

theorem chordSlope_comm (P Q : Coordinates F) : Q.chordSlope P = P.chordSlope Q := by
  unfold chordSlope
  rw [← neg_sub Q.y, ← neg_sub Q.x, neg_div_neg_eq]

theorem chord_comm (h : P.x ≠ Q.x) :
    Q.chord P.x (Q.chordSlope P) = P.chord Q.x (P.chordSlope Q) := by
  have hrise := mul_chordSlope h
  rw [chordSlope_comm]
  generalize P.chordSlope Q = s at *
  unfold chord
  apply Coordinates.ext
  · ring
  · linear_combination hrise

theorem chordSlope_chord {T : Coordinates F} (s : F) (h : (T.chord Q.x s).x ≠ T.x) :
    T.chordSlope (T.chord Q.x s) = -(s + (T.y + T.y) / ((T.chord Q.x s).x - T.x)) := by
  have hsub := sub_ne_zero.mpr h
  rw [chordSlope, div_eq_iff hsub, neg_mul, add_mul, div_mul_cancel₀ _ hsub]
  unfold chord
  ring

theorem doubleAndAdd_eq_chord {T : Coordinates F} (h : (T.chord Q.x (T.chordSlope Q)).x ≠ T.x) :
    T.doubleAndAdd Q = T.chord (T.chord Q.x (T.chordSlope Q)).x
      (T.chordSlope (T.chord Q.x (T.chordSlope Q))) := by
  -- the second slope is the negative of a chord's
  rw [chordSlope_chord _ h]
  unfold chord doubleAndAdd
  apply Coordinates.ext
  · ring
  · ring

end Chord

variable [DecidableEq F]

def double (P : Coordinates F) (a : F) : Coordinates F :=
  if P.y = 0 then 0 else P.chord P.x (P.tangentSlope a)

def add (P Q : Coordinates F) (a : F) : Coordinates F :=
  if P = 0 then Q
  else if Q = 0 then P
  else if P.x = Q.x then
    if P.y + Q.y = 0 then 0 else P.double a
  else
    P.chord Q.x (P.chordSlope Q)

theorem double_eq_chord {P : Coordinates F} (hy : P.y ≠ 0) (a : F) :
    P.double a = P.chord P.x (P.tangentSlope a) :=
  if_neg hy

theorem add_eq_chord {P Q : Coordinates F} (hP : P ≠ 0) (hQ : Q ≠ 0) (hx : P.x ≠ Q.x) (a : F) :
    P.add Q a = P.chord Q.x (P.chordSlope Q) := by
  rw [add, if_neg hP, if_neg hQ, if_neg hx]

def slope (P Q : Coordinates F) (a : F) : F :=
  if P.x ≠ Q.x then P.chordSlope Q
  else if P.y ≠ 0 ∧ P.y + Q.y ≠ 0 then P.tangentSlope a
  else 0

def sumWithSlope (P Q : Coordinates F) (s : F) : Coordinates F :=
  if P.y = 0 then Q
  else if Q.y = 0 then P
  else if P.x = Q.x ∧ P.y + Q.y = 0 then 0
  else P.chord Q.x s

end Field

def toPoint {p : Nat} (P : Coordinates (ZMod p)) : Point :=
  ⟨P.x.val, P.y.val⟩

def ofPoint (p : Nat) (P : Point) : Coordinates (ZMod p) :=
  ⟨P.x, P.y⟩

section ToPoint

variable {p : Nat} {P Q : Coordinates (ZMod p)}

theorem toPoint_ofPoint (P : Point) : (ofPoint p P).toPoint = P.reduce p := by
  unfold toPoint ofPoint Point.reduce
  rw [ZMod.val_natCast, ZMod.val_natCast]

theorem ofPoint_toPoint [NeZero p] (P : Coordinates (ZMod p)) : ofPoint p P.toPoint = P :=
  Coordinates.ext (ZMod.natCast_zmod_val P.x) (ZMod.natCast_zmod_val P.y)

theorem isIdentity_toPoint : P.toPoint.isIdentity = true ↔ P = 0 := by
  unfold Point.isIdentity toPoint
  rw [decide_eq_true_iff, ZMod.val_eq_zero, ZMod.val_eq_zero, Coordinates.ext_iff]
  rfl

theorem toPoint_zero : (0 : Coordinates (ZMod p)).toPoint = Point.identity := by
  change Point.mk (0 : ZMod p).val (0 : ZMod p).val = _
  rw [ZMod.val_zero]
  rfl

end ToPoint

end Coordinates

theorem mod_eq_val {p n : Nat} {z : ZMod p} (h : (n : ZMod p) = z) : n % p = z.val := by
  rw [← h, ZMod.val_natCast]

theorem natCast_eq_zero_iff_mod {p n : Nat} : (n : ZMod p) = 0 ↔ n % p = 0 :=
  (ZMod.natCast_eq_zero_iff n p).trans Nat.dvd_iff_mod_eq_zero

namespace Coordinates

section OfPoint

variable {p : Nat} {P Q : Point}

theorem ofPoint_reduce : ofPoint p (P.reduce p) = ofPoint p P := by
  unfold ofPoint Point.reduce
  rw [ZMod.natCast_mod, ZMod.natCast_mod]

theorem ofPoint_x_eq_iff : (ofPoint p P).x = (ofPoint p Q).x ↔ (P.reduce p).x = (Q.reduce p).x :=
  ZMod.natCast_eq_natCast_iff' _ _ _

theorem ofPoint_y_eq_zero_iff : (ofPoint p P).y = 0 ↔ (P.reduce p).y = 0 :=
  natCast_eq_zero_iff_mod

theorem ofPoint_eq_zero_iff : ofPoint p P = 0 ↔ P.reduce p = .identity := by
  rw [Coordinates.ext_iff, Point.mk.injEq]
  exact and_congr natCast_eq_zero_iff_mod natCast_eq_zero_iff_mod

theorem ofPoint_y_add_eq_zero_iff :
    (ofPoint p P).y + (ofPoint p Q).y = 0 ↔ ((P.reduce p).y + (Q.reduce p).y) % p = 0 := by
  rw [← ofPoint_reduce (P := P), ← ofPoint_reduce (P := Q), ← natCast_eq_zero_iff_mod, Nat.cast_add]
  rfl

end OfPoint

end Coordinates

section Reference

variable {E : CurveParams} [hp : Fact E.base.modulus.Prime]
  {P Q : Coordinates (ZMod E.base.modulus)}

open Coordinates

theorem sum_mod_eq_val :
    (P.toPoint.y + Q.toPoint.y) % E.base.modulus = (P.y + Q.y).val := by
  apply mod_eq_val
  rw [Nat.cast_add]
  unfold toPoint
  rw [ZMod.natCast_zmod_val, ZMod.natCast_zmod_val]

theorem exists_checkedSub {p k : Nat} [NeZero p] (hk : p ≤ k) (x : ZMod p) :
    ∃ d, checkedSub k x.val = .ok d ∧ (d : ZMod p) = k - x ∧ k - p ≤ d := by
  have hlt := ZMod.val_lt x
  refine ⟨k - x.val, if_pos (by omega), ?_, by omega⟩
  rw [Nat.cast_sub (by omega), ZMod.natCast_zmod_val]

theorem exists_residueSub {p : Nat} [NeZero p] (x y : ZMod p) :
    ∃ d, checkedSub (p + y.val) x.val = .ok d ∧ d % p = (y - x).val := by
  obtain ⟨d, hd, hcast, -⟩ := exists_checkedSub (k := p + y.val) (by omega) x
  rw [Nat.cast_add, ZMod.natCast_self, zero_add, ZMod.natCast_zmod_val] at hcast
  exact ⟨d, hd, mod_eq_val hcast⟩

theorem natCast_tangentNumerator (P : Coordinates (ZMod E.base.modulus)) :
    ((P.toPoint.x * P.toPoint.x * 3 + E.a : Nat) : ZMod E.base.modulus) = 3 * (P.x * P.x) + E.a := by
  unfold toPoint
  push_cast
  rw [ZMod.natCast_zmod_val]
  ring

theorem natCast_tangentDenominator (P : Coordinates (ZMod E.base.modulus)) :
    ((P.toPoint.y * 2 : Nat) : ZMod E.base.modulus) = 2 * P.y := by
  unfold toPoint
  rw [Nat.cast_mul, ZMod.natCast_zmod_val, Nat.cast_ofNat, mul_comm]

theorem Point.neg_eq_ok (P : Coordinates (ZMod E.base.modulus)) :
    Point.neg E P.toPoint = .ok (-P).toPoint := by
  obtain ⟨d, hd, hcast, -⟩ := exists_checkedSub (k := E.base.modulus) (Nat.le_refl _) P.y
  unfold Point.neg
  refine bind_eq_ok_iff.mpr ⟨d, hd, ?_⟩
  apply congrArg Except.ok
  change Point.mk _ (d % E.base.modulus) = Point.mk _ (-P.y).val
  congr 1
  apply mod_eq_val
  rw [hcast, ZMod.natCast_self, zero_sub]

theorem Point.neg_reduce_eq_ok (P : Point) :
    Point.neg E (P.reduce E.base.modulus) = .ok (-ofPoint E.base.modulus P).toPoint := by
  rw [← toPoint_ofPoint, Point.neg_eq_ok]

theorem Point.divide_eq_ok {n d : Nat} (hd : (d : ZMod E.base.modulus) ≠ 0) :
    Point.divide E n d = .ok ((n : ZMod E.base.modulus) / d).val := by
  have hsub : checkedSub E.base.modulus 2 = .ok (E.base.modulus - 2) := if_pos hp.out.two_le
  unfold Point.divide
  refine bind_eq_ok_iff.mpr ⟨_, hsub, ?_⟩
  rw [powMod_sub_two_eq hd]
  apply congrArg Except.ok
  apply mod_eq_val
  rw [Nat.cast_mul, ZMod.natCast_zmod_val, div_eq_mul_inv]

theorem Point.chord_eq_ok (P : Coordinates (ZMod E.base.modulus)) (x s : ZMod E.base.modulus) :
    Point.chord E P.toPoint x.val s.val = .ok (P.chord x s).toPoint := by
  have hself := ZMod.natCast_self E.base.modulus
  obtain ⟨u, hu, hucast, hule⟩ := exists_checkedSub
    (k := s.val * s.val + E.base.modulus + E.base.modulus) (by omega) P.x
  obtain ⟨u', hu', hu'cast, -⟩ := exists_checkedSub (k := u) (by omega) x
  have hux : (u' : ZMod E.base.modulus) = s * s - P.x - x := by
    rw [hu'cast, hucast, Nat.cast_add, Nat.cast_add, Nat.cast_mul, hself, ZMod.natCast_zmod_val]
    ring
  obtain ⟨v, hv, hvcast, -⟩ := exists_checkedSub
    (k := E.base.modulus + P.x.val) (by omega) (s * s - P.x - x)
  obtain ⟨v', hv', hv'cast, -⟩ := exists_checkedSub
    (k := s.val * v + E.base.modulus) (by omega) P.y
  unfold Point.chord toPoint
  refine bind_eq_ok_iff.mpr ⟨u, hu, ?_⟩
  refine bind_eq_ok_iff.mpr ⟨u', hu', ?_⟩
  dsimp only
  rw [mod_eq_val hux]
  refine bind_eq_ok_iff.mpr ⟨v, hv, ?_⟩
  refine bind_eq_ok_iff.mpr ⟨v', hv', ?_⟩
  apply congrArg Except.ok
  congr 1
  apply mod_eq_val
  rw [hv'cast, Nat.cast_add, Nat.cast_mul, hvcast, Nat.cast_add, hself, ZMod.natCast_zmod_val,
    ZMod.natCast_zmod_val, Coordinates.chord]
  ring

variable (htwo : E.base.modulus ≠ 2)

include htwo

theorem two_ne_zero_of_odd : (2 : ZMod E.base.modulus) ≠ 0 := by
  have : NeZero E.base.modulus := ⟨hp.out.ne_zero⟩
  intro h
  apply htwo
  have hcast : ((2 : Nat) : ZMod E.base.modulus) = 0 := by
    rw [Nat.cast_ofNat]
    exact h
  exact (Nat.prime_dvd_prime_iff_eq hp.out Nat.prime_two).mp ((ZMod.natCast_eq_zero_iff _ _).mp hcast)

theorem Point.double_eq_ok (P : Coordinates (ZMod E.base.modulus)) :
    Point.double E P.toPoint = .ok (P.double E.a).toPoint := by
  have hiff : P.toPoint.y = 0 ↔ P.y = 0 := ZMod.val_eq_zero P.y
  unfold Point.double Coordinates.double
  by_cases hy : P.y = 0
  · rw [if_pos (hiff.mpr hy), if_pos hy, toPoint_zero]
    rfl
  · have hslope : (((E.a + P.toPoint.x * P.toPoint.x * 3) % E.base.modulus : Nat) :
        ZMod E.base.modulus) / ((P.toPoint.y * 2 % E.base.modulus : Nat) : ZMod E.base.modulus) =
        P.tangentSlope E.a := by
      rw [ZMod.natCast_mod, ZMod.natCast_mod, Nat.add_comm, natCast_tangentNumerator,
        natCast_tangentDenominator]
      rfl
    have hden : ((P.toPoint.y * 2 % E.base.modulus : Nat) : ZMod E.base.modulus) ≠ 0 := by
      rw [ZMod.natCast_mod, natCast_tangentDenominator]
      exact mul_ne_zero (two_ne_zero_of_odd htwo) hy
    rw [if_neg (fun h => hy (hiff.mp h)), if_neg hy]
    refine bind_eq_ok_iff.mpr ⟨_, Point.divide_eq_ok hden, ?_⟩
    rw [hslope]
    exact Point.chord_eq_ok P P.x _

theorem Point.add_eq_ok (P Q : Coordinates (ZMod E.base.modulus)) :
    Point.add E P.toPoint Q.toPoint = .ok (P.add Q E.a).toPoint := by
  unfold Point.add Coordinates.add
  by_cases hP : P = 0
  · rw [if_pos (isIdentity_toPoint.mpr hP), if_pos hP]
    rfl
  rw [if_neg (fun h => hP (isIdentity_toPoint.mp h)), if_neg hP]
  by_cases hQ : Q = 0
  · rw [if_pos (isIdentity_toPoint.mpr hQ), if_pos hQ]
    rfl
  rw [if_neg (fun h => hQ (isIdentity_toPoint.mp h)), if_neg hQ]
  by_cases hx : P.x = Q.x
  · rw [if_pos (show P.toPoint.x = Q.toPoint.x from congrArg ZMod.val hx), if_pos hx]
    rw [sum_mod_eq_val]
    by_cases hy : P.y + Q.y = 0
    · rw [if_pos ((ZMod.val_eq_zero _).mpr hy), if_pos hy, toPoint_zero]
      rfl
    · rw [if_neg (fun h => hy ((ZMod.val_eq_zero _).mp h)), if_neg hy, Point.double_eq_ok htwo]
  · have hne : P.toPoint.x ≠ Q.toPoint.x := fun h => hx (ZMod.val_injective _ h)
    obtain ⟨dy, hdy, hdymod⟩ := exists_residueSub P.y Q.y
    obtain ⟨dx, hdx, hdxmod⟩ := exists_residueSub P.x Q.x
    have hden : (((Q.x - P.x).val : Nat) : ZMod E.base.modulus) ≠ 0 := by
      rw [ZMod.natCast_zmod_val, sub_ne_zero]
      exact Ne.symm hx
    rw [if_neg hne, if_neg hx]
    refine bind_eq_ok_iff.mpr ⟨dy, hdy, ?_⟩
    refine bind_eq_ok_iff.mpr ⟨dx, hdx, ?_⟩
    rw [hdymod, hdxmod]
    refine bind_eq_ok_iff.mpr ⟨_, Point.divide_eq_ok hden, ?_⟩
    rw [ZMod.natCast_zmod_val, ZMod.natCast_zmod_val]
    exact Point.chord_eq_ok P Q.x _

theorem Point.add_reduce_eq_ok (P Q : Point) :
    Point.add E (P.reduce E.base.modulus) (Q.reduce E.base.modulus) =
      .ok ((ofPoint E.base.modulus P).add (.ofPoint E.base.modulus Q) E.a).toPoint := by
  rw [← toPoint_ofPoint, ← toPoint_ofPoint, Point.add_eq_ok htwo]

theorem Point.double_reduce_eq_ok (P : Point) :
    Point.double E (P.reduce E.base.modulus) = .ok ((ofPoint E.base.modulus P).double E.a).toPoint := by
  rw [← toPoint_ofPoint, Point.double_eq_ok htwo]

theorem Instruction.lineSlope_eq_ok (P Q : Coordinates (ZMod E.base.modulus)) :
    Instruction.lineSlope E P.toPoint Q.toPoint = .ok (P.slope Q E.a).val := by
  obtain ⟨dx, hdx, hdxmod⟩ := exists_residueSub P.x Q.x
  unfold Instruction.lineSlope Coordinates.slope
  refine bind_eq_ok_iff.mpr ⟨dx, hdx, ?_⟩
  dsimp only
  rw [hdxmod]
  by_cases hx : P.x = Q.x
  · have hiff : (P.toPoint.y ≠ 0 ∧ (P.toPoint.y + Q.toPoint.y) % E.base.modulus ≠ 0) ↔
        (P.y ≠ 0 ∧ P.y + Q.y ≠ 0) := by
      rw [sum_mod_eq_val]
      exact and_congr (not_congr (ZMod.val_eq_zero P.y)) (not_congr (ZMod.val_eq_zero _))
    rw [if_neg (by rw [not_not, ZMod.val_eq_zero, hx, sub_self]), if_neg (not_not.mpr hx)]
    by_cases hlive : P.y ≠ 0 ∧ P.y + Q.y ≠ 0
    · have hne : ((P.toPoint.y * 2 : Nat) : ZMod E.base.modulus) ≠ 0 := by
        rw [natCast_tangentDenominator]
        exact mul_ne_zero (two_ne_zero_of_odd htwo) hlive.1
      rw [if_pos (hiff.mpr hlive), if_pos hlive]
      refine bind_eq_ok_iff.mpr ⟨_, Instruction.inverseMod_eq_ok hne, ?_⟩
      apply congrArg Except.ok
      apply mod_eq_val
      rw [Nat.cast_mul, ZMod.natCast_mod, ZMod.natCast_zmod_val, natCast_tangentNumerator,
        natCast_tangentDenominator]
      exact (div_eq_mul_inv _ _).symm
    · rw [if_neg (fun h => hlive (hiff.mp h)), if_neg hlive, ZMod.val_zero]
      rfl
  · obtain ⟨dy, hdy, hdymod⟩ := exists_residueSub P.y Q.y
    have hdiff : Q.x - P.x ≠ 0 := sub_ne_zero.mpr (Ne.symm hx)
    have hne : (((Q.x - P.x).val : Nat) : ZMod E.base.modulus) ≠ 0 := by
      rwa [ZMod.natCast_zmod_val]
    rw [if_pos fun h => hdiff ((ZMod.val_eq_zero _).mp h), if_pos hx]
    refine bind_eq_ok_iff.mpr ⟨dy, hdy, ?_⟩
    rw [hdymod]
    refine bind_eq_ok_iff.mpr ⟨_, Instruction.inverseMod_eq_ok hne, ?_⟩
    apply congrArg Except.ok
    apply mod_eq_val
    rw [Nat.cast_mul, ZMod.natCast_zmod_val, ZMod.natCast_zmod_val, ZMod.natCast_zmod_val]
    exact (div_eq_mul_inv _ _).symm

end Reference

end ForeignCurve
