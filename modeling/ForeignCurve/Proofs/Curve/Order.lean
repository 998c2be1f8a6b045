import Mathlib.Data.Int.ModEq
import Mathlib.GroupTheory.OrderOfElement
import ForeignCurve.Proofs.Curve.Group

namespace ForeignCurve

theorem not_modEq_of_abs_sub_lt {n : Nat} {a b : Int} (hne : a ≠ b) (h : |b - a| < n) :
    ¬ a ≡ b [ZMOD n] := by
  intro hmod
  have hzero := Int.eq_zero_of_abs_lt_dvd (Int.modEq_iff_dvd.mp hmod) h
  omega

section Order

variable {G : Type} [AddGroup G] {g : G} {n : Nat} (hg : addOrderOf g = n) {k l : Int}

include hg

theorem zsmul_ne_zsmul_of_not_modEq (h : ¬ k ≡ l [ZMOD n]) : k • g ≠ l • g := by
  rw [Ne, zsmul_eq_zsmul_iff_modEq, hg]
  exact h

theorem zsmul_ne_zero_of_abs_lt (hk : k ≠ 0) (h : |k| < n) : k • g ≠ 0 := by
  rw [← zero_zsmul g]
  apply zsmul_ne_zsmul_of_not_modEq hg
  apply not_modEq_of_abs_sub_lt hk
  rwa [zero_sub, abs_neg]

theorem ne_neg_of_three_le (hn : 3 ≤ n) : g ≠ -g := by
  have hne : (2 : Int) • g ≠ 0 := zsmul_ne_zero_of_abs_lt hg (by decide) (by rw [abs_lt]; omega)
  rw [two_zsmul] at hne
  exact mt add_eq_zero_iff_eq_neg.mpr hne

end Order

section Curve

open Coordinates

variable {F : Type} [Field F] [DecidableEq F] {a b : F} {A B : (shortCurve a b).Point} {n : Nat}
  {k l : Int}

structure Apart (A B : (shortCurve a b).Point) : Prop where
  left_ne_zero : A ≠ 0
  right_ne_zero : B ≠ 0
  x_ne : (of A).x ≠ (of B).x
  add_ne_neg : A + B ≠ -A

theorem Apart.x_add_ne (h : Apart A B) : (of (A + B)).x ≠ (of A).x := by
  have hsum : A + B ≠ 0 := fun hzero =>
    h.x_ne ((x_eq_iff h.left_ne_zero h.right_ne_zero).mpr (.inr (eq_neg_of_add_eq_zero_left hzero)))
  rw [Ne, x_eq_iff hsum h.left_ne_zero, add_eq_left]
  exact not_or.mpr ⟨h.right_ne_zero, h.add_ne_neg⟩

theorem x_zsmul_ne (hA : addOrderOf A = n) (hk : k • A ≠ 0) (hl : l • A ≠ 0) (h : ¬ k ≡ l [ZMOD n])
    (h' : ¬ k ≡ -l [ZMOD n]) : (of (k • A)).x ≠ (of (l • A)).x := by
  rw [Ne, x_eq_iff hk hl, ← neg_zsmul]
  exact not_or.mpr ⟨zsmul_ne_zsmul_of_not_modEq hA h, zsmul_ne_zsmul_of_not_modEq hA h'⟩

theorem x_two_zsmul_ne (hA : addOrderOf A = n) (hfive : 5 ≤ n) : (of ((2 : Int) • A)).x ≠ (of A).x := by
  -- the order divides neither the difference nor the sum of `2` and `1`
  have hne := x_zsmul_ne (k := 2) (l := 1) hA
    (zsmul_ne_zero_of_abs_lt hA (by decide) (by rw [abs_lt]; omega))
    (zsmul_ne_zero_of_abs_lt hA (by decide) (by rw [abs_lt]; omega))
    (not_modEq_of_abs_sub_lt (by decide) (by rw [abs_lt]; omega))
    (not_modEq_of_abs_sub_lt (by decide) (by rw [abs_lt]; omega))
  rwa [one_zsmul] at hne

end Curve

end ForeignCurve
