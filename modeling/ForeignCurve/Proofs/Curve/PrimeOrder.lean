import Mathlib.SetTheory.Cardinal.Finite
import ForeignCurve.Proofs.Curve.Elliptic
import ForeignCurve.Proofs.Curve.Order

namespace ForeignCurve

namespace CurveParams

def points (E : CurveParams) : Finset (Nat × Nat) :=
  (Finset.range E.base.modulus ×ˢ Finset.range E.base.modulus).filter fun (x, y) =>
    Point.onCurve E ⟨x, y⟩

/-- A nonsingular curve over a prime field of odd order, whose points are a group of prime order. -/
class PrimeOrder (E : CurveParams) : Prop where
  base_headroom : E.base.headroom = .ok ()
  scalar_headroom : E.scalar.headroom = .ok ()
  base_prime : E.base.modulus.Prime
  base_odd : E.base.modulus ≠ 2
  nonsingular : (4 * E.a ^ 3 + 27 * E.b ^ 2) % E.base.modulus ≠ 0
  b_ne_zero : E.b % E.base.modulus ≠ 0
  card_points : E.points.card = E.groupOrder
  order_prime : E.groupOrder.Prime
  five_le : 5 ≤ E.groupOrder

def tinyCurve : CurveParams where
  base := tinyBase
  scalar := { tinyBase with modulus := 13 }
  a := 0
  b := 3
  generator := ⟨1, 2⟩

instance : tinyCurve.PrimeOrder where
  base_headroom := rfl
  scalar_headroom := rfl
  base_prime := by decide
  base_odd := by decide
  nonsingular := by decide
  b_ne_zero := by decide
  card_points := by decide
  order_prime := by decide
  five_le := by decide

variable {E : CurveParams} [hE : E.PrimeOrder]

instance : E.base.HasHeadroom := ⟨hE.base_headroom⟩

instance : E.scalar.HasHeadroom := ⟨hE.scalar_headroom⟩

instance : E.Elliptic := ⟨hE.base_prime, hE.base_odd, hE.nonsingular, hE.b_ne_zero⟩

theorem odd_order : E.groupOrder % 2 = 1 := by
  have hfive := hE.five_le
  exact (hE.order_prime.eq_two_or_odd).resolve_left (by omega)

open Coordinates

theorem card_group : Nat.card E.Group = E.groupOrder := by
  have hmem (A : E.Group) : ((of A).x.val, (of A).y.val) ∈ E.points := by
    unfold points
    rw [Finset.mem_filter, Finset.mem_product, Finset.mem_range, Finset.mem_range]
    exact ⟨⟨ZMod.val_lt _, ZMod.val_lt _⟩, onCurve_iff.mpr ⟨A, rfl⟩⟩
  -- reduced coordinates of points on the curve are one to one with the group
  have hbijective : Function.Bijective fun A : E.Group => (⟨_, hmem A⟩ : E.points) := by
    constructor
    · intro A B h
      obtain ⟨hx, hy⟩ := Prod.mk.inj (Subtype.mk.inj h)
      apply of_injective b_ne_zero
      exact Coordinates.ext (ZMod.val_injective _ hx) (ZMod.val_injective _ hy)
    · rintro ⟨⟨x, y⟩, h⟩
      unfold points at h
      rw [Finset.mem_filter, Finset.mem_product, Finset.mem_range, Finset.mem_range] at h
      obtain ⟨⟨hx, hy⟩, hcurve⟩ := h
      obtain ⟨A, hA⟩ := exists_of_on ⟨⟨hx, hy⟩, hcurve⟩
      exact ⟨A, Subtype.ext (Prod.ext (congrArg Point.x hA) (congrArg Point.y hA))⟩
  rw [Nat.card_eq_of_bijective _ hbijective, Nat.card_eq_fintype_card, Fintype.card_coe,
    hE.card_points]

section Order

variable {A : E.Group}

theorem order_nsmul (A : E.Group) : E.groupOrder • A = 0 := by
  rw [← card_group]
  exact card_nsmul_eq_zero'

theorem addOrderOf_eq (hA : A ≠ 0) : addOrderOf A = E.groupOrder := by
  have hdvd : addOrderOf A ∣ E.groupOrder := addOrderOf_dvd_of_nsmul_eq_zero (order_nsmul A)
  cases (Nat.dvd_prime hE.order_prime).mp hdvd with
  | inl h => exact absurd (AddMonoid.addOrderOf_eq_one_iff.mp h) hA
  | inr h => exact h

theorem ne_neg (hA : A ≠ 0) : A ≠ -A := by
  have hfive := hE.five_le
  exact ne_neg_of_three_le (addOrderOf_eq hA) (by omega)

theorem y_eq_zero_iff : (of A).y = 0 ↔ A = 0 := by
  constructor
  · intro hy
    by_contra hA
    exact ne_neg hA ((two_mul_y_eq_zero_iff b_ne_zero).mp (by rw [hy, mul_zero]))
  · rintro rfl
    rfl

theorem x_eq_zero_of_y_eq_zero (h : (of A).y = 0) : (of A).x = 0 := by
  rw [y_eq_zero_iff.mp h]
  rfl

end Order

end CurveParams

end ForeignCurve
