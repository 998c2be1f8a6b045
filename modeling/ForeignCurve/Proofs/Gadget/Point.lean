import ForeignCurve.Proofs.Curve.Formulas
import ForeignCurve.Proofs.Gadget.Limb

namespace ForeignCurve

-- the instance for the rest of a gadget is as large as the gadget is long
set_option synthInstance.maxSize 1000000

namespace Scenario

variable {P : FieldParams} {w : Scenario}

structure At (w : Scenario) (r : PointRegister P) (X : Coordinates (ZMod P.modulus)) : Prop where
  x : w.Residue r.x X.x
  y : w.Residue r.y X.y

variable [P.HasHeadroom] [Fact P.modulus.Prime] {p q : PointRegister P}
  {X Y : Coordinates (ZMod P.modulus)}

section Incomplete

theorem chordSlope_attempt (hX : w.At p X) (hY : w.At q Y) :
    w.Attempt (Gadget.chordSlope p q) (fun r => X.x ≠ Y.x ∧ w.Residue r (X.chordSlope Y))
      (X.x = Y.x) := by
  apply Attempt.bind (sub_spec hY.y hX.y).attempt
  intro numerator hnumerator
  apply Attempt.bind (sub_spec hY.x hX.x).attempt
  intro denominator hdenominator
  apply Attempt.weaken (div_attempt hnumerator.represents hdenominator.represents)
  · rintro r ⟨hne, hr⟩
    exact ⟨(sub_ne_zero.mp hne).symm, hr⟩
  · exact fun hzero => (sub_eq_zero.mp hzero).symm

theorem tangentNumerator_spec {x a : FieldRegister P} {u α : ZMod P.modulus} (hx : w.Residue x u)
    (ha : w.Residue a α) :
    w.Triple (Gadget.tangentNumerator x a) (fun r => w.Residue r (3 * (u * u) + α)) := by
  apply Triple.bind (mul_spec hx hx)
  intro square hsquare
  apply Triple.bind (add_spec hsquare hsquare)
  intro twice htwice
  apply Triple.bind (add_spec htwice hsquare)
  intro thrice hthrice
  apply Triple.weaken (add_spec hthrice ha)
  intro r hr
  apply hr.congr
  ring

theorem tangentSlope_attempt {a : FieldRegister P} {α : ZMod P.modulus} (hX : w.At p X)
    (ha : w.Residue a α) :
    w.Attempt (Gadget.tangentSlope p a) (fun r => 2 * X.y ≠ 0 ∧ w.Residue r (X.tangentSlope α))
      (2 * X.y = 0) := by
  apply Attempt.bind (tangentNumerator_spec hX.x ha).attempt
  intro numerator hnumerator
  apply Attempt.bind (add_spec hX.y hX.y).attempt
  intro denominator hdenominator
  exact div_attempt hnumerator.represents (hdenominator.congr (two_mul X.y).symm).represents

theorem addWithSlope_spec {slope : FieldRegister P} {s : ZMod P.modulus}
    (hX : w.At p X) (hY : w.At q Y) (hs : w.Residue slope s) :
    w.Triple (Gadget.addWithSlope p q slope) (fun r => w.At r (X.chord Y.x s)) := by
  apply Triple.bind (mul_spec hs hs)
  intro square hsquare
  apply Triple.bind (sub_spec hsquare hX.x)
  intro x hx
  apply Triple.bind (sub_spec hx hY.x)
  intro x hx
  apply Triple.bind (sub_spec hX.x hx)
  intro y hy
  apply Triple.bind (mul_spec hs hy)
  intro y hy
  apply Triple.bind (sub_spec hy hX.y)
  intro y hy
  exact Triple.pure ⟨hx, hy⟩

theorem chordAdd_attempt (hX : w.At p X) (hY : w.At q Y) :
    w.Attempt (Gadget.chordAdd p q)
      (fun r => X.x ≠ Y.x ∧ w.At r (X.chord Y.x (X.chordSlope Y))) (X.x = Y.x) := by
  apply Attempt.bind (chordSlope_attempt hX hY)
  rintro slope ⟨hne, hslope⟩
  apply Triple.attempt
  apply Triple.weaken (addWithSlope_spec hX hY hslope)
  exact fun r hr => ⟨hne, hr⟩

theorem chordAdd_spec (hX : w.At p X) (hY : w.At q Y) (h : w.Honest → X.x ≠ Y.x) :
    w.Triple (Gadget.chordAdd p q)
      (fun r => X.x ≠ Y.x ∧ w.At r (X.chord Y.x (X.chordSlope Y))) :=
  (chordAdd_attempt hX hY).triple h

theorem double_attempt {a : FieldRegister P} {α : ZMod P.modulus} (hX : w.At p X)
    (ha : w.Residue a α) :
    w.Attempt (Gadget.double p a)
      (fun r => 2 * X.y ≠ 0 ∧ w.At r (X.chord X.x (X.tangentSlope α))) (2 * X.y = 0) := by
  apply Attempt.bind (tangentSlope_attempt hX ha)
  rintro slope ⟨hne, hslope⟩
  apply Triple.attempt
  apply Triple.weaken (addWithSlope_spec hX hX hslope)
  exact fun r hr => ⟨hne, hr⟩

theorem double_spec {a : FieldRegister P} {α : ZMod P.modulus} (hX : w.At p X)
    (ha : w.Residue a α) (h : w.Honest → 2 * X.y ≠ 0) :
    w.Triple (Gadget.double p a)
      (fun r => 2 * X.y ≠ 0 ∧ w.At r (X.chord X.x (X.tangentSlope α))) :=
  (double_attempt hX ha).triple h

theorem negPoint_spec (hX : w.At p X) :
    w.Triple (Gadget.negPoint p) (fun r => w.At r (-X)) := by
  apply Triple.bind (neg_spec hX.y)
  intro y hy
  exact Triple.pure ⟨hX.x, hy⟩

omit [Fact P.modulus.Prime] in
theorem selectPoint_spec {bit : Register .bit} {β : Bool} (hβ : w.Bit bit β) (hX : w.At p X)
    (hY : w.At q Y) :
    w.Triple (Gadget.selectPoint bit p q) (fun r => w.At r (if β then X else Y)) := by
  apply Triple.bind (select_spec hβ hX.x hY.x)
  intro x hx
  apply Triple.bind (select_spec hβ hX.y hY.y)
  intro y hy
  apply Triple.pure
  cases β
  · exact ⟨hx, hy⟩
  · exact ⟨hx, hy⟩

theorem doubleAndAdd_attempt (hX : w.At p X) (hY : w.At q Y) :
    w.Attempt (Gadget.doubleAndAdd p q)
      (fun r => X.x ≠ Y.x ∧ (X.chord Y.x (X.chordSlope Y)).x ≠ X.x ∧ w.At r (X.doubleAndAdd Y))
      (X.x = Y.x ∨ (X.chord Y.x (X.chordSlope Y)).x = X.x) := by
  apply Attempt.bind ((chordSlope_attempt hX hY).weaken (fun _ h => h) .inl)
  rintro slope ⟨hne, hslope⟩
  apply Attempt.bind (mul_spec hslope hslope).attempt
  intro square hsquare
  apply Attempt.bind (sub_spec hsquare hX.x).attempt
  intro x hx
  apply Attempt.bind (sub_spec hx hY.x).attempt
  intro x hx
  apply Attempt.bind (add_spec hX.y hX.y).attempt
  intro twice htwice
  apply Attempt.bind (sub_spec hx hX.x).attempt
  intro dx hdx
  apply Attempt.bind ((div_attempt htwice.represents hdx.represents).weaken (fun _ h => h)
    fun hzero => .inr (sub_eq_zero.mp hzero))
  rintro ratio ⟨hne', hratio⟩
  -- there is no division behind this one
  apply Triple.attempt
  apply Triple.bind (add_spec hslope hratio)
  intro slope hslope
  apply Triple.bind (mul_spec hslope hslope)
  intro square hsquare
  apply Triple.bind (sub_spec hsquare hX.x)
  intro xr hxr
  apply Triple.bind (sub_spec hxr hx)
  intro xr hxr
  apply Triple.bind (sub_spec hxr hX.x)
  intro dx hdx
  apply Triple.bind (mul_spec hslope hdx)
  intro yr hyr
  apply Triple.bind (sub_spec hyr hX.y)
  intro yr hyr
  exact Triple.pure ⟨hne, sub_ne_zero.mp hne', hxr, hyr⟩

theorem doubleAndAdd_spec (hX : w.At p X) (hY : w.At q Y) (h : w.Honest → X.x ≠ Y.x)
    (h' : w.Honest → (X.chord Y.x (X.chordSlope Y)).x ≠ X.x) :
    w.Triple (Gadget.doubleAndAdd p q) (fun r => X.x ≠ Y.x ∧
      (X.chord Y.x (X.chordSlope Y)).x ≠ X.x ∧ w.At r (X.doubleAndAdd Y)) :=
  (doubleAndAdd_attempt hX hY).triple fun hw => not_or.mpr ⟨h hw, h' hw⟩

end Incomplete

end Scenario

end ForeignCurve
