import ForeignCurve.Proofs.Curve.PrimeOrder
import ForeignCurve.Proofs.Inlet

/-!
Operations on points that are not defined everywhere, as components. The circuit accepts no table in
which the operation is not defined, and there the witness pass divides by zero. Elsewhere both agree with
the reference arithmetic.
-/

namespace ForeignCurve

structure Point.FiniteOn (E : CurveParams) (P : Point) : Prop where
  onCurve : P.onCurve E = true
  ne_identity : P ≠ .identity

structure PointOperation (E : CurveParams) (ι σ : Type) where
  inlet : Inlet ι σ
  gadget : ι → Record (PointRegister E.base)
  Proper : σ → Prop
  Defined : σ → Prop
  reference : σ → Except Abort Point

namespace PointOperation

variable {E : CurveParams} {ι σ : Type}

/--
The gadget and the reference agree in both directions. In every accepted table with residues that are
proper operands the operation is defined, and the residues of the result are those of the reference.
From reduced proper operands the witness pass goes through exactly where the operation is defined, and
then the result is that of the reference; otherwise it divides by zero.
-/
def Exact (op : PointOperation E ι σ) : Prop :=
  ∃ r : (op.inlet.component op.gadget).Recorded, ∀ l : Layout, r.chip.manifest.required ≤ l.width →
    (r.chip.Guarantees l fun t => ∃ v, op.inlet.read? t l r.input = some v ∧
      (op.Proper (op.inlet.residues v) → op.Defined (op.inlet.residues v) ∧
        ∃ R, op.reference (op.inlet.residues v) = .ok R ∧
          (t.point? l r.output).map (·.reduce E.base.modulus) = some R)) ∧
    ∀ v, op.inlet.Reduced v → op.Proper v → ∃ R, op.reference v = .ok R ∧
      r.chip.ComputesIff l (op.inlet.write r.input v) (op.Defined v) fun t =>
        t.readPoint r.output = .ok R

structure Lawful (op : PointOperation E ι σ) (Regular : σ → Prop)
    (formula : σ → Coordinates (ZMod E.base.modulus)) : Prop where
  grows : ∀ i, Grows (op.gadget i)
  records : ∀ i, Records (op.gadget i)
  attempt : ∀ {w : Scenario} {r v}, op.inlet.Holds w r v → (w.Honest → op.inlet.Reduced v) →
    w.Attempt (op.gadget r) (fun q => Regular v ∧ w.At q (formula v)) (¬ Regular v)
  exists_regular : ∃ v, op.inlet.Reduced v ∧ Regular v
  defined_iff : ∀ {v}, op.Proper (op.inlet.residues v) →
    (Regular v ↔ op.Defined (op.inlet.residues v))
  reference_eq : ∀ {v}, op.Proper (op.inlet.residues v) →
    ∃ R, op.reference (op.inlet.residues v) = .ok R ∧ (Regular v → R = (formula v).toPoint)

theorem Lawful.exact [E.base.HasHeadroom] [NeZero E.base.modulus] {op : PointOperation E ι σ}
    {Regular : σ → Prop} {formula : σ → Coordinates (ZMod E.base.modulus)}
    (h : op.Lawful Regular formula) : op.Exact := by
  have hgrows := h.grows
  have hrecords := h.records
  obtain ⟨r, hr⟩ := op.inlet.exists_promises op.gadget op.inlet.Reduced Regular
    (fun w v q => w.At q (formula v)) (fun _ => op.inlet.fits) h.exists_regular h.attempt
  refine ⟨r, fun l hl => ?_⟩
  obtain ⟨hguarantees, hcomputes⟩ := hr l hl
  refine ⟨hguarantees.weaken ?_, fun v hv hproper => ?_⟩
  · rintro t ⟨v, w, hstore, hread, hregular, hq⟩
    refine ⟨v, hread, fun hproper => ?_⟩
    obtain ⟨R, hR, hformula⟩ := h.reference_eq hproper
    refine ⟨(h.defined_iff hproper).mp hregular, R, hR, ?_⟩
    rw [hformula hregular]
    exact hq.point? hstore
  · -- reduced operands are their own residues
    have hresidues := op.inlet.residues_of_reduced hv
    rw [← hresidues] at hproper
    obtain ⟨R, hR, hformula⟩ := h.reference_eq hproper
    have hdefined := h.defined_iff hproper
    rw [hresidues] at hR hdefined
    refine ⟨R, hR, (hcomputes v hv).weaken hdefined ?_⟩
    rintro hregular t ⟨w, hw, hstore, hnum, hq⟩
    rw [hformula hregular]
    exact (hq.numbers hw).readPoint hstore hnum

section Operations

variable (E : CurveParams) [E.base.HasHeadroom]

def chordSum : PointOperation E (PointRegister E.base × PointRegister E.base) (Point × Point) where
  inlet := (Inlet.point E.base).pair (.point E.base)
  gadget r := Gadget.chordAdd r.1 r.2
  Proper v := v.1 ≠ .identity ∧ v.2 ≠ .identity
  Defined v := v.1.x ≠ v.2.x
  reference v := Point.add E v.1 v.2

def doubling : PointOperation E (PointRegister E.base × FieldRegister E.base) (Point × Nat) where
  inlet := (Inlet.point E.base).pair (.number E.base)
  gadget r := Gadget.double r.1 r.2
  Proper v := v.2 = E.a % E.base.modulus
  Defined v := v.1.y ≠ 0
  reference v := Point.double E v.1

def doublingByConstant : PointOperation E (PointRegister E.base) Point where
  inlet := .point E.base
  gadget p := do Gadget.double p (← Gadget.constant E.base E.a)
  Proper _ := True
  Defined P := P.y ≠ 0
  reference P := Point.double E P

def negation : PointOperation E (PointRegister E.base) Point where
  inlet := .point E.base
  gadget p := Gadget.negPoint p
  Proper _ := True
  Defined _ := True
  reference P := Point.neg E P

def doubleAndAdd : PointOperation E (PointRegister E.base × PointRegister E.base) (Point × Point) where
  inlet := (Inlet.point E.base).pair (.point E.base)
  gadget r := Gadget.doubleAndAdd r.1 r.2
  Proper v := v.1.FiniteOn E ∧ v.2.FiniteOn E
  Defined v := v.1.x ≠ v.2.x ∧ ∃ S, Point.add E v.1 v.2 = .ok S ∧ S.x ≠ v.1.x
  reference v := do Point.add E (← Point.add E v.1 v.2) v.1

end Operations

section Lawful

variable {E : CurveParams} [hp : Fact E.base.modulus.Prime]

open Coordinates

section Reference

theorem solves_of_finiteOn {P : Point} (h : (P.reduce E.base.modulus).FiniteOn E) :
    (ofPoint E.base.modulus P).Solves (E.a : ZMod E.base.modulus) E.b := by
  have hcurve := h.onCurve
  rw [← toPoint_ofPoint, CurveParams.onCurve_toPoint_iff] at hcurve
  exact hcurve.resolve_left (mt ofPoint_eq_zero_iff.mp h.ne_identity)

variable (hodd : E.base.modulus ≠ 2)

include hodd

theorem double_reference (P : Point) :
    ∃ R, Point.double E (P.reduce E.base.modulus) = .ok R ∧
      ((ofPoint E.base.modulus P).y ≠ 0 → R = ((ofPoint E.base.modulus P).chord
        (ofPoint E.base.modulus P).x ((ofPoint E.base.modulus P).tangentSlope E.a)).toPoint) :=
  ⟨_, Point.double_reduce_eq_ok hodd P, fun hy => by rw [double_eq_chord hy]⟩

theorem add_x_ne_iff {P Q : Point} :
    (∃ S, Point.add E (P.reduce E.base.modulus) (Q.reduce E.base.modulus) = .ok S ∧
      S.x ≠ (P.reduce E.base.modulus).x) ↔
      ((ofPoint E.base.modulus P).add (ofPoint E.base.modulus Q) E.a).x ≠
        (ofPoint E.base.modulus P).x := by
  rw [Point.add_reduce_eq_ok hodd, ← toPoint_ofPoint]
  simp only [Except.ok.injEq, exists_eq_left']
  exact not_congr (ZMod.val_injective _).eq_iff

theorem add_add_reduce_eq_ok (P Q : Point) :
    (do
      let S ← Point.add E (P.reduce E.base.modulus) (Q.reduce E.base.modulus)
      Point.add E S (P.reduce E.base.modulus)) =
      .ok (((ofPoint E.base.modulus P).add (ofPoint E.base.modulus Q) E.a).add
        (ofPoint E.base.modulus P) E.a).toPoint := by
  refine bind_eq_ok_iff.mpr ⟨_, Point.add_reduce_eq_ok hodd P Q, ?_⟩
  rw [← toPoint_ofPoint, Point.add_eq_ok hodd]

end Reference

variable [E.base.HasHeadroom]

theorem negation_lawful :
    (negation E).Lawful (fun _ => True) (fun P => -ofPoint E.base.modulus P) where
  grows i := inferInstanceAs (Grows (Gadget.negPoint i))
  records i := inferInstanceAs (Records (Gadget.negPoint i))
  attempt hP hlt := ((Scenario.negPoint_spec (hP.at hlt)).weaken fun _ h => ⟨trivial, h⟩).attempt
  exists_regular := ⟨.identity, ⟨hp.out.pos, hp.out.pos⟩, trivial⟩
  defined_iff _ := .rfl
  reference_eq _ := ⟨_, Point.neg_reduce_eq_ok _, fun _ => rfl⟩

variable (hodd : E.base.modulus ≠ 2)

include hodd

theorem chordSum_lawful :
    (chordSum E).Lawful
      (fun v => (ofPoint E.base.modulus v.1).x ≠ (ofPoint E.base.modulus v.2).x)
      (fun v => (ofPoint E.base.modulus v.1).chord (ofPoint E.base.modulus v.2).x
        ((ofPoint E.base.modulus v.1).chordSlope (ofPoint E.base.modulus v.2))) where
  grows i := inferInstanceAs (Grows (Gadget.chordAdd i.1 i.2))
  records i := inferInstanceAs (Records (Gadget.chordAdd i.1 i.2))
  attempt hv hlt := by
    have hX := hv.1.at fun hw => (hlt hw).1
    have hY := hv.2.at fun hw => (hlt hw).2
    exact (Scenario.chordAdd_attempt hX hY).weaken (fun _ h => h) not_not.mpr
  exists_regular :=
    ⟨(⟨0, 0⟩, ⟨1, 0⟩), ⟨⟨hp.out.pos, hp.out.pos⟩, hp.out.one_lt, hp.out.pos⟩, by simp [ofPoint]⟩
  defined_iff _ := not_congr ofPoint_x_eq_iff
  reference_eq {v} hproper := by
    have hP : ofPoint E.base.modulus v.1 ≠ 0 := mt ofPoint_eq_zero_iff.mp hproper.1
    have hQ : ofPoint E.base.modulus v.2 ≠ 0 := mt ofPoint_eq_zero_iff.mp hproper.2
    refine ⟨_, Point.add_reduce_eq_ok hodd v.1 v.2, fun hx => ?_⟩
    rw [add_eq_chord hP hQ hx]

theorem double_attempt {w : Scenario} {p : PointRegister E.base} {a : FieldRegister E.base}
    {X : Coordinates (ZMod E.base.modulus)} {α : ZMod E.base.modulus} (hX : w.At p X)
    (ha : w.Residue a α) :
    w.Attempt (Gadget.double p a)
      (fun q => X.y ≠ 0 ∧ w.At q (X.chord X.x (X.tangentSlope α))) (¬ X.y ≠ 0) := by
  have htwo := two_ne_zero_of_odd hodd
  apply (Scenario.double_attempt hX ha).weaken
  · exact fun _ h => ⟨right_ne_zero_of_mul h.1, h.2⟩
  · exact fun h => not_not.mpr ((mul_eq_zero.mp h).resolve_left htwo)

theorem doubling_lawful :
    (doubling E).Lawful (fun v => (ofPoint E.base.modulus v.1).y ≠ 0)
      (fun v => (ofPoint E.base.modulus v.1).chord (ofPoint E.base.modulus v.1).x
        ((ofPoint E.base.modulus v.1).tangentSlope (v.2 : ZMod E.base.modulus))) where
  grows i := inferInstanceAs (Grows (Gadget.double i.1 i.2))
  records i := inferInstanceAs (Records (Gadget.double i.1 i.2))
  attempt hv hlt :=
    double_attempt hodd (hv.1.at fun hw => (hlt hw).1) (.of_number hv.2 fun hw => (hlt hw).2)
  exists_regular :=
    ⟨(⟨0, 1⟩, 0), ⟨⟨hp.out.pos, hp.out.one_lt⟩, hp.out.pos⟩, by simp [ofPoint]⟩
  defined_iff _ := not_congr ofPoint_y_eq_zero_iff
  reference_eq {v} hproper := by
    have ha : (v.2 : ZMod E.base.modulus) = E.a := (ZMod.natCast_eq_natCast_iff' _ _ _).mpr hproper
    rw [ha]
    exact double_reference hodd v.1

theorem doublingByConstant_lawful :
    (doublingByConstant E).Lawful (fun P => (ofPoint E.base.modulus P).y ≠ 0)
      (fun P => (ofPoint E.base.modulus P).chord (ofPoint E.base.modulus P).x
        ((ofPoint E.base.modulus P).tangentSlope E.a)) where
  grows p := by
    unfold doublingByConstant
    infer_instance
  records p := by
    unfold doublingByConstant
    infer_instance
  attempt hP hlt := .bind (Scenario.constant_spec E.a).attempt fun _ ha =>
    double_attempt hodd (hP.at hlt) ha
  exists_regular := ⟨⟨0, 1⟩, ⟨hp.out.pos, hp.out.one_lt⟩, by simp [ofPoint]⟩
  defined_iff _ := not_congr ofPoint_y_eq_zero_iff
  reference_eq _ := double_reference hodd _

variable (hb : E.b % E.base.modulus ≠ 0)

include hb

theorem doubleAndAdd_lawful :
    (doubleAndAdd E).Lawful
      (fun v => (ofPoint E.base.modulus v.1).x ≠ (ofPoint E.base.modulus v.2).x ∧
        ((ofPoint E.base.modulus v.1).chord (ofPoint E.base.modulus v.2).x
          ((ofPoint E.base.modulus v.1).chordSlope (ofPoint E.base.modulus v.2))).x ≠
            (ofPoint E.base.modulus v.1).x)
      (fun v => (ofPoint E.base.modulus v.1).doubleAndAdd (ofPoint E.base.modulus v.2)) where
  grows i := inferInstanceAs (Grows (Gadget.doubleAndAdd i.1 i.2))
  records i := inferInstanceAs (Records (Gadget.doubleAndAdd i.1 i.2))
  attempt hv hlt := by
    have hX := hv.1.at fun hw => (hlt hw).1
    have hY := hv.2.at fun hw => (hlt hw).2
    apply (Scenario.doubleAndAdd_attempt hX hY).weaken
    · exact fun _ h => ⟨⟨h.1, h.2.1⟩, h.2.2⟩
    · rintro (h | h)
      · exact fun hregular => hregular.1 h
      · exact fun hregular => hregular.2 h
  exists_regular := by
    refine ⟨(⟨0, 0⟩, ⟨1, 0⟩), ⟨⟨hp.out.pos, hp.out.pos⟩, hp.out.one_lt, hp.out.pos⟩, ?_⟩
    -- the third point of this chord has the abscissa minus one
    have hslope : (ofPoint E.base.modulus ⟨0, 0⟩).chordSlope (ofPoint E.base.modulus ⟨1, 0⟩) = 0 := by
      simp [chordSlope, ofPoint]
    rw [hslope]
    simp [chord, ofPoint]
  defined_iff hproper := by
    have hT := (solves_of_finiteOn hproper.1).ne_zero (CurveParams.natCast_ne_zero hb)
    have hQ := (solves_of_finiteOn hproper.2).ne_zero (CurveParams.natCast_ne_zero hb)
    refine (and_congr_right fun hx => ?_).trans (and_congr_left' (not_congr ofPoint_x_eq_iff))
    rw [← add_eq_chord hT hQ hx]
    exact (add_x_ne_iff hodd).symm
  reference_eq {v} hproper := by
    have hT := solves_of_finiteOn hproper.1
    have hQ := solves_of_finiteOn hproper.2
    have hb' := CurveParams.natCast_ne_zero hb
    refine ⟨_, add_add_reduce_eq_ok hodd v.1 v.2, ?_⟩
    rintro ⟨hx, hx'⟩
    rw [← add_eq_chord (hT.ne_zero hb') (hQ.ne_zero hb') hx] at hx'
    rw [add_add_eq_doubleAndAdd hb' hT hQ hx hx']

end Lawful

/--
The incomplete operations on points agree with the reference, in every accepted table and in the witness
pass. Equal abscissas have no chord, and a zero ordinate has no tangent; a negative always exists.
-/
theorem incompleteOperations_exact (E : CurveParams) [E.base.HasHeadroom] [Fact E.base.modulus.Prime]
    (hodd : E.base.modulus ≠ 2) :
    (chordSum E).Exact ∧ (doubling E).Exact ∧ (doublingByConstant E).Exact ∧ (negation E).Exact :=
  ⟨(chordSum_lawful hodd).exact, (doubling_lawful hodd).exact, (doublingByConstant_lawful hodd).exact,
    negation_lawful.exact⟩

theorem incompleteOperations_exact_tinyCurve :
    CurveParams.tinyCurve.base.modulus ≠ 2 ∧
      (∃ r : ((chordSum .tinyCurve).inlet.component (chordSum .tinyCurve).gadget).Recorded,
        ∀ l : Layout, r.chip.manifest.required ≤ l.width →
          (r.chip.Guarantees l fun t => t.point? l r.input.1 = some ⟨8, 9⟩ →
            t.point? l r.input.2 ≠ some ⟨1, 5⟩) ∧
          (r.chip.Computes l ((chordSum .tinyCurve).inlet.write r.input (⟨1, 2⟩, ⟨6, 3⟩)) fun t =>
            t.readPoint r.output = .ok ⟨2, 2⟩) ∧
          r.chip.DividesByZero l ((chordSum .tinyCurve).inlet.write r.input (⟨1, 2⟩, ⟨1, 5⟩))) ∧
      ∃ r : ((doublingByConstant .tinyCurve).inlet.component (doublingByConstant .tinyCurve).gadget).Recorded,
        ∀ l : Layout, r.chip.manifest.required ≤ l.width →
          r.chip.Computes l ((doublingByConstant .tinyCurve).inlet.write r.input ⟨1, 2⟩) fun t =>
            t.readPoint r.output = .ok ⟨6, 3⟩ := by
  have hodd : CurveParams.tinyCurve.base.modulus ≠ 2 := by decide
  obtain ⟨⟨r, hr⟩, -, ⟨s, hs⟩, -⟩ := incompleteOperations_exact .tinyCurve hodd
  have hsum : Point.add .tinyCurve ⟨1, 2⟩ ⟨6, 3⟩ = .ok ⟨2, 2⟩ := by decide
  have hdouble : Point.double .tinyCurve ⟨1, 2⟩ = .ok ⟨6, 3⟩ := by decide
  have hreduced : (⟨1, 2⟩ : Point).Reduced CurveParams.tinyCurve.base.modulus := ⟨by decide, by decide⟩
  refine ⟨hodd, ⟨r, fun l hl => ⟨(hr l hl).1.weaken ?_, ?_, ?_⟩⟩, s, fun l hl => ?_⟩
  · rintro t ⟨⟨P, Q⟩, hread, h⟩ hP' hQ'
    obtain ⟨hP, hQ⟩ := Inlet.read?_pair_eq_some_iff.mp hread
    obtain rfl : P = ⟨8, 9⟩ := Option.some.inj (hP.symm.trans hP')
    obtain rfl : Q = ⟨1, 5⟩ := Option.some.inj (hQ.symm.trans hQ')
    exact (h ⟨by decide, by decide⟩).1 rfl
  · obtain ⟨R, hR, h⟩ := (hr l hl).2 (⟨1, 2⟩, ⟨6, 3⟩) ⟨hreduced, by decide, by decide⟩
      ⟨by decide, by decide⟩
    obtain rfl : R = ⟨2, 2⟩ := Except.ok.inj (hR.symm.trans hsum)
    exact h.computes (show 1 ≠ 6 by decide)
  · obtain ⟨R, -, h⟩ := (hr l hl).2 (⟨1, 2⟩, ⟨1, 5⟩) ⟨hreduced, by decide, by decide⟩
      ⟨by decide, by decide⟩
    exact h.divides fun hne => hne rfl
  · obtain ⟨R, hR, h⟩ := (hs l hl).2 ⟨1, 2⟩ hreduced trivial
    obtain rfl : R = ⟨6, 3⟩ := Except.ok.inj (hR.symm.trans hdouble)
    exact h.computes (show 2 ≠ 0 by decide)

/--
The fused double-and-add is two additions of the reference. It is defined where both of them have a
chord, in every accepted table and in the witness pass.
-/
theorem doubleAndAdd_exact (E : CurveParams) [E.base.HasHeadroom] [Fact E.base.modulus.Prime]
    (hodd : E.base.modulus ≠ 2) (hb : E.b % E.base.modulus ≠ 0) : (doubleAndAdd E).Exact :=
  (doubleAndAdd_lawful hodd hb).exact

theorem doubleAndAdd_exact_tinyCurve :
    CurveParams.tinyCurve.base.modulus ≠ 2 ∧
      CurveParams.tinyCurve.b % CurveParams.tinyCurve.base.modulus ≠ 0 ∧
      ∃ r : ((doubleAndAdd .tinyCurve).inlet.component (doubleAndAdd .tinyCurve).gadget).Recorded,
        ∀ l : Layout, r.chip.manifest.required ≤ l.width →
          (r.chip.Guarantees l fun t => t.point? l r.input.1 = some ⟨8, 9⟩ →
            t.point? l r.input.2 = some ⟨6, 3⟩ →
              (t.point? l r.output).map (·.reduce 7) = some ⟨4, 5⟩) ∧
          (r.chip.Computes l ((doubleAndAdd .tinyCurve).inlet.write r.input (⟨1, 2⟩, ⟨6, 3⟩)) fun t =>
            t.readPoint r.output = .ok ⟨4, 5⟩) ∧
          r.chip.DividesByZero l ((doubleAndAdd .tinyCurve).inlet.write r.input (⟨1, 2⟩, ⟨6, 4⟩)) := by
  -- twice the generator plus minus its double has no second chord
  have hodd : CurveParams.tinyCurve.base.modulus ≠ 2 := by decide
  have hb : CurveParams.tinyCurve.b % CurveParams.tinyCurve.base.modulus ≠ 0 := by decide
  obtain ⟨r, hr⟩ := doubleAndAdd_exact .tinyCurve hodd hb
  have hsum : Point.add .tinyCurve ⟨1, 2⟩ ⟨6, 3⟩ = .ok ⟨2, 2⟩ := by decide
  have hresult : Point.add .tinyCurve ⟨2, 2⟩ ⟨1, 2⟩ = .ok ⟨4, 5⟩ := by decide
  have hopposite : Point.add .tinyCurve ⟨1, 2⟩ ⟨6, 4⟩ = .ok ⟨1, 5⟩ := by decide
  have hreference : (doubleAndAdd .tinyCurve).reference (⟨1, 2⟩, ⟨6, 3⟩) = .ok ⟨4, 5⟩ :=
    bind_eq_ok_iff.mpr ⟨_, hsum, hresult⟩
  have hT : (⟨1, 2⟩ : Point).FiniteOn .tinyCurve := ⟨by decide, by decide⟩
  have hQ : (⟨6, 3⟩ : Point).FiniteOn .tinyCurve := ⟨by decide, by decide⟩
  have hreduced : (⟨1, 2⟩ : Point).Reduced CurveParams.tinyCurve.base.modulus := ⟨by decide, by decide⟩
  refine ⟨hodd, hb, r, fun l hl => ⟨(hr l hl).1.weaken ?_, ?_, ?_⟩⟩
  · rintro t ⟨⟨T, Q⟩, hread, h⟩ hT' hQ'
    obtain ⟨hT₁, hQ₁⟩ := Inlet.read?_pair_eq_some_iff.mp hread
    obtain rfl : T = ⟨8, 9⟩ := Option.some.inj (hT₁.symm.trans hT')
    obtain rfl : Q = ⟨6, 3⟩ := Option.some.inj (hQ₁.symm.trans hQ')
    obtain ⟨-, R, hR, hpoint⟩ := h ⟨hT, hQ⟩
    obtain rfl : R = ⟨4, 5⟩ := Except.ok.inj (hR.symm.trans hreference)
    exact hpoint
  · obtain ⟨R, hR, h⟩ := (hr l hl).2 (⟨1, 2⟩, ⟨6, 3⟩) ⟨hreduced, by decide, by decide⟩ ⟨hT, hQ⟩
    obtain rfl : R = ⟨4, 5⟩ := Except.ok.inj (hR.symm.trans hreference)
    exact h.computes ⟨show 1 ≠ 6 by decide, _, hsum, show 2 ≠ 1 by decide⟩
  · obtain ⟨R, -, h⟩ := (hr l hl).2 (⟨1, 2⟩, ⟨6, 4⟩) ⟨hreduced, by decide, by decide⟩
      ⟨hT, by decide, by decide⟩
    apply h.divides
    rintro ⟨-, S, hS, hx⟩
    obtain rfl : S = ⟨1, 5⟩ := Except.ok.inj (hS.symm.trans hopposite)
    exact hx rfl

end PointOperation

end ForeignCurve
