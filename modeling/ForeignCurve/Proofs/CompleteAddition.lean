import ForeignCurve.Proofs.Component

namespace ForeignCurve

def TraceM.writePoints {P : FieldParams} (r : PointRegister P × PointRegister P) (p q : Point) :
    TraceM Unit := do
  writePoint r.1 p
  writePoint r.2 q

namespace Component

variable {ο : Type} {E : CurveParams}

def completeSum (E : CurveParams) :
    Component (PointRegister E.base × PointRegister E.base) (Gadget.CompleteSum E.base) where
  allocInput := (pointSum E).allocInput
  generate input := Gadget.completeSum E input.1 input.2

def setPointSum (E : CurveParams) :
    Component ((PointRegister E.base × PointRegister E.base) × PointRegister E.base) Unit where
  allocInput := do
    let p ← Record.allocPoint E.base
    let q ← Record.allocPoint E.base
    let result ← Record.allocPoint E.base
    return ((p, q), result)
  generate input := Gadget.setAddPoint E input.1.1 input.1.2 input.2

instance (i : PointRegister E.base × PointRegister E.base) : Grows ((completeSum E).generate i) :=
  Grows.completeSum E i.1 i.2

instance (i : PointRegister E.base × PointRegister E.base) : Grows ((pointSum E).generate i) :=
  Grows.addPoint E i.1 i.2

theorem setPointSum_eq_into (E : CurveParams) : setPointSum E = (pointSum E).into := by
  unfold setPointSum pointSum into Gadget.setAddPoint
  simp only [bind_assoc, pure_bind]

def summands (E : CurveParams) : PointRegister E.base × PointRegister E.base :=
  (.ofCell E.base 0, .ofCell E.base (0 + (E.base.limbs + E.base.limbs)))

def summandRules (E : CurveParams) : List Instruction :=
  Record.pointRules E.base 0 ++ Record.pointRules E.base (0 + (E.base.limbs + E.base.limbs))

theorem addsAt_summands (E : CurveParams) :
    (pointSum E).allocInput.AddsAt 0 (summands E)
      (E.base.limbs + E.base.limbs + (E.base.limbs + E.base.limbs)) (summandRules E) := by
  apply Record.AddsAt.bind (.allocPoint E.base 0)
  exact Record.AddsAt.bind_pure (.allocPoint E.base _)

variable [E.base.HasHeadroom]

instance [NeZero E.base.modulus] (i : PointRegister E.base × PointRegister E.base) :
    Records ((completeSum E).generate i) :=
  Records.completeSum E i.1 i.2

instance [NeZero E.base.modulus] (i : PointRegister E.base × PointRegister E.base) :
    Records ((pointSum E).generate i) :=
  Records.addPoint E i.1 i.2

theorem exists_summands {w : Scenario}
    (hbound : E.base.limbs + E.base.limbs + (E.base.limbs + E.base.limbs) ≤ w.numCells)
    (h : ∀ i ∈ summandRules E, w.Holds i) :
    ∃ P Q, w.Numbers (summands E).1 P ∧ w.Numbers (summands E).2 Q := by
  unfold summandRules at h
  rw [List.forall_mem_append, Scenario.holds_pointRules_iff (by omega),
    Scenario.holds_pointRules_iff (by omega)] at h
  obtain ⟨⟨P, hP⟩, Q, hQ⟩ := h
  exact ⟨P, Q, hP, hQ⟩

theorem input_summands {P Q : Point} (hP : P.Reduced E.base.modulus)
    (hQ : Q.Reduced E.base.modulus) :
    Input (pointSum E).allocInput 0 (summands E)
      (E.base.limbs + E.base.limbs + (E.base.limbs + E.base.limbs)) (summandRules E)
      (.writePoints (summands E) P Q)
      (fun w => w.Numbers (summands E).1 P ∧ w.Numbers (summands E).2 Q) :=
  .pair (.point 0 hP.fits) (.point _ hQ.fits)

end Component

/-- A zero ordinate marks the point at infinity. -/
def Point.Unambiguous (P : Point) : Prop :=
  P.y = 0 → P.x = 0

theorem Point.Unambiguous.ofPoint {m : Nat} {P : Point} (h : (P.reduce m).Unambiguous)
    (hy : (Coordinates.ofPoint m P).y = 0) : (Coordinates.ofPoint m P).x = 0 :=
  natCast_eq_zero_iff_mod.mpr (h (Coordinates.ofPoint_y_eq_zero_iff.mp hy))

structure Table.HoldsSum (t : Table Native) (l : Layout) (E : CurveParams)
    [Fact E.base.modulus.Prime] (P Q : Point) (sum : Gadget.CompleteSum E.base) : Prop where
  result : ∃ R, Point.add E P Q = .ok R ∧ t.HoldsPoint l sum.result R
  pIsIdentity : t.residue? l sum.pIsIdentity = some (if P.y = 0 then 1 else 0)
  qIsIdentity : t.residue? l sum.qIsIdentity = some (if Q.y = 0 then 1 else 0)
  sameX : t.residue? l sum.sameX = some (if P.x = Q.x then 1 else 0)
  oppositeY : t.residue? l sum.oppositeY =
    some (if (P.y + Q.y) % E.base.modulus = 0 then 1 else 0)
  slope : ∃ s : ZMod E.base.modulus, t.residue? l sum.slope = some s.val ∧
    (Coordinates.ofPoint E.base.modulus P).IsSlope (.ofPoint E.base.modulus Q) E.a s

section Scenarios

variable {E : CurveParams} [E.base.HasHeadroom] [hprime : Fact E.base.modulus.Prime]
  (hodd : E.base.modulus ≠ 2) {w : Scenario} {p q : PointRegister E.base} {P Q : Point}

include hodd

namespace Scenario

theorem completeSum_of_numbers (hP : w.Numbers p P) (hQ : w.Numbers q Q)
    (hreduced : w.Honest → P.Reduced E.base.modulus ∧ Q.Reduced E.base.modulus)
    (hPy : (P.reduce E.base.modulus).Unambiguous) (hQy : (Q.reduce E.base.modulus).Unambiguous) :
    w.Triple (Gadget.completeSum E p q)
      (Sums w E (.ofPoint E.base.modulus P) (.ofPoint E.base.modulus Q)) :=
  completeSum_spec hodd (hP.at fun hw => (hreduced hw).1) (hQ.at fun hw => (hreduced hw).2)
    hPy.ofPoint hQy.ofPoint

theorem addPoint_of_numbers (hP : w.Numbers p P) (hQ : w.Numbers q Q)
    (hreduced : w.Honest → P.Reduced E.base.modulus ∧ Q.Reduced E.base.modulus)
    (hPy : (P.reduce E.base.modulus).Unambiguous) (hQy : (Q.reduce E.base.modulus).Unambiguous) :
    w.Triple (Gadget.addPoint E p q) (fun r => w.Numbers r
      ((Coordinates.ofPoint E.base.modulus P).add (.ofPoint E.base.modulus Q) E.a).toPoint) := by
  apply Triple.bind (completeSum_of_numbers hodd hP hQ hreduced hPy hQy)
  intro sum hsum
  exact Triple.pure ⟨hsum.x, hsum.y⟩

theorem Sums.holdsSum {sum : Gadget.CompleteSum E.base} {t : Table Native} {l : Layout}
    (h : Sums w E (.ofPoint E.base.modulus P) (.ofPoint E.base.modulus Q) sum)
    (hw : w.store = t.store l) :
    t.HoldsSum l E (P.reduce E.base.modulus) (Q.reduce E.base.modulus) sum := by
  obtain ⟨s, hs, hslope⟩ := h.slope
  refine ⟨⟨_, Point.add_reduce_eq_ok hodd P Q, ?_⟩, ?_, ?_, ?_, ?_, s, hs.residue? hw, ?_⟩
  · exact ⟨h.x.holdsNumber hw, h.y.holdsNumber hw⟩
  · exact h.pIsIdentity.indicator hw Coordinates.ofPoint_y_eq_zero_iff
  · exact h.qIsIdentity.indicator hw Coordinates.ofPoint_y_eq_zero_iff
  · exact h.sameX.indicator hw Coordinates.ofPoint_x_eq_iff
  · exact h.oppositeY.indicator hw Coordinates.ofPoint_y_add_eq_zero_iff
  · rw [Coordinates.ofPoint_reduce, Coordinates.ofPoint_reduce]
    exact hslope

end Scenario

end Scenarios

theorem Point.reduced_identity {m : Nat} [NeZero m] : identity.Reduced m :=
  ⟨Nat.pos_of_ne_zero (NeZero.ne m), Nat.pos_of_ne_zero (NeZero.ne m)⟩

namespace Component

variable {E : CurveParams} [E.base.HasHeadroom] [hprime : Fact E.base.modulus.Prime] {l : Layout}

section Honest

variable (hodd : E.base.modulus ≠ 2) {P Q : Point} (hP : P.Reduced E.base.modulus)
  (hQ : Q.Reduced E.base.modulus) (hPy : P.Unambiguous) (hQy : Q.Unambiguous)

include hodd hP hQ hPy hQy

theorem pointSum_spec (w : Scenario) (hw : w.Numbers (summands E).1 P ∧ w.Numbers (summands E).2 Q) :
    w.Triple (Gadget.addPoint E (summands E).1 (summands E).2) (fun r => w.Numbers r
      ((Coordinates.ofPoint E.base.modulus P).add (.ofPoint E.base.modulus Q) E.a).toPoint) := by
  rw [← Point.reduce_of_reduced hP] at hPy
  rw [← Point.reduce_of_reduced hQ] at hQy
  exact Scenario.addPoint_of_numbers hodd hw.1 hw.2 (fun _ => ⟨hP, hQ⟩) hPy hQy

theorem pointSum_computes (r : (pointSum E).Recorded) (hl : r.chip.manifest.required ≤ l.width) :
    ∃ R, Point.add E P Q = .ok R ∧
      r.chip.Computes l (.writePoints r.input P Q) (fun t => t.readPoint r.output = .ok R) := by
  have hadd := Point.add_reduce_eq_ok hodd P Q
  rw [Point.reduce_of_reduced hP, Point.reduce_of_reduced hQ] at hadd
  refine ⟨_, hadd, ?_⟩
  rw [(r.before_adds (addsAt_summands E)).1]
  apply Chip.Computes.weaken
    (r.computes (input_summands hP hQ) hl fun w _ hw => pointSum_spec hodd hP hQ hPy hQy w hw)
  rintro t ⟨w, hstore, hnum, hR⟩
  exact hR.readPoint hstore hnum

theorem pointSum_computes_into (r : (pointSum E).into.Recorded)
    (hl : r.chip.manifest.required ≤ l.width) :
    ∃ R, Point.add E P Q = .ok R ∧
      r.chip.Computes l (.writePoints r.input.1 P Q) (fun t => t.readPoint r.input.2 = .ok R) := by
  have hadd := Point.add_reduce_eq_ok hodd P Q
  rw [Point.reduce_of_reduced hP, Point.reduce_of_reduced hQ] at hadd
  refine ⟨_, hadd, ?_⟩
  have hinput := (r.before_adds (addsAt_into (addsAt_summands E))).1
  have hcomputes := r.computes_into (input_summands hP hQ) hl
    fun w _ hw => pointSum_spec hodd hP hQ hPy hQy w hw
  rw [hinput]
  rwa [hinput] at hcomputes

end Honest

section Accepted

variable (hodd : E.base.modulus ≠ 2) {t : Table Native}

include hodd

theorem completeSum_holdsSum (r : (completeSum E).Recorded)
    (h : ∀ i ∈ r.chip.instructions.toList, i.Holds (t.store l) r.chip.numCells) :
    ∃ P Q, t.point? l r.input.1 = some P ∧ t.point? l r.input.2 = some Q ∧
      ((P.reduce E.base.modulus).Unambiguous → (Q.reduce E.base.modulus).Unambiguous →
        t.HoldsSum l E (P.reduce E.base.modulus) (Q.reduce E.base.modulus) r.output) := by
  obtain ⟨w, hw, hstore, hbound, hrules, hpost⟩ :=
    r.exists_accepted (c := completeSum E) (addsAt_summands E) h
  obtain ⟨P, Q, hP, hQ⟩ := exists_summands hbound hrules
  rw [(r.before_adds (addsAt_summands E)).1]
  refine ⟨P, Q, hP.point? hstore, hQ.point? hstore, ?_⟩
  intro hPy hQy
  have hsums := hpost _
    (Scenario.completeSum_of_numbers hodd hP hQ (fun hw' => absurd hw' hw) hPy hQy)
  exact hsums.holdsSum hodd hstore

theorem pointSum_holds_into (r : (pointSum E).into.Recorded)
    (h : ∀ i ∈ r.chip.instructions.toList, i.Holds (t.store l) r.chip.numCells) :
    ∃ P Q, t.point? l r.input.1.1 = some P ∧ t.point? l r.input.1.2 = some Q ∧
      ((P.reduce E.base.modulus).Unambiguous → (Q.reduce E.base.modulus).Unambiguous →
        ∃ R, Point.add E (P.reduce E.base.modulus) (Q.reduce E.base.modulus) = .ok R ∧
          t.HoldsPoint l r.input.2 R) := by
  obtain ⟨w, hw, hstore, hbound, hrules, hpost⟩ := r.exists_accepted_into (addsAt_summands E) h
  obtain ⟨P, Q, hP, hQ⟩ := exists_summands hbound hrules
  have hinput := (r.before_adds (addsAt_into (addsAt_summands E))).1
  refine ⟨P, Q, ?_, ?_, ?_⟩
  · rw [hinput]
    exact hP.point? hstore
  · rw [hinput]
    exact hQ.point? hstore
  · intro hPy hQy
    have hspec := Scenario.addPoint_of_numbers hodd hP hQ (fun hw' => absurd hw' hw) hPy hQy
    obtain ⟨hsum, -⟩ := hpost _ True (hspec.weaken fun _ h => ⟨h, trivial⟩)
    exact ⟨_, Point.add_reduce_eq_ok hodd P Q, hsum.holdsPoint hstore⟩

end Accepted

theorem completeSum_computes_identity (hodd : E.base.modulus ≠ 2) (r : (completeSum E).Recorded)
    (hl : r.chip.manifest.required ≤ l.width) :
    r.chip.Computes l (.writePoints (summands E) .identity .identity) (fun _ => True) := by
  have hunambiguous : Point.identity.Unambiguous := fun _ => rfl
  have hreduced : Point.identity.Reduced E.base.modulus := Point.reduced_identity
  rw [← Point.reduce_of_reduced hreduced] at hunambiguous
  apply Chip.Computes.weaken (r.computes (c := completeSum E) (input_summands hreduced hreduced) hl
    fun w _ hw => Scenario.completeSum_of_numbers hodd hw.1 hw.2 (fun _ => ⟨hreduced, hreduced⟩)
      hunambiguous hunambiguous)
  exact fun _ _ => trivial

/--
In every accepted table the result of a complete addition is the canonical sum of the residues of the
operands. Their limbs need not be reduced, and they need not be on the curve.
-/
theorem completeSum_sound (E : CurveParams) [E.base.HasHeadroom] [Fact E.base.modulus.Prime]
    (hodd : E.base.modulus ≠ 2) :
    (∃ r : (completeSum E).Recorded, ∀ l : Layout, r.chip.manifest.required ≤ l.width →
      r.chip.Guarantees l fun t => ∃ P Q,
        t.point? l r.input.1 = some P ∧ t.point? l r.input.2 = some Q ∧
          ((P.reduce E.base.modulus).Unambiguous → (Q.reduce E.base.modulus).Unambiguous →
            t.HoldsSum l E (P.reduce E.base.modulus) (Q.reduce E.base.modulus) r.output)) ∧
    ∃ r : (setPointSum E).Recorded, ∀ l : Layout, r.chip.manifest.required ≤ l.width →
      r.chip.Guarantees l fun t => ∃ P Q,
        t.point? l r.input.1.1 = some P ∧ t.point? l r.input.1.2 = some Q ∧
          ((P.reduce E.base.modulus).Unambiguous → (Q.reduce E.base.modulus).Unambiguous →
            ∃ R, Point.add E (P.reduce E.base.modulus) (Q.reduce E.base.modulus) = .ok R ∧
              t.HoldsPoint l r.input.2 R) := by
  constructor
  · obtain ⟨r⟩ := exists_recorded (c := completeSum E) (addsAt_summands E)
    refine ⟨r, fun l hl => ?_⟩
    apply (completeSum_computes_identity hodd r hl).guarantees hl
    exact fun t => completeSum_holdsSum hodd r
  · rw [setPointSum_eq_into]
    obtain ⟨r⟩ := exists_recorded (addsAt_into (addsAt_summands E))
    refine ⟨r, fun l hl => ?_⟩
    obtain ⟨R, -, hcomputes⟩ := pointSum_computes_into hodd Point.reduced_identity
      Point.reduced_identity (fun _ => rfl) (fun _ => rfl) r hl
    apply hcomputes.guarantees hl
    exact fun t => pointSum_holds_into hodd r

theorem completeSum_sound_tinyCurve :
    CurveParams.tinyCurve.base.modulus ≠ 2 ∧
      ∃ r : (completeSum .tinyCurve).Recorded, ∀ l : Layout, r.chip.manifest.required ≤ l.width →
        r.chip.Guarantees l fun t => t.point? l r.input.1 = some ⟨8, 9⟩ →
          t.point? l r.input.2 = some ⟨1, 2⟩ → t.HoldsPoint l r.output.result ⟨6, 3⟩ := by
  -- the limbs of `(8, 9)` are not reduced, and the point is doubled
  have hodd : CurveParams.tinyCurve.base.modulus ≠ 2 := by decide
  obtain ⟨⟨r, hr⟩, -⟩ := completeSum_sound .tinyCurve hodd
  refine ⟨hodd, r, fun l hl => (hr l hl).weaken ?_⟩
  rintro t ⟨P, Q, hP, hQ, hsum⟩ hP' hQ'
  obtain rfl : P = ⟨8, 9⟩ := Option.some.inj (hP.symm.trans hP')
  obtain rfl : Q = ⟨1, 2⟩ := Option.some.inj (hQ.symm.trans hQ')
  obtain ⟨R, hR, hholds⟩ := (hsum (fun h => absurd h (by decide)) (fun h => absurd h (by decide))).result
  obtain rfl : ⟨6, 3⟩ = R := Except.ok.inj hR
  exact hholds

/--
On reduced operands the witness pass of a complete addition goes through, its table is accepted, and
the result is the sum of the reference arithmetic. The operands need not be on the curve.
-/
theorem pointSum_complete (E : CurveParams) [E.base.HasHeadroom] [Fact E.base.modulus.Prime]
    (hodd : E.base.modulus ≠ 2) :
    (∃ r : (pointSum E).Recorded, ∀ l : Layout, r.chip.manifest.required ≤ l.width →
      ∀ P Q : Point, P.Reduced E.base.modulus → Q.Reduced E.base.modulus → P.Unambiguous →
        Q.Unambiguous → ∃ R, Point.add E P Q = .ok R ∧
          r.chip.Computes l (.writePoints r.input P Q) (fun t => t.readPoint r.output = .ok R)) ∧
    ∃ r : (setPointSum E).Recorded, ∀ l : Layout, r.chip.manifest.required ≤ l.width →
      ∀ P Q : Point, P.Reduced E.base.modulus → Q.Reduced E.base.modulus → P.Unambiguous →
        Q.Unambiguous → ∃ R, Point.add E P Q = .ok R ∧
          r.chip.Computes l (.writePoints r.input.1 P Q)
            (fun t => t.readPoint r.input.2 = .ok R) := by
  constructor
  · obtain ⟨r⟩ := exists_recorded (addsAt_summands E)
    exact ⟨r, fun l hl P Q hP hQ hPy hQy => pointSum_computes hodd hP hQ hPy hQy r hl⟩
  · rw [setPointSum_eq_into]
    obtain ⟨r⟩ := exists_recorded (addsAt_into (addsAt_summands E))
    exact ⟨r, fun l hl P Q hP hQ hPy hQy => pointSum_computes_into hodd hP hQ hPy hQy r hl⟩

theorem pointSum_complete_tinyCurve :
    CurveParams.tinyCurve.base.modulus ≠ 2 ∧
      ∃ r : (pointSum .tinyCurve).Recorded, ∀ l : Layout, r.chip.manifest.required ≤ l.width →
        r.chip.Computes l (.writePoints r.input ⟨1, 2⟩ ⟨1, 5⟩)
          (fun t => t.readPoint r.output = .ok .identity) := by
  have hodd : CurveParams.tinyCurve.base.modulus ≠ 2 := by decide
  obtain ⟨⟨r, hr⟩, -⟩ := pointSum_complete .tinyCurve hodd
  refine ⟨hodd, r, fun l hl => ?_⟩
  obtain ⟨R, hR, hcomputes⟩ := hr l hl ⟨1, 2⟩ ⟨1, 5⟩ ⟨by decide, by decide⟩ ⟨by decide, by decide⟩
    (fun h => absurd h (by decide)) (fun h => absurd h (by decide))
  obtain rfl : .identity = R := Except.ok.inj hR
  exact hcomputes

end Component

end ForeignCurve
