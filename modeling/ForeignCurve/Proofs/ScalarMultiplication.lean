import ForeignCurve.Proofs.CompleteAddition

/-!
Scalar multiplication, as a component: what the accepted tables of its circuit say about the scalar, the
point and the multiple, and what the witness pass computes.
-/

namespace ForeignCurve

structure Table.HoldsMultiple (t : Table Native) (l : Layout) (E : CurveParams) (scalar : Nat)
    (P : Point) (result : PointRegister E.base) : Prop where
  lt : scalar < E.groupOrder
  y_ne_zero : P.y ≠ 0
  result : ∃ R, Point.mul E P scalar = .ok R ∧ t.HoldsPoint l result R ∧
    (scalar = 0 → R = Point.identity)

def TraceM.writeOperands {S P : FieldParams} (r : FieldRegister S × PointRegister P) (scalar : Nat)
    (p : Point) : TraceM Unit := do
  writeNumber r.1 scalar
  writePoint r.2 p

namespace Component

variable {E : CurveParams}

def setScalarMul (E : CurveParams) :
    Component ((FieldRegister E.scalar × PointRegister E.base) × PointRegister E.base) Unit where
  allocInput := do
    let scalar ← Record.alloc (.field E.scalar)
    let point ← Record.allocPoint E.base
    let result ← Record.allocPoint E.base
    return ((scalar, point), result)
  generate input := Gadget.setScalarMul E input.1.1 input.1.2 input.2

theorem setScalarMul_eq_into (E : CurveParams) : setScalarMul E = (scalarMul E).into := by
  unfold setScalarMul scalarMul into Gadget.setScalarMul
  simp only [bind_assoc, pure_bind]

def operands (E : CurveParams) : FieldRegister E.scalar × PointRegister E.base :=
  (⟨0⟩, .ofCell E.base (0 + E.scalar.limbs))

def operandRules (E : CurveParams) : List Instruction :=
  Record.fieldRules E.scalar 0 ++ Record.pointRules E.base (0 + E.scalar.limbs)

theorem addsAt_operands (E : CurveParams) :
    (scalarMul E).allocInput.AddsAt 0 (operands E)
      (E.scalar.limbs + (E.base.limbs + E.base.limbs)) (operandRules E) := by
  apply Record.AddsAt.bind (.allocField E.scalar 0)
  exact Record.AddsAt.bind_pure (.allocPoint E.base _)

instance (i : FieldRegister E.scalar × PointRegister E.base) : Grows ((scalarMul E).generate i) :=
  Grows.scalarMul E i.1 i.2

section Headroom

variable [E.scalar.HasHeadroom] [E.base.HasHeadroom]

instance [E.Scalable] (i : FieldRegister E.scalar × PointRegister E.base) :
    Records ((scalarMul E).generate i) :=
  Records.scalarMul i.1 i.2

theorem input_operands {s : Nat} {P : Point} (hs : s < E.groupOrder)
    (hP : P.Reduced E.base.modulus) :
    Input (scalarMul E).allocInput 0 (operands E) (E.scalar.limbs + (E.base.limbs + E.base.limbs))
      (operandRules E) (.writeOperands (operands E) s P)
      (fun w => w.Number (operands E).1 s ∧ w.Numbers (operands E).2 P) :=
  .pair (.number 0 (Nat.lt_trans hs FieldParams.modulus_lt)) (.point _ hP.fits)

end Headroom

variable [hE : E.PrimeOrder]

theorem exists_operands {w : Scenario}
    (hbound : E.scalar.limbs + (E.base.limbs + E.base.limbs) ≤ w.numCells)
    (h : ∀ i ∈ operandRules E, w.Holds i) :
    ∃ s P, w.Number (operands E).1 s ∧ w.Numbers (operands E).2 P := by
  unfold operandRules at h
  rw [List.forall_mem_append, Scenario.holds_fieldRules_iff (by omega),
    Scenario.holds_pointRules_iff (by omega)] at h
  obtain ⟨⟨s, hs⟩, P, hP⟩ := h
  exact ⟨s, P, hs, hP⟩

end Component

namespace CurveParams

variable {E : CurveParams} [hE : E.PrimeOrder]

theorem exists_of_eq_ofPoint {P : Point} (h : (P.reduce E.base.modulus).onCurve E = true) :
    ∃ A : E.Group, Coordinates.of A = .ofPoint E.base.modulus P := by
  rw [← Coordinates.toPoint_ofPoint] at h
  exact onCurve_iff.mp h

theorem mul_reduce_eq_ok {P : Point} {A : E.Group}
    (hA : Coordinates.of A = .ofPoint E.base.modulus P) (s : Nat) :
    Point.mul E (P.reduce E.base.modulus) s = .ok (Coordinates.of (s • A)).toPoint := by
  rw [← Coordinates.toPoint_ofPoint, ← hA, mul_eq_ok]

theorem exists_finite_point (E : CurveParams) [hE : E.PrimeOrder] :
    ∃ P : Point, P.Reduced E.base.modulus ∧ P.onCurve E = true ∧ P ≠ .identity := by
  have hfive := hE.five_le
  have hcard := card_group (E := E)
  have hfinite : Finite E.Group := Nat.finite_of_card_ne_zero (by omega)
  have hnontrivial : Nontrivial E.Group := Finite.one_lt_card_iff_nontrivial.mp (by omega)
  obtain ⟨A, hA⟩ := exists_ne (0 : E.Group)
  refine ⟨(Coordinates.of A).toPoint, ⟨ZMod.val_lt _, ZMod.val_lt _⟩, onCurve_iff.mpr ⟨A, rfl⟩, ?_⟩
  intro h
  have hidentity : (Coordinates.of A).toPoint.isIdentity = true := by
    rw [h]
    rfl
  exact hA ((Coordinates.of_eq_zero_iff b_ne_zero).mp (Coordinates.isIdentity_toPoint.mp hidentity))

end CurveParams

namespace Scenario

variable {E : CurveParams} [hE : E.PrimeOrder] {w : Scenario} {scalar : FieldRegister E.scalar}
  {point : PointRegister E.base} {s : Nat} {P : Point} {A : E.Group}

theorem scalarMul_of_numbers (hs : w.Number scalar s) (hP : w.Numbers point P)
    (hA : Coordinates.of A = .ofPoint E.base.modulus P)
    (h : w.Honest → s < E.groupOrder ∧ P.Reduced E.base.modulus ∧ A ≠ 0) :
    w.Triple (Gadget.scalarMul E scalar point) (fun r =>
      w.Numbers r (Coordinates.of (s • A)).toPoint ∧ s < E.groupOrder ∧ A ≠ 0) := by
  have hpoint := hP.at fun hw => (h hw).2.1
  rw [← hA] at hpoint
  apply Triple.weaken (scalarMul_spec hs hpoint fun hw => ⟨(h hw).1, (h hw).2.2⟩)
  intro r hr
  exact ⟨⟨hr.x, hr.y⟩, hr.lt, hr.ne_zero⟩

theorem Numbers.holdsMultiple {r : PointRegister E.base} {t : Table Native} {l : Layout}
    (hA : Coordinates.of A = .ofPoint E.base.modulus P)
    (h : w.Numbers r (Coordinates.of (s • A)).toPoint ∧ s < E.groupOrder ∧ A ≠ 0)
    (hw : w.store = t.store l) : t.HoldsMultiple l E s (P.reduce E.base.modulus) r := by
  obtain ⟨hr, hlt, hne⟩ := h
  refine ⟨hlt, ?_, _, CurveParams.mul_reduce_eq_ok hA s, hr.holdsPoint hw, ?_⟩
  · intro hy
    apply hne
    rw [← CurveParams.y_eq_zero_iff, hA]
    exact Coordinates.ofPoint_y_eq_zero_iff.mpr hy
  · rintro rfl
    rw [zero_nsmul, Coordinates.of_zero, Coordinates.toPoint_zero]

end Scenario

namespace Component

variable {E : CurveParams} [hE : E.PrimeOrder] {l : Layout}

section Honest

variable {s : Nat} {P : Point} (hs : s < E.groupOrder) (hP : P.Reduced E.base.modulus)
  (hcurve : P.onCurve E = true) (hne : P ≠ .identity)

include hs hP hcurve hne

theorem scalarMul_exists :
    ∃ R, Point.mul E P s = .ok R ∧ ∀ w : Scenario, w.Honest →
      w.Number (operands E).1 s ∧ w.Numbers (operands E).2 P →
        w.Triple (Gadget.scalarMul E (operands E).1 (operands E).2) (fun r => w.Numbers r R) := by
  have hreduce := Point.reduce_of_reduced hP
  rw [← hreduce] at hcurve
  obtain ⟨A, hA⟩ := CurveParams.exists_of_eq_ofPoint hcurve
  have hmul := CurveParams.mul_reduce_eq_ok hA s
  rw [hreduce] at hmul
  refine ⟨_, hmul, ?_⟩
  rintro w - ⟨hscalar, hpoint⟩
  apply Scenario.Triple.weaken (Scenario.scalarMul_of_numbers hscalar hpoint hA fun _ => ⟨hs, hP, ?_⟩)
  · exact fun r hr => hr.1
  · rintro rfl
    apply hne
    rw [← hreduce, ← Coordinates.toPoint_ofPoint, ← hA, Coordinates.of_zero, Coordinates.toPoint_zero]

theorem scalarMul_computes (r : (scalarMul E).Recorded) (hl : r.chip.manifest.required ≤ l.width) :
    ∃ R, Point.mul E P s = .ok R ∧
      r.chip.Computes l (.writeOperands r.input s P) (fun t => t.readPoint r.output = .ok R) := by
  obtain ⟨R, hR, hspec⟩ := scalarMul_exists hs hP hcurve hne
  refine ⟨R, hR, ?_⟩
  rw [(r.before_adds (addsAt_operands E)).1]
  apply Chip.Computes.weaken (r.computes (input_operands hs hP) hl hspec)
  rintro t ⟨w, hstore, hnum, hread⟩
  exact hread.readPoint hstore hnum

theorem scalarMul_computes_into (r : (scalarMul E).into.Recorded)
    (hl : r.chip.manifest.required ≤ l.width) :
    ∃ R, Point.mul E P s = .ok R ∧
      r.chip.Computes l (.writeOperands r.input.1 s P) (fun t => t.readPoint r.input.2 = .ok R) := by
  obtain ⟨R, hR, hspec⟩ := scalarMul_exists hs hP hcurve hne
  refine ⟨R, hR, ?_⟩
  have hinput := (r.before_adds (addsAt_into (addsAt_operands E))).1
  have hcomputes := r.computes_into (input_operands hs hP) hl hspec
  rw [hinput]
  rwa [hinput] at hcomputes

end Honest

section Accepted

variable {t : Table Native}

theorem scalarMul_holdsMultiple (r : (scalarMul E).Recorded)
    (h : ∀ i ∈ r.chip.instructions.toList, i.Holds (t.store l) r.chip.numCells) :
    ∃ s P, t.number? l r.input.1 = some s ∧ t.point? l r.input.2 = some P ∧
      ((P.reduce E.base.modulus).onCurve E = true →
        t.HoldsMultiple l E s (P.reduce E.base.modulus) r.output) := by
  obtain ⟨w, hw, hstore, hbound, hrules, hpost⟩ := r.exists_accepted (addsAt_operands E) h
  obtain ⟨s, P, hs, hP⟩ := exists_operands hbound hrules
  rw [(r.before_adds (addsAt_operands E)).1]
  refine ⟨s, P, hs.number? hstore, hP.point? hstore, ?_⟩
  intro hcurve
  obtain ⟨A, hA⟩ := CurveParams.exists_of_eq_ofPoint hcurve
  have hmultiple := hpost _ (Scenario.scalarMul_of_numbers hs hP hA fun hw' => absurd hw' hw)
  exact Scenario.Numbers.holdsMultiple hA hmultiple hstore

theorem scalarMul_holdsMultiple_into (r : (scalarMul E).into.Recorded)
    (h : ∀ i ∈ r.chip.instructions.toList, i.Holds (t.store l) r.chip.numCells) :
    ∃ s P, t.number? l r.input.1.1 = some s ∧ t.point? l r.input.1.2 = some P ∧
      ((P.reduce E.base.modulus).onCurve E = true →
        t.HoldsMultiple l E s (P.reduce E.base.modulus) r.input.2) := by
  obtain ⟨w, hw, hstore, hbound, hrules, hpost⟩ := r.exists_accepted_into (addsAt_operands E) h
  obtain ⟨s, P, hs, hP⟩ := exists_operands hbound hrules
  have hinput := (r.before_adds (addsAt_into (addsAt_operands E))).1
  refine ⟨s, P, ?_, ?_, ?_⟩
  · rw [hinput]
    exact hs.number? hstore
  · rw [hinput]
    exact hP.point? hstore
  · intro hcurve
    obtain ⟨A, hA⟩ := CurveParams.exists_of_eq_ofPoint hcurve
    have hmultiple := hpost _ _
      (Scenario.scalarMul_of_numbers hs hP hA fun hw' => absurd hw' hw)
    exact Scenario.Numbers.holdsMultiple hA hmultiple hstore

end Accepted

/--
In every accepted table the scalar is canonical, the point is finite, and the result is the canonical
multiple, if the point is on the curve. Nothing else is assumed of how the table was filled.
-/
theorem scalarMul_sound (E : CurveParams) [hE : E.PrimeOrder] :
    (∃ r : (scalarMul E).Recorded, ∀ l : Layout, r.chip.manifest.required ≤ l.width →
      r.chip.Guarantees l fun t => ∃ s P,
        t.number? l r.input.1 = some s ∧ t.point? l r.input.2 = some P ∧
          ((P.reduce E.base.modulus).onCurve E = true →
            t.HoldsMultiple l E s (P.reduce E.base.modulus) r.output)) ∧
    ∃ r : (setScalarMul E).Recorded, ∀ l : Layout, r.chip.manifest.required ≤ l.width →
      r.chip.Guarantees l fun t => ∃ s P,
        t.number? l r.input.1.1 = some s ∧ t.point? l r.input.1.2 = some P ∧
          ((P.reduce E.base.modulus).onCurve E = true →
            t.HoldsMultiple l E s (P.reduce E.base.modulus) r.input.2) := by
  obtain ⟨P, hP, hcurve, hne⟩ := CurveParams.exists_finite_point E
  have hzero : 0 < E.groupOrder := hE.order_prime.pos
  constructor
  · obtain ⟨r⟩ := exists_recorded (addsAt_operands E)
    refine ⟨r, fun l hl => ?_⟩
    obtain ⟨R, -, hcomputes⟩ := scalarMul_computes hzero hP hcurve hne r hl
    apply hcomputes.guarantees hl
    exact fun t => scalarMul_holdsMultiple r
  · rw [setScalarMul_eq_into]
    obtain ⟨r⟩ := exists_recorded (addsAt_into (addsAt_operands E))
    refine ⟨r, fun l hl => ?_⟩
    obtain ⟨R, -, hcomputes⟩ := scalarMul_computes_into hzero hP hcurve hne r hl
    apply hcomputes.guarantees hl
    exact fun t => scalarMul_holdsMultiple_into r

theorem scalarMul_sound_tinyCurve :
    CurveParams.tinyCurve.PrimeOrder ∧
      ∃ r : (scalarMul .tinyCurve).Recorded, ∀ l : Layout, r.chip.manifest.required ≤ l.width →
        r.chip.Guarantees l fun t => t.number? l r.input.1 = some 9 →
          t.point? l r.input.2 = some ⟨1, 2⟩ → t.HoldsPoint l r.output ⟨4, 2⟩ := by
  -- the scalar is in the upper half, so the point is negated, and the folded scalar is even
  obtain ⟨⟨r, hr⟩, -⟩ := scalarMul_sound .tinyCurve
  refine ⟨inferInstance, r, fun l hl => (hr l hl).weaken ?_⟩
  rintro t ⟨s, P, hs, hP, hmultiple⟩ hs' hP'
  obtain rfl : s = 9 := Option.some.inj (hs.symm.trans hs')
  obtain rfl : P = ⟨1, 2⟩ := Option.some.inj (hP.symm.trans hP')
  obtain ⟨R, hR, hholds, -⟩ := (hmultiple (by decide)).result
  obtain rfl : ⟨4, 2⟩ = R := Except.ok.inj hR
  exact hholds

/--
For every canonical scalar and every finite point of the curve the witness pass goes through, its table
is accepted, and the result is the multiple of the reference arithmetic.
-/
theorem scalarMul_complete (E : CurveParams) [E.PrimeOrder] :
    ∃ r : (scalarMul E).Recorded, ∀ l : Layout, r.chip.manifest.required ≤ l.width →
      ∀ (s : Nat) (P : Point), s < E.groupOrder → P.Reduced E.base.modulus → P.onCurve E = true →
        P ≠ .identity → ∃ R, Point.mul E P s = .ok R ∧
          r.chip.Computes l (.writeOperands r.input s P) (fun t => t.readPoint r.output = .ok R) := by
  obtain ⟨r⟩ := exists_recorded (addsAt_operands E)
  exact ⟨r, fun l hl s P hs hP hcurve hne => scalarMul_computes hs hP hcurve hne r hl⟩

theorem scalarMul_complete_tinyCurve :
    CurveParams.tinyCurve.PrimeOrder ∧
      ∃ r : (scalarMul .tinyCurve).Recorded, ∀ l : Layout, r.chip.manifest.required ≤ l.width →
        r.chip.Computes l (.writeOperands r.input 9 ⟨1, 2⟩)
          (fun t => t.readPoint r.output = .ok ⟨4, 2⟩) := by
  obtain ⟨r, hr⟩ := scalarMul_complete .tinyCurve
  refine ⟨inferInstance, r, fun l hl => ?_⟩
  obtain ⟨R, hR, hcomputes⟩ := hr l hl 9 ⟨1, 2⟩ (by decide) ⟨by decide, by decide⟩ (by decide)
    (by decide)
  obtain rfl : ⟨4, 2⟩ = R := Except.ok.inj hR
  exact hcomputes

end Component

end ForeignCurve
