import ForeignCurve.Proofs.Curve.Reflection
import ForeignCurve.Proofs.Gadget.CompleteSum
import ForeignCurve.Proofs.Gadget.Scalar
import ForeignCurve.Proofs.Reading

/-!
Two witness passes over one schedule, from different inputs. Registers that hold reflected points lead to
such registers again. The divisions that are made on the way are by zero in both passes or in none, and
nothing else can stop a pass.
-/

namespace ForeignCurve

-- the instance for the rest of a gadget is as large as the gadget is long
set_option synthInstance.maxSize 1000000

variable {α β : Type}

/--
Two witness passes fail with the same fault at the same instruction, or they both come to the end, with
traces in a given relation.
-/
inductive Chip.Parallel (Q : Trace → Trace → Prop) :
    EStateM.Result Failure Trace Unit → EStateM.Result Failure Trace Unit → Prop where
  | stopped (index : Nat) (cause : Fault) (t t' : Trace) :
    Parallel Q (.error (.fault (.atInstruction index cause)) t)
      (.error (.fault (.atInstruction index cause)) t')
  | completed {t t' : Trace} (h : Q t t') : Parallel Q (.ok () t) (.ok () t')

theorem Chip.Parallel.exists_completed {Q : Trace → Trace → Prop} {t : Trace}
    {x y : EStateM.Result Failure Trace Unit} (h : Chip.Parallel Q x y) (hx : x = .ok () t) :
    ∃ t', y = .ok () t' ∧ Q t t' := by
  cases h with
  | stopped => contradiction
  | completed h =>
    cases hx
    exact ⟨_, rfl, h⟩

structure Twins where
  left : Pass
  right : Pass
  schedule_eq : right.schedule = left.schedule
  given : List Instruction
  reserved : Nat → Prop

namespace Twins

def first (T : Twins) : Scenario :=
  .computed T.left T.given T.reserved

def second (T : Twins) : Scenario :=
  .computed T.right T.given T.reserved

structure Both (T : Twins) (Q : Scenario → Prop) : Prop where
  first : Q T.first
  second : Q T.second

def Halt (T : Twins) : Prop :=
  T.right.written = T.left.written ∧ ∃ i, i ∈ T.left.unwritten.head? ∧ i ∈ T.right.unwritten.head? ∧
    i.plan T.left.stop = .error (.fault .divisionByZero) ∧
    i.plan T.right.stop = .error (.fault .divisionByZero)

def Step (T : Twins) (g : Record α) (Q : α → Prop) : Prop :=
  ∀ ⦃b a b'⦄, g.run b = .ok (a, b') → T.Both (·.Covers b') → T.Both (·.Reaches b) →
    T.Halt ∨ T.Both (·.Reaches b') ∧ Q a

variable {T : Twins}

section Rules

variable {g : Record α} {Q R : α → Prop}

theorem Step.pure {a : α} (h : Q a) : T.Step (pure a) Q := by
  intro b a' b' hrun _ hb
  cases hrun
  exact .inr ⟨hb, h⟩

theorem Step.bind {f : α → Record β} {S : β → Prop} [hgrows : ∀ a, Grows (f a)] (hg : T.Step g Q)
    (hf : ∀ a, Q a → T.Step (f a) S) : T.Step (g >>= f) S := by
  intro b c b'' hrun hcovers hb
  obtain ⟨a, b', hrun₁, hrun₂⟩ := Record.run_bind_eq_ok_iff.mp hrun
  have hextends := (hgrows a).grows hrun₂
  obtain hhalt | ⟨hb', ha⟩ :=
    hg hrun₁ ⟨hcovers.first.of_extends hextends, hcovers.second.of_extends hextends⟩ hb
  · exact .inl hhalt
  · exact hf a ha hrun₂ hcovers hb'

theorem Step.weaken (hg : T.Step g Q) (h : ∀ a, Q a → R a) : T.Step g R := by
  intro b a b' hrun hcovers hb
  exact (hg hrun hcovers hb).imp_right fun ⟨hb', ha⟩ => ⟨hb', h a ha⟩

theorem Step.of_triples (h : T.first.Triple g Q) (h' : T.second.Triple g R) :
    T.Step g (fun a => Q a ∧ R a) := by
  intro b a b' hrun hcovers hb
  obtain ⟨hb₁, ha⟩ := h hrun hcovers.first hb.first
  obtain ⟨hb₂, ha'⟩ := h' hrun hcovers.second hb.second
  exact .inr ⟨⟨hb₁, hb₂⟩, ha, ha'⟩

end Rules

section Outcomes

variable {c : Chip} {Q : Trace → Trace → Prop}

structure Complete (T : Twins) : Prop where
  left : Steps T.left.start T.left.schedule T.left.stop
  right : Steps T.right.start T.left.schedule T.right.stop

theorem complete_of_reaches {b : Builder} (h : T.Both (·.Reaches b))
    (hb : b.instructions.toList = T.left.schedule) : T.Complete := by
  obtain ⟨⟨t, ht⟩, t', ht'⟩ := h
  have hsteps := ht.steps
  have hsteps' := ht'.steps
  rw [hb] at hsteps hsteps'
  rw [← T.schedule_eq] at hsteps'
  refine ⟨?_, ?_⟩
  · rwa [Pass.stop_eq hsteps]
  · rwa [← T.schedule_eq, Pass.stop_eq hsteps']

theorem Complete.parallel (h : T.Complete) (hc : T.left.schedule = c.instructions.toList)
    (hQ : Q T.left.stop T.right.stop) :
    Chip.Parallel Q (c.writeWitness T.left.start) (c.writeWitness T.right.start) := by
  obtain ⟨hleft, hright⟩ := h
  rw [hc] at hleft hright
  rw [Chip.writeWitness_eq_ok_iff.mpr hleft, Chip.writeWitness_eq_ok_iff.mpr hright]
  exact .completed hQ

theorem Halt.parallel (h : T.Halt) (hc : T.left.schedule = c.instructions.toList) :
    Chip.Parallel Q (c.writeWitness T.left.start) (c.writeWitness T.right.start) := by
  obtain ⟨hwritten, i, hi, hi', hplan, hplan'⟩ := h
  rw [Chip.writeWitness_eq_error hc hi (Instruction.write_eq_error hplan),
    Chip.writeWitness_eq_error (T.schedule_eq.trans hc) hi' (Instruction.write_eq_error hplan'), hwritten]
  exact .stopped _ _ _ _

end Outcomes

section Field

variable {P : FieldParams} [P.HasHeadroom] [Fact P.modulus.Prime] {a b : FieldRegister P}
  {x x' y y' : ZMod P.modulus}

def Residue (T : Twins) (r : FieldRegister P) (x x' : ZMod P.modulus) : Prop :=
  T.first.Residue r x ∧ T.second.Residue r x'

theorem add (ha : T.Residue a x x') (hb : T.Residue b y y') :
    T.Step (Gadget.add a b) (fun r => T.Residue r (x + y) (x' + y')) :=
  .of_triples (Scenario.add_spec ha.1 hb.1) (Scenario.add_spec ha.2 hb.2)

theorem sub (ha : T.Residue a x x') (hb : T.Residue b y y') :
    T.Step (Gadget.sub a b) (fun r => T.Residue r (x - y) (x' - y')) :=
  .of_triples (Scenario.sub_spec ha.1 hb.1) (Scenario.sub_spec ha.2 hb.2)

theorem mul (ha : T.Residue a x x') (hb : T.Residue b y y') :
    T.Step (Gadget.mul a b) (fun r => T.Residue r (x * y) (x' * y')) :=
  .of_triples (Scenario.mul_spec ha.1 hb.1) (Scenario.mul_spec ha.2 hb.2)

theorem inverseHint_zero (ha : T.Residue a 0 0) :
    T.Step (Gadget.inverseHint a false) (fun _ => False) := by
  intro b r b' hrun hcovers hb
  obtain ⟨rfl, hadds⟩ := (Scenario.addsAt_inverseHint a false b.numCells).of_run hrun
  obtain ⟨⟨N, hN, hzero, -⟩, N', hN', hzero', -⟩ := ha
  obtain ⟨⟨t, ht⟩, t', ht'⟩ := hb
  have hrules := Record.passive_ruleInstruction? (.range P.limbBits) ⟨b.numCells, P.limbs⟩
  let i : Instruction := .inverse P a ⟨b.numCells⟩ false
  have hplan : i.plan T.left.stop = .error (.fault .divisionByZero) :=
    Instruction.inversePlan_eq_error (hN.readField rfl rfl) hzero
  have hplan' : i.plan T.right.stop = .error (.fault .divisionByZero) :=
    Instruction.inversePlan_eq_error (hN'.readField rfl rfl) hzero'
  obtain ⟨hwritten, hi⟩ := ht.written_eq hadds hcovers.first.instructions hrules hplan
  obtain ⟨hwritten', hi'⟩ := ht'.written_eq hadds hcovers.second.instructions hrules hplan'
  exact .inl ⟨hwritten'.trans hwritten.symm, _, hi, hi', hplan, hplan'⟩

theorem div (ha : T.Residue a x x') (hb : T.Residue b y y') (h : y = 0 ↔ y' = 0) :
    T.Step (Gadget.div a b) (fun r => T.Residue r (x / y) (x' / y')) := by
  by_cases hy : y = 0
  · rw [hy, h.mp hy] at hb
    exact Step.bind (inverseHint_zero hb) fun _ hfalse => hfalse.elim
  · apply Step.weaken (.of_triples (Scenario.div_spec ha.1 hb.1 fun _ => hy)
      (Scenario.div_spec ha.2 hb.2 fun _ => mt h.mpr hy))
    exact fun r hr => ⟨hr.1.2, hr.2.2⟩

end Field

section Point

open Coordinates

variable {P : FieldParams} [P.HasHeadroom] [Fact P.modulus.Prime] {p q : PointRegister P}
  {ε : ZMod P.modulus}

def Reflects (T : Twins) (ε : ZMod P.modulus) (r : PointRegister P) : Prop :=
  ∃ X : Coordinates (ZMod P.modulus), T.first.At r X ∧ T.second.At r (X.reflect ε)

omit [P.HasHeadroom] in
theorem Reflects.of_at {r : PointRegister P} {X X' : Coordinates (ZMod P.modulus)}
    (h : T.first.At r X ∧ T.second.At r X') (hX : X' = X.reflect ε) : T.Reflects ε r :=
  ⟨X, h.1, hX ▸ h.2⟩

section Any

variable {X Y X' Y' : Coordinates (ZMod P.modulus)}

theorem chordSlope (hX : T.first.At p X ∧ T.second.At p X') (hY : T.first.At q Y ∧ T.second.At q Y')
    (h : Y.x - X.x = 0 ↔ Y'.x - X'.x = 0) :
    T.Step (Gadget.chordSlope p q) (fun r => T.Residue r (X.chordSlope Y) (X'.chordSlope Y')) := by
  refine Step.bind (sub ⟨hY.1.y, hY.2.y⟩ ⟨hX.1.y, hX.2.y⟩) fun numerator hnumerator => ?_
  refine Step.bind (sub ⟨hY.1.x, hY.2.x⟩ ⟨hX.1.x, hX.2.x⟩) fun denominator hdenominator => ?_
  exact div hnumerator hdenominator h

theorem tangentSlope {a : FieldRegister P} {α : ZMod P.modulus}
    (hX : T.first.At p X ∧ T.second.At p X') (ha : T.Residue a α α) (h : 2 * X.y = 0 ↔ 2 * X'.y = 0) :
    T.Step (Gadget.tangentSlope p a)
      (fun r => T.Residue r (X.tangentSlope α) (X'.tangentSlope α)) := by
  refine Step.bind (.of_triples (Scenario.tangentNumerator_spec hX.1.x ha.1)
    (Scenario.tangentNumerator_spec hX.2.x ha.2)) fun numerator hnumerator => ?_
  refine Step.bind (add ⟨hX.1.y, hX.2.y⟩ ⟨hX.1.y, hX.2.y⟩) fun denominator hdenominator => ?_
  rw [← two_mul, ← two_mul] at hdenominator
  exact div hnumerator hdenominator h

theorem addWithSlope {slope : FieldRegister P} {s s' : ZMod P.modulus}
    (hX : T.first.At p X ∧ T.second.At p X') (hY : T.first.At q Y ∧ T.second.At q Y')
    (hs : T.Residue slope s s') :
    T.Step (Gadget.addWithSlope p q slope)
      (fun r => T.first.At r (X.chord Y.x s) ∧ T.second.At r (X'.chord Y'.x s')) :=
  .of_triples (Scenario.addWithSlope_spec hX.1 hY.1 hs.1) (Scenario.addWithSlope_spec hX.2 hY.2 hs.2)

theorem doubleAndAdd_of_iff (hX : T.first.At p X ∧ T.second.At p X')
    (hY : T.first.At q Y ∧ T.second.At q Y') (h : Y.x - X.x = 0 ↔ Y'.x - X'.x = 0)
    (h' : (X.chord Y.x (X.chordSlope Y)).x - X.x = 0 ↔
      (X'.chord Y'.x (X'.chordSlope Y')).x - X'.x = 0) :
    T.Step (Gadget.doubleAndAdd p q)
      (fun r => T.first.At r (X.doubleAndAdd Y) ∧ T.second.At r (X'.doubleAndAdd Y')) := by
  have hXx : T.Residue p.x X.x X'.x := ⟨hX.1.x, hX.2.x⟩
  have hXy : T.Residue p.y X.y X'.y := ⟨hX.1.y, hX.2.y⟩
  refine Step.bind (chordSlope hX hY h) fun slope hslope => ?_
  refine Step.bind (mul hslope hslope) fun square hsquare => ?_
  refine Step.bind (sub hsquare hXx) fun x hx => ?_
  refine Step.bind (sub hx ⟨hY.1.x, hY.2.x⟩) fun x hx => ?_
  refine Step.bind (add hXy hXy) fun twice htwice => ?_
  refine Step.bind (sub hx hXx) fun dx hdx => ?_
  refine Step.bind (div htwice hdx h') fun ratio hratio => ?_
  refine Step.bind (add hslope hratio) fun slope hslope => ?_
  refine Step.bind (mul hslope hslope) fun square hsquare => ?_
  refine Step.bind (sub hsquare hXx) fun xr hxr => ?_
  refine Step.bind (sub hxr hx) fun xr hxr => ?_
  refine Step.bind (sub hxr hXx) fun dx hdx => ?_
  refine Step.bind (mul hslope hdx) fun yr hyr => ?_
  refine Step.bind (sub hyr hXy) fun yr hyr => ?_
  exact Step.pure ⟨⟨hxr.1, hyr.1⟩, ⟨hxr.2, hyr.2⟩⟩

end Any

section Reflected

variable (hε : ε * ε = 1) (hp : T.Reflects ε p)

include hp

theorem negPoint : T.Step (Gadget.negPoint p) (T.Reflects ε) := by
  obtain ⟨X, hX⟩ := hp
  apply Step.weaken (.of_triples (Scenario.negPoint_spec hX.1) (Scenario.negPoint_spec hX.2))
  exact fun r hr => .of_at hr (neg_reflect ε X)

theorem selectPoint {bit : Register .bit} {β : Bool} (hq : T.Reflects ε q)
    (hβ : T.Both (·.Bit bit β)) : T.Step (Gadget.selectPoint bit p q) (T.Reflects ε) := by
  obtain ⟨X, hX⟩ := hp
  obtain ⟨Y, hY⟩ := hq
  apply Step.weaken (.of_triples (Scenario.selectPoint_spec hβ.first hX.1 hY.1)
    (Scenario.selectPoint_spec hβ.second hX.2 hY.2))
  exact fun r hr => .of_at hr (apply_ite (reflect ε) _ X Y).symm

include hε

theorem chordAdd (hq : T.Reflects ε q) : T.Step (Gadget.chordAdd p q) (T.Reflects ε) := by
  obtain ⟨X, hX⟩ := hp
  obtain ⟨Y, hY⟩ := hq
  refine Step.bind (chordSlope hX hY Iff.rfl) fun slope hslope => ?_
  apply Step.weaken (addWithSlope hX hY hslope)
  intro r hr
  apply Reflects.of_at hr
  rw [chordSlope_reflect, chord_reflect hε]
  rfl

theorem double {a : FieldRegister P} {α : ZMod P.modulus} (ha : T.Residue a α α) :
    T.Step (Gadget.double p a) (T.Reflects ε) := by
  obtain ⟨X, hX⟩ := hp
  refine Step.bind (tangentSlope hX ha (two_mul_reflect_y_eq_zero_iff hε).symm) fun slope hslope => ?_
  apply Step.weaken (addWithSlope hX hX hslope)
  intro r hr
  apply Reflects.of_at hr
  rw [tangentSlope_reflect hε, chord_reflect hε]
  rfl

theorem doubleAndAdd (hq : T.Reflects ε q) : T.Step (Gadget.doubleAndAdd p q) (T.Reflects ε) := by
  obtain ⟨X, hX⟩ := hp
  obtain ⟨Y, hY⟩ := hq
  apply Step.weaken (doubleAndAdd_of_iff hX hY Iff.rfl ?_)
  · exact fun r hr => .of_at hr (doubleAndAdd_reflect hε)
  · rw [chordSlope_reflect, chord_reflect hε]
    exact Iff.rfl

end Reflected

end Point

section Curve

open Coordinates

variable {E : CurveParams} [E.base.HasHeadroom] [Fact E.base.modulus.Prime] {p q : PointRegister E.base}
  {ε : ZMod E.base.modulus}

theorem addPoint (htwo : E.base.modulus ≠ 2) (hε : ε * ε = 1) (hp : T.Reflects ε p)
    (hq : T.Reflects ε q) : T.Step (Gadget.addPoint E p q) (T.Reflects ε) := by
  obtain ⟨X, hX⟩ := hp
  obtain ⟨Y, hY⟩ := hq
  refine Step.bind (.of_triples (Scenario.completeSum_blends htwo hX.1 hY.1)
    (Scenario.completeSum_blends htwo hX.2 hY.2)) ?_
  rintro sum ⟨⟨s, hs⟩, s', hs'⟩
  -- the hints are the slopes of the lines, so one is the reflection of the other
  have hslope : s' = ε * s := by
    rw [hs.honest trivial, hs'.honest trivial, slope_reflect hε]
  apply Step.pure
  have hresult {w : Scenario} {Z W : Coordinates (ZMod E.base.modulus)} {s : ZMod E.base.modulus}
      (h : w.Blends E Z W s sum) : w.At sum.result (Z.sumWithSlope W s) :=
    ⟨⟨_, h.x, ZMod.natCast_zmod_val _, fun _ => ZMod.val_lt _⟩,
      ⟨_, h.y, ZMod.natCast_zmod_val _, fun _ => ZMod.val_lt _⟩⟩
  apply Reflects.of_at ⟨hresult hs, hresult hs'⟩
  rw [hslope, sumWithSlope_reflect hε]

section ScalarMul

variable {rs : List (Register .bit)} {count c : Nat}

omit [E.base.HasHeadroom] [Fact E.base.modulus.Prime] in
theorem bitAt {i : Nat} (h : T.Both (·.Digits rs count c)) (hi : i < count) :
    T.Step (Gadget.bitAt rs.toArray i) (fun r => T.Both (·.Bit r (c.testBit i))) := by
  apply Step.weaken (.of_triples (Scenario.bitAt_spec h.first hi) (Scenario.bitAt_spec h.second hi))
  exact fun r hr => ⟨hr.1, hr.2⟩

structure ReflectsMultiples (T : Twins) (ε : ZMod E.base.modulus) (m : Gadget.OddMultiples E.base) :
    Prop where
  p1 : T.Reflects ε m.p1
  p3 : T.Reflects ε m.p3
  neg1 : T.Reflects ε m.neg1
  neg3 : T.Reflects ε m.neg3

variable {a : FieldRegister E.base} {α : ZMod E.base.modulus} (hε : ε * ε = 1) (ha : T.Residue a α α)

include hε ha

theorem oddMultiples (hp : T.Reflects ε p) :
    T.Step (Gadget.oddMultiples a p) (T.ReflectsMultiples ε) := by
  refine Step.bind (double hε hp ha) fun p2 hp2 => ?_
  refine Step.bind (chordAdd hε hp2 hp) fun p3 hp3 => ?_
  refine Step.bind (negPoint hp) fun neg1 hneg1 => ?_
  refine Step.bind (negPoint hp3) fun neg3 hneg3 => ?_
  exact Step.pure ⟨hp, hp3, hneg1, hneg3⟩

theorem digitSteps {m : Gadget.OddMultiples E.base} (hm : T.ReflectsMultiples ε m)
    (hdigits : T.Both (·.Digits rs count c)) (i : Nat) (hcount : 2 * i < count)
    {acc : PointRegister E.base} (hacc : T.Reflects ε acc) :
    T.Step (Gadget.digitSteps a rs.toArray m i acc) (T.Reflects ε) := by
  -- the accumulators of the two passes are reflections of each other before every digit
  induction i generalizing acc with
  | zero => exact Step.pure hacc
  | succ i ih =>
    refine Step.bind (bitAt hdigits (by omega)) fun low hlow => ?_
    refine Step.bind (selectPoint hm.p3 hm.p1 hlow) fun positive hpositive => ?_
    refine Step.bind (bitAt hdigits (by omega)) fun low hlow => ?_
    refine Step.bind (selectPoint hm.neg1 hm.neg3 hlow) fun negative hnegative => ?_
    refine Step.bind (bitAt hdigits (by omega)) fun high hhigh => ?_
    refine Step.bind (selectPoint hpositive hnegative hhigh) fun digit hdigit => ?_
    refine Step.bind (double hε hacc ha) fun twice htwice => ?_
    refine Step.bind (doubleAndAdd hε htwice hdigit) fun acc hacc => ?_
    exact ih (by omega) hacc

end ScalarMul

section Fold

variable [E.scalar.HasHeadroom] {scalar : FieldRegister E.scalar} {s : Nat}
  {X : Coordinates (ZMod E.base.modulus)}

structure FoldsAlike (T : Twins) (ε : ZMod E.base.modulus) (s : Nat) (f : Gadget.Folding E) : Prop where
  scalar : T.Both (·.Number f.scalar (E.foldedScalar s))
  bits : T.Both (·.Digits f.bits E.scalar.bits (E.foldedScalar s))
  a : T.Residue f.a E.a E.a
  point : T.Reflects ε f.point

omit [E.base.HasHeadroom] [E.scalar.HasHeadroom] in
theorem FoldsAlike.store_eq {f : Gadget.Folding E} (h : T.FoldsAlike 1 s f) {c : CellSlice} (hc : c ∈ f.runs)
    {j : Nat} (hj : j ∈ c.indices) : T.second.store j = T.first.store j := by
  have hresidue {r : FieldRegister E.base} {x : ZMod E.base.modulus} (hr : T.Residue r x x)
      (hj : j ∈ r.slice.indices) : T.second.store j = T.first.store j :=
    (hr.1.number trivial).reads.store_eq (hr.2.number trivial).reads hj
  obtain ⟨X, hX, hX'⟩ := h.point
  rw [Coordinates.reflect_one] at hX'
  simp only [Gadget.Folding.runs, List.mem_append, List.mem_cons, List.not_mem_nil, or_false,
    List.mem_map] at hc
  obtain (rfl | rfl | rfl | rfl) | ⟨bit, hbit, rfl⟩ := hc
  · exact h.scalar.first.reads.store_eq h.scalar.second.reads hj
  · exact hresidue h.a hj
  · exact hresidue ⟨hX.x, hX'.x⟩ hj
  · exact hresidue ⟨hX.y, hX'.y⟩ hj
  · obtain ⟨i, hi, rfl⟩ := List.getElem_of_mem hbit
    exact (h.bits.first.bit i hi).store_eq (h.bits.second.bit i hi) hj

theorem fold (hodd : E.groupOrder % 2 = 1) (hpos : 1 ≤ s) (hlt : s < E.groupOrder)
    (hs : T.first.Number scalar s) (hs' : T.second.Number scalar (E.groupOrder - s))
    (hX : T.first.At p X) (hX' : T.second.At p (X.reflect (-ε))) :
    T.Step (Gadget.fold E scalar p) (T.FoldsAlike ε s) := by
  have hfolded : E.foldedScalar (E.groupOrder - s) = E.foldedScalar s := by
    unfold CurveParams.foldedScalar
    split_ifs
    all_goals omega
  have hsign : decide ((E.groupOrder - 1) / 2 < E.groupOrder - s) = !decide ((E.groupOrder - 1) / 2 < s) := by
    rw [← decide_not, decide_eq_decide]
    omega
  apply Step.weaken (.of_triples (Scenario.fold_spec hodd hs hX fun _ => hlt)
    (Scenario.fold_spec hodd hs' hX' fun _ => by omega))
  rintro f ⟨hf, hf'⟩
  have hscalar := hf'.scalar
  have hbits := hf'.bits
  have hpoint := hf'.point
  rw [hfolded] at hscalar hbits
  rw [hsign] at hpoint
  refine ⟨⟨hf.scalar, hscalar⟩, ⟨hf.bits, hbits⟩, ⟨hf.a, hf'.a⟩, .of_at ⟨hf.point, hpoint⟩ ?_⟩
  cases decide ((E.groupOrder - 1) / 2 < s) with
  | true => exact Coordinates.ext rfl (neg_mul_comm ε X.y)
  | false => exact Coordinates.ext rfl (by change -(-ε * X.y) = ε * X.y; rw [neg_mul, neg_neg])

end Fold

theorem multiplyFolded [E.scalar.HasHeadroom] (htwo : E.base.modulus ≠ 2) (hε : ε * ε = 1)
    {f : Gadget.Folding E} {s : Nat} (hf : T.FoldsAlike ε s f) {digits : Nat} (hpos : 0 < digits)
    (hcount : 2 * digits ≤ E.scalar.bits) :
    T.Step (Gadget.multiplyFolded E digits f) (fun r => ∃ X : Coordinates (ZMod E.base.modulus),
      T.first.Numbers r X.toPoint ∧ T.second.Numbers r (X.reflect ε).toPoint) := by
  refine Step.bind (oddMultiples hε hf.a hf.point) fun multiples hmultiples => ?_
  refine Step.bind (bitAt hf.bits (by omega)) fun top htop => ?_
  refine Step.bind (selectPoint hmultiples.p3 hmultiples.p1 htop) fun acc hacc => ?_
  refine Step.bind (digitSteps hε hf.a hmultiples hf.bits _ (by omega) hacc) fun acc hacc => ?_
  refine Step.bind (addPoint htwo hε hacc hmultiples.neg1) fun even heven => ?_
  refine Step.bind (bitAt hf.bits (by omega)) fun low hlow => ?_
  refine Step.bind (selectPoint hacc heven hlow) fun result hresult => ?_
  obtain ⟨X, hX, hX'⟩ := hresult
  refine Step.bind (.of_triples (Scenario.assertCanonical_spec hX.x)
    (Scenario.assertCanonical_spec hX'.x)) fun _ hx => ?_
  refine Step.bind (.of_triples (Scenario.assertCanonical_spec hX.y)
    (Scenario.assertCanonical_spec hX'.y)) fun _ hy => ?_
  exact Step.pure ⟨X, ⟨hx.1, hy.1⟩, ⟨hx.2, hy.2⟩⟩

end Curve

end Twins

end ForeignCurve
