import ForeignCurve.Proofs.Gadget.Fold

/-!
Logics of recordings. What is kept by sequencing, and holds of the gadgets that write the cells that
they allocate, holds of all gadgets: the others are sequences of these. It is shown once here, for any
relation between two recordings.
-/

namespace ForeignCurve

-- the instance for the rest of a gadget is as large as the gadget is long
set_option synthInstance.maxSize 1000000

/-- A relation between recordings on registers that stand for each other, kept by sequencing. -/
structure StepLogic where
  Run : CellSlice → CellSlice → Prop
  Admits : FieldParams → Prop
  Step : {α : Type} → Record α → Record α → (α → α → Prop) → Prop
  part : ∀ {s s' : CellSlice} {first len : Nat}, Run s s' → 0 < len → first + len ≤ s.len →
    Run ⟨s.start + first, len⟩ ⟨s'.start + first, len⟩
  pure : ∀ {α : Type} {a a' : α} {R : α → α → Prop}, R a a' → Step (pure a) (pure a') R
  bind : ∀ {α β : Type} {g g' : Record α} {f f' : α → Record β} {R : α → α → Prop}
    {S : β → β → Prop} [∀ a, Grows (f a)], Step g g' R →
    (∀ a a', R a a' → Step (f a) (f' a') S) → Step (g >>= f) (g' >>= f') S
  lift : ∀ {α : Type} (x : Except Abort α), Step (liftM x) (liftM x) (· = ·)
  throw : ∀ {α : Type} (e : Abort) (R : α → α → Prop), Step (throw e) (throw e) R

structure RecordLogic extends StepLogic where
  constant : ∀ {P : FieldParams} (value : Nat), Admits P → Step (Gadget.constant P value)
    (Gadget.constant P value) (fun r r' => Run r.slice r'.slice)
  assertEqualConstant : ∀ {P : FieldParams} {a a' : FieldRegister P} (value : Nat), Admits P →
    Run a.slice a'.slice → Step (Gadget.assertEqualConstant a value)
      (Gadget.assertEqualConstant a' value) (fun _ _ => True)
  add : ∀ {P : FieldParams} {a a' b b' : FieldRegister P}, Admits P → Run a.slice a'.slice →
    Run b.slice b'.slice → Step (Gadget.add a b) (Gadget.add a' b') (fun r r' => Run r.slice r'.slice)
  sub : ∀ {P : FieldParams} {a a' b b' : FieldRegister P}, Admits P → Run a.slice a'.slice →
    Run b.slice b'.slice → Step (Gadget.sub a b) (Gadget.sub a' b') (fun r r' => Run r.slice r'.slice)
  mul : ∀ {P : FieldParams} {a a' b b' : FieldRegister P}, Admits P → Run a.slice a'.slice →
    Run b.slice b'.slice → Step (Gadget.mul a b) (Gadget.mul a' b') (fun r r' => Run r.slice r'.slice)
  inverseHint : ∀ {P : FieldParams} {a a' : FieldRegister P} (allowZero : Bool), Admits P →
    Run a.slice a'.slice → Step (Gadget.inverseHint a allowZero) (Gadget.inverseHint a' allowZero)
      (fun r r' => Run r.slice r'.slice)
  assertCanonical : ∀ {P : FieldParams} {a a' : FieldRegister P}, Admits P → Run a.slice a'.slice →
    Step (Gadget.assertCanonical a) (Gadget.assertCanonical a') (fun _ _ => True)
  select : ∀ {k : Kind} {bit bit' : Register .bit} {a a' b b' : Register k},
    Run bit.slice bit'.slice → Run a.slice a'.slice → Run b.slice b'.slice →
    Step (Gadget.select bit a b) (Gadget.select bit' a' b') (fun r r' => Run r.slice r'.slice)
  decompose : ∀ {value value' : Register .element} (count : Nat), Run value.slice value'.slice →
    Step (Gadget.decompose value count) (Gadget.decompose value' count) fun bits bits' =>
      List.Forall₂ (fun r r' : Register .bit => Run r.slice r'.slice) bits.toList bits'.toList
  greaterThan : ∀ {s s' : CellSlice} (bound limbBits : Nat), Run s s' →
    Step (Gadget.greaterThan s bound limbBits) (Gadget.greaterThan s' bound limbBits)
      (fun r r' => Run r.slice r'.slice)
  slack : ∀ {P : FieldParams} {a a' : FieldRegister P} (total : Nat), Admits P → Run a.slice a'.slice →
    Step (do
        let r ← Record.alloc (.field P)
        let _ ← Gadget.limbSum a.slice (.cells r.slice)
          (.const (Limbs.encode P.limbBits P.limbs total)) P.limbBits
        return r)
      (do
        let r ← Record.alloc (.field P)
        let _ ← Gadget.limbSum a'.slice (.cells r.slice)
          (.const (Limbs.encode P.limbBits P.limbs total)) P.limbBits
        return r)
      (fun r r' => Run r.slice r'.slice)
  slope : ∀ {E : CurveParams} {p p' q q' : PointRegister E.base}, Admits E.base →
    Run p.x.slice p'.x.slice → Run p.y.slice p'.y.slice → Run q.x.slice q'.x.slice →
    Run q.y.slice q'.y.slice →
    Step (do
        let r ← Record.alloc (.field E.base)
        Record.append (.slope E p q r)
        return r)
      (do
        let r ← Record.alloc (.field E.base)
        Record.append (.slope E p' q' r)
        return r)
      (fun r r' => Run r.slice r'.slice)

namespace RecordLogic

variable (L : RecordLogic)

def Same {k : Kind} (r r' : Register k) : Prop :=
  L.Run r.slice r'.slice

structure SamePoint {P : FieldParams} (p p' : PointRegister P) : Prop where
  x : L.Same p.x p'.x
  y : L.Same p.y p'.y

structure SameSum {P : FieldParams} (s s' : Gadget.CompleteSum P) : Prop where
  result : L.SamePoint s.result s'.result
  slope : L.Same s.slope s'.slope
  pIsIdentity : L.Same s.pIsIdentity s'.pIsIdentity
  qIsIdentity : L.Same s.qIsIdentity s'.qIsIdentity
  sameX : L.Same s.sameX s'.sameX
  oppositeY : L.Same s.oppositeY s'.oppositeY

structure SameMultiples {P : FieldParams} (m m' : Gadget.OddMultiples P) : Prop where
  p1 : L.SamePoint m.p1 m'.p1
  p3 : L.SamePoint m.p3 m'.p3
  neg1 : L.SamePoint m.neg1 m'.neg1
  neg3 : L.SamePoint m.neg3 m'.neg3

abbrev SameBits (rs rs' : List (Register .bit)) : Prop :=
  List.Forall₂ L.Same rs rs'

structure SameFolding {E : CurveParams} (f f' : Gadget.Folding E) : Prop where
  scalar : L.Same f.scalar f'.scalar
  bits : L.SameBits f.bits f'.bits
  a : L.Same f.a f'.a
  point : L.SamePoint f.point f'.point

variable {L}

theorem bind_with {α β γ : Type} {g g' : Record α} {f f' : α → Record γ} {rest rest' : α → Record β}
    {R : α → α → Prop} {S : β → β → Prop} [∀ a, Grows (rest a)]
    (hg : L.Step (do let a ← g; let _ ← f a; return a) (do let a ← g'; let _ ← f' a; return a) R)
    (hrest : ∀ a a', R a a' → L.Step (rest a) (rest' a') S) :
    L.Step (do let a ← g; let _ ← f a; rest a) (do let a ← g'; let _ ← f' a; rest' a) S := by
  have h := L.bind hg hrest
  simp only [bind_assoc, pure_bind] at h
  exact h

section Field

variable {P : FieldParams} (hP : L.Admits P) {a a' b b' : FieldRegister P}

include hP

theorem zero : L.Step (Gadget.zero P) (Gadget.zero P) L.Same :=
  L.constant 0 hP

theorem one : L.Step (Gadget.one P) (Gadget.one P) L.Same :=
  L.constant 1 hP

theorem assertZero (ha : L.Same a a') :
    L.Step (Gadget.assertZero a) (Gadget.assertZero a') (fun _ _ => True) :=
  L.assertEqualConstant 0 hP ha

theorem neg (ha : L.Same a a') : L.Step (Gadget.neg a) (Gadget.neg a') L.Same := by
  refine L.bind (zero hP) fun z z' hz => ?_
  exact L.sub hP hz ha

theorem blend {s s' : FieldRegister P} (hs : L.Same s s') (ha : L.Same a a') (hb : L.Same b b') :
    L.Step (Gadget.blend s a b) (Gadget.blend s' a' b') L.Same := by
  refine L.bind (L.sub hP ha hb) fun d d' hd => ?_
  refine L.bind (L.mul hP hs hd) fun t t' ht => ?_
  exact L.add hP hb ht

theorem div (ha : L.Same a a') (hb : L.Same b b') :
    L.Step (Gadget.div a b) (Gadget.div a' b') L.Same := by
  refine L.bind (L.inverseHint false hP hb) fun i i' hi => ?_
  refine L.bind (L.mul hP hb hi) fun u u' hu => ?_
  refine L.bind (L.assertEqualConstant 1 hP hu) fun _ _ _ => ?_
  exact L.mul hP ha hi

theorem inverseOrZero (ha : L.Same a a') :
    L.Step (Gadget.inverseOrZero a) (Gadget.inverseOrZero a')
      (fun r r' => L.Same r.1 r'.1 ∧ L.Same r.2 r'.2) := by
  refine L.bind (L.inverseHint true hP ha) fun i i' hi => ?_
  refine L.bind (L.mul hP ha hi) fun p p' hp => ?_
  refine L.bind (one hP) fun o o' ho => ?_
  refine L.bind (L.sub hP ho hp) fun d d' hd => ?_
  refine L.bind (L.mul hP ha hd) fun u u' hu => ?_
  refine L.bind (assertZero hP hu) fun _ _ _ => ?_
  refine L.bind (L.mul hP hi hd) fun v v' hv => ?_
  refine L.bind (assertZero hP hv) fun _ _ _ => ?_
  exact L.pure ⟨hi, hd⟩

theorem isZero (ha : L.Same a a') : L.Step (Gadget.isZero a) (Gadget.isZero a') L.Same := by
  refine L.bind (inverseOrZero hP ha) fun r r' hr => ?_
  exact L.pure hr.2

end Field

section Point

variable {P : FieldParams} (hP : L.Admits P) {p p' q q' : PointRegister P} {a a' : FieldRegister P}

include hP

theorem constantPoint (p : Point) :
    L.Step (Gadget.constantPoint P p) (Gadget.constantPoint P p) L.SamePoint := by
  refine L.bind (L.constant p.x hP) fun x x' hx => ?_
  refine L.bind (L.constant p.y hP) fun y y' hy => ?_
  exact L.pure ⟨hx, hy⟩

theorem chordSlope (hp : L.SamePoint p p') (hq : L.SamePoint q q') :
    L.Step (Gadget.chordSlope p q) (Gadget.chordSlope p' q') L.Same := by
  refine L.bind (L.sub hP hq.y hp.y) fun n n' hn => ?_
  refine L.bind (L.sub hP hq.x hp.x) fun d d' hd => ?_
  exact div hP hn hd

theorem tangentNumerator {x x' : FieldRegister P} (hx : L.Same x x') (ha : L.Same a a') :
    L.Step (Gadget.tangentNumerator x a) (Gadget.tangentNumerator x' a') L.Same := by
  refine L.bind (L.mul hP hx hx) fun s s' hs => ?_
  refine L.bind (L.add hP hs hs) fun t t' ht => ?_
  refine L.bind (L.add hP ht hs) fun u u' hu => ?_
  exact L.add hP hu ha

theorem tangentSlope (hp : L.SamePoint p p') (ha : L.Same a a') :
    L.Step (Gadget.tangentSlope p a) (Gadget.tangentSlope p' a') L.Same := by
  refine L.bind (tangentNumerator hP hp.x ha) fun n n' hn => ?_
  refine L.bind (L.add hP hp.y hp.y) fun d d' hd => ?_
  exact div hP hn hd

theorem addWithSlope {s s' : FieldRegister P} (hp : L.SamePoint p p') (hq : L.SamePoint q q')
    (hs : L.Same s s') :
    L.Step (Gadget.addWithSlope p q s) (Gadget.addWithSlope p' q' s') L.SamePoint := by
  refine L.bind (L.mul hP hs hs) fun t t' ht => ?_
  refine L.bind (L.sub hP ht hp.x) fun x x' hx => ?_
  refine L.bind (L.sub hP hx hq.x) fun x x' hx => ?_
  refine L.bind (L.sub hP hp.x hx) fun y y' hy => ?_
  refine L.bind (L.mul hP hs hy) fun y y' hy => ?_
  refine L.bind (L.sub hP hy hp.y) fun y y' hy => ?_
  exact L.pure ⟨hx, hy⟩

theorem chordAdd (hp : L.SamePoint p p') (hq : L.SamePoint q q') :
    L.Step (Gadget.chordAdd p q) (Gadget.chordAdd p' q') L.SamePoint := by
  refine L.bind (chordSlope hP hp hq) fun s s' hs => ?_
  exact addWithSlope hP hp hq hs

theorem double (hp : L.SamePoint p p') (ha : L.Same a a') :
    L.Step (Gadget.double p a) (Gadget.double p' a') L.SamePoint := by
  refine L.bind (tangentSlope hP hp ha) fun s s' hs => ?_
  exact addWithSlope hP hp hp hs

theorem negPoint (hp : L.SamePoint p p') :
    L.Step (Gadget.negPoint p) (Gadget.negPoint p') L.SamePoint := by
  refine L.bind (neg hP hp.y) fun y y' hy => ?_
  exact L.pure ⟨hp.x, hy⟩

omit hP in
theorem selectPoint {bit bit' : Register .bit} (hbit : L.Same bit bit') (hp : L.SamePoint p p')
    (hq : L.SamePoint q q') :
    L.Step (Gadget.selectPoint bit p q) (Gadget.selectPoint bit' p' q') L.SamePoint := by
  refine L.bind (L.select hbit hp.x hq.x) fun x x' hx => ?_
  refine L.bind (L.select hbit hp.y hq.y) fun y y' hy => ?_
  exact L.pure ⟨hx, hy⟩

theorem doubleAndAdd (hp : L.SamePoint p p') (hq : L.SamePoint q q') :
    L.Step (Gadget.doubleAndAdd p q) (Gadget.doubleAndAdd p' q') L.SamePoint := by
  refine L.bind (chordSlope hP hp hq) fun s s' hs => ?_
  refine L.bind (L.mul hP hs hs) fun t t' ht => ?_
  refine L.bind (L.sub hP ht hp.x) fun x x' hx => ?_
  refine L.bind (L.sub hP hx hq.x) fun x x' hx => ?_
  refine L.bind (L.add hP hp.y hp.y) fun u u' hu => ?_
  refine L.bind (L.sub hP hx hp.x) fun d d' hd => ?_
  refine L.bind (div hP hu hd) fun r r' hr => ?_
  refine L.bind (L.add hP hs hr) fun s s' hs => ?_
  refine L.bind (L.mul hP hs hs) fun t t' ht => ?_
  refine L.bind (L.sub hP ht hp.x) fun v v' hv => ?_
  refine L.bind (L.sub hP hv hx) fun v v' hv => ?_
  refine L.bind (L.sub hP hv hp.x) fun d d' hd => ?_
  refine L.bind (L.mul hP hs hd) fun w w' hw => ?_
  refine L.bind (L.sub hP hw hp.y) fun w w' hw => ?_
  exact L.pure ⟨hv, hw⟩

theorem assertChord {s s' dx dx' dy dy' : FieldRegister P} (hs : L.Same s s') (hdx : L.Same dx dx')
    (hdy : L.Same dy dy') :
    L.Step (Gadget.assertChord s dx dy) (Gadget.assertChord s' dx' dy') (fun _ _ => True) := by
  refine L.bind (L.mul hP hs hdx) fun r r' hr => ?_
  refine L.bind (L.sub hP hr hdy) fun c c' hc => ?_
  refine L.bind (L.mul hP hdx hc) fun u u' hu => ?_
  exact assertZero hP hu

theorem assertTangent {s s' o o' i i' x x' y y' : FieldRegister P} (hp : L.SamePoint p p')
    (hs : L.Same s s') (ho : L.Same o o') (ha : L.Same a a') (hi : L.Same i i') (hx : L.Same x x')
    (hy : L.Same y y') :
    L.Step (Gadget.assertTangent p s o a i x y) (Gadget.assertTangent p' s' o' a' i' x' y')
      (fun _ _ => True) := by
  refine L.bind (L.sub hP ho hi) fun f f' hf => ?_
  refine L.bind (L.sub hP ho hy) fun n n' hn => ?_
  refine L.bind (L.mul hP hf hx) fun e e' he => ?_
  refine L.bind (L.mul hP he hn) fun e e' he => ?_
  refine L.bind (L.add hP hp.y hp.y) fun t t' ht => ?_
  refine L.bind (L.mul hP ht hs) fun l l' hl => ?_
  refine L.bind (tangentNumerator hP hp.x ha) fun r r' hr => ?_
  refine L.bind (L.sub hP hl hr) fun t t' ht => ?_
  refine L.bind (L.mul hP he ht) fun u u' hu => ?_
  exact assertZero hP hu

end Point

section Complete

variable {E : CurveParams} (hP : L.Admits E.base) {p p' q q' : PointRegister E.base}

include hP

theorem completeSum (hp : L.SamePoint p p') (hq : L.SamePoint q q') :
    L.Step (Gadget.completeSum E p q) (Gadget.completeSum E p' q') L.SameSum := by
  refine L.bind (L.constant E.a hP) fun a a' ha => ?_
  refine L.bind (one hP) fun o o' ho => ?_
  refine L.bind (zero hP) fun z z' hz => ?_
  refine L.bind (isZero hP hp.y) fun i i' hi => ?_
  refine L.bind (isZero hP hq.y) fun j j' hj => ?_
  refine L.bind (L.sub hP hq.x hp.x) fun dx dx' hdx => ?_
  refine L.bind (L.sub hP hq.y hp.y) fun dy dy' hdy => ?_
  refine L.bind (isZero hP hdx) fun u u' hu => ?_
  refine L.bind (L.add hP hp.y hq.y) fun t t' ht => ?_
  refine L.bind (isZero hP ht) fun v v' hv => ?_
  refine bind_with (L.slope hP hp.x hp.y hq.x hq.y) fun s s' hs => ?_
  refine L.bind (assertChord hP hs hdx hdy) fun _ _ _ => ?_
  refine L.bind (assertTangent hP hp hs ho ha hi hu hv) fun _ _ _ => ?_
  refine L.bind (addWithSlope hP hp hq hs) fun g g' hg => ?_
  refine L.bind (L.mul hP hu hv) fun w w' hw => ?_
  refine L.bind (blend hP hw hz hg.x) fun x x' hx => ?_
  refine L.bind (blend hP hw hz hg.y) fun y y' hy => ?_
  refine L.bind (blend hP hj hp.x hx) fun x x' hx => ?_
  refine L.bind (blend hP hj hp.y hy) fun y y' hy => ?_
  refine L.bind (blend hP hi hq.x hx) fun x x' hx => ?_
  refine L.bind (blend hP hi hq.y hy) fun y y' hy => ?_
  refine L.bind (L.assertCanonical hP hx) fun _ _ _ => ?_
  refine L.bind (L.assertCanonical hP hy) fun _ _ _ => ?_
  exact L.pure ⟨⟨hx, hy⟩, hs, hi, hj, hu, hv⟩

theorem addPoint (hp : L.SamePoint p p') (hq : L.SamePoint q q') :
    L.Step (Gadget.addPoint E p q) (Gadget.addPoint E p' q') L.SamePoint := by
  refine L.bind (completeSum hP hp hq) fun s s' hs => ?_
  exact L.pure hs.result

end Complete

section ScalarMul

variable {E : CurveParams} {S P : FieldParams} (hS : L.Admits E.scalar) (hB : L.Admits E.base)
  (hP : L.Admits P)

include hS in
theorem foldScalar {scalar scalar' : FieldRegister E.scalar} (hs : L.Same scalar scalar') :
    L.Step (Gadget.foldScalar E scalar) (Gadget.foldScalar E scalar')
      (fun r r' => L.Same r.1 r'.1 ∧ L.Same r.2 r'.2) := by
  refine L.bind (L.lift E.halfOrder) ?_
  rintro half _ rfl
  refine L.bind (L.assertCanonical hS hs) fun _ _ _ => ?_
  refine bind_with (L.slack _ hS hs) fun c c' hc => ?_
  refine L.bind (L.greaterThan half E.scalar.limbBits hs) fun n n' hn => ?_
  refine L.bind (L.select hn hc hs) fun f f' hf => ?_
  refine bind_with (L.slack _ hS hf) fun _ _ _ => ?_
  exact L.pure ⟨hn, hf⟩

theorem scalarBitsGo {cell cell' limbs : Nat}
    (h : 0 < limbs → L.Run ⟨cell, limbs⟩ ⟨cell', limbs⟩) :
    L.Step (Gadget.scalarBits.go (S := S) cell limbs) (Gadget.scalarBits.go (S := S) cell' limbs)
      L.SameBits := by
  induction limbs generalizing cell cell' with
  | zero => exact L.pure .nil
  | succ limbs ih =>
    have hrun := h (Nat.succ_pos limbs)
    have hfirst : L.Same (⟨cell⟩ : Register .element) ⟨cell'⟩ :=
      @StepLogic.part _ _ _ 0 1 hrun Nat.one_pos (by dsimp only; omega)
    have hrest (hpos : 0 < limbs) := @StepLogic.part _ _ _ 1 limbs hrun hpos (by dsimp only; omega)
    refine L.bind (L.decompose S.limbBits hfirst) fun bits bits' hbits => ?_
    refine L.bind (ih hrest) fun rs rs' hrs => ?_
    exact L.pure (List.rel_append hbits hrs)

theorem scalarBits {scalar scalar' : FieldRegister S} (h : L.Same scalar scalar') :
    L.Step (Gadget.scalarBits scalar) (Gadget.scalarBits scalar') L.SameBits :=
  scalarBitsGo fun _ => h

include hP in
theorem oddMultiples {a a' : FieldRegister P} {p p' : PointRegister P} (ha : L.Same a a')
    (hp : L.SamePoint p p') :
    L.Step (Gadget.oddMultiples a p) (Gadget.oddMultiples a' p') L.SameMultiples := by
  refine L.bind (double hP hp ha) fun p2 p2' h2 => ?_
  refine L.bind (chordAdd hP h2 hp) fun p3 p3' h3 => ?_
  refine L.bind (negPoint hP hp) fun n1 n1' hn1 => ?_
  refine L.bind (negPoint hP h3) fun n3 n3' hn3 => ?_
  exact L.pure ⟨hp, h3, hn1, hn3⟩

theorem bitAt {rs rs' : List (Register .bit)} (h : L.SameBits rs rs') (i : Nat) :
    L.Step (Gadget.bitAt rs.toArray i) (Gadget.bitAt rs'.toArray i) L.Same := by
  unfold Gadget.bitAt
  rw [List.getElem?_toArray, List.getElem?_toArray]
  by_cases hi : i < rs.length
  · have hi' : i < rs'.length := by rwa [← h.length_eq]
    rw [List.getElem?_eq_getElem hi, List.getElem?_eq_getElem hi']
    exact L.pure (h.get hi hi')
  · have hi' : ¬ i < rs'.length := by rwa [← h.length_eq]
    rw [List.getElem?_eq_none (by omega), List.getElem?_eq_none (by omega)]
    exact L.throw _ _

include hP in
theorem digitSteps {a a' : FieldRegister P} {rs rs' : List (Register .bit)}
    {m m' : Gadget.OddMultiples P} (ha : L.Same a a') (hrs : L.SameBits rs rs')
    (hm : L.SameMultiples m m') {acc acc' : PointRegister P} (hacc : L.SamePoint acc acc') (i : Nat) :
    L.Step (Gadget.digitSteps a rs.toArray m i acc) (Gadget.digitSteps a' rs'.toArray m' i acc')
      L.SamePoint := by
  induction i generalizing acc acc' with
  | zero => exact L.pure hacc
  | succ i ih =>
    refine L.bind (bitAt hrs (2 * i + 1)) fun b b' hb => ?_
    refine L.bind (selectPoint hb hm.p3 hm.p1) fun u u' hu => ?_
    refine L.bind (bitAt hrs (2 * i + 1)) fun b b' hb => ?_
    refine L.bind (selectPoint hb hm.neg1 hm.neg3) fun v v' hv => ?_
    refine L.bind (bitAt hrs (2 * i + 2)) fun b b' hb => ?_
    refine L.bind (selectPoint hb hu hv) fun d d' hd => ?_
    refine L.bind (double hP hacc ha) fun t t' ht => ?_
    refine L.bind (doubleAndAdd hP ht hd) fun acc acc' hacc => ?_
    exact ih hacc

section Halves

variable {scalar scalar' : FieldRegister E.scalar} {p p' : PointRegister E.base}

include hB in
theorem multiplyFolded {f f' : Gadget.Folding E} (digits : Nat) (hf : L.SameFolding f f') :
    L.Step (Gadget.multiplyFolded E digits f) (Gadget.multiplyFolded E digits f') L.SamePoint := by
  refine L.bind (oddMultiples hB hf.a hf.point) fun m m' hm => ?_
  refine L.bind (bitAt hf.bits _) fun b b' hb => ?_
  refine L.bind (selectPoint hb hm.p3 hm.p1) fun acc acc' hacc => ?_
  refine L.bind (digitSteps hB hf.a hf.bits hm hacc _) fun acc acc' hacc => ?_
  refine L.bind (addPoint hB hacc hm.neg1) fun e e' he => ?_
  refine L.bind (bitAt hf.bits 0) fun b b' hb => ?_
  refine L.bind (selectPoint hb hacc he) fun r r' hr => ?_
  refine L.bind (L.assertCanonical hB hr.x) fun _ _ _ => ?_
  refine L.bind (L.assertCanonical hB hr.y) fun _ _ _ => ?_
  exact L.pure hr

include hS hB

theorem fold (hs : L.Same scalar scalar') (hp : L.SamePoint p p') :
    L.Step (Gadget.fold E scalar p) (Gadget.fold E scalar' p') L.SameFolding := by
  refine L.bind (foldScalar hS hs) fun f f' hf => ?_
  refine L.bind (scalarBits hf.2) fun rs rs' hrs => ?_
  refine L.bind (L.constant E.a hB) fun a a' ha => ?_
  refine L.bind (neg hB hp.y) fun n n' hn => ?_
  refine L.bind (L.select hf.1 hn hp.y) fun y y' hy => ?_
  exact L.pure ⟨hf.2, hrs, ha, hp.x, hy⟩

theorem scalarMul (hs : L.Same scalar scalar') (hp : L.SamePoint p p') :
    L.Step (Gadget.scalarMul E scalar p) (Gadget.scalarMul E scalar' p') L.SamePoint := by
  rw [Gadget.scalarMul_eq, Gadget.scalarMul_eq]
  refine L.bind (L.lift E.halfOrder) ?_
  rintro half _ rfl
  refine L.bind (fold hS hB hs hp) fun f f' hf => ?_
  exact multiplyFolded hB _ hf

end Halves

end ScalarMul

end RecordLogic

end ForeignCurve
