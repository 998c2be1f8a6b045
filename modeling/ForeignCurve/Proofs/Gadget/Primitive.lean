import ForeignCurve.Proofs.Gadget.Logic

namespace ForeignCurve

section Correspondence

variable (Run : CellSlice → CellSlice → Prop)

inductive LimbOperand.Corresponds : LimbOperand → LimbOperand → Prop where
  | cells {s s' : CellSlice} (h : Run s s') : Corresponds (cells s) (cells s')
  | const (limbs : List Nat) : Corresponds (const limbs) (const limbs)

structure RegisterArray.Corresponds {k : Kind} (a a' : RegisterArray k) : Prop where
  slice : Run a.slice a'.slice
  length : a'.length = a.length

structure Identity.Corresponds {P : FieldParams} (m m' : Identity P) : Prop where
  a : Run m.a.slice m'.a.slice
  b : Run m.b.slice m'.b.slice
  result : Run m.result.slice m'.result.slice
  carry : Run m.carry.slice m'.carry.slice
  low : m.low.Corresponds Run m'.low
  high : m.high.Corresponds Run m'.high

inductive Instruction.Corresponds : Instruction → Instruction → Prop where
  | constant {s s' : CellSlice} (values : List Native) (assign : Bool) (h : Run s s') :
    Corresponds (constant s values assign) (constant s' values assign)
  | select {bit bit' : Register .bit} {t t' f f' r r' : CellSlice} (hbit : Run bit.slice bit'.slice)
    (ht : Run t t') (hf : Run f f') (hr : Run r r') :
    Corresponds (select bit t f r) (select bit' t' f' r')
  | decompose {value value' : Register .element} {bits bits' : RegisterArray .bit}
    (hvalue : Run value.slice value'.slice) (hbits : bits.Corresponds Run bits') :
    Corresponds (decompose value bits) (decompose value' bits')
  | limbSum {a a' : CellSlice} {b b' c c' : LimbOperand} {carries carries' : RegisterArray .bit}
    (limbBits : Nat) (ha : Run a a') (hb : b.Corresponds Run b') (hc : c.Corresponds Run c')
    (hcarries : carries.Corresponds Run carries') :
    Corresponds (limbSum ⟨a, b, c, carries, limbBits⟩) (limbSum ⟨a', b', c', carries', limbBits⟩)
  | greaterThan {s s' : CellSlice} {r r' : Register .bit} (bound : List Nat) (limbBits : Nat)
    (hs : Run s s') (hr : Run r.slice r'.slice) :
    Corresponds (greaterThan s bound limbBits r) (greaterThan s' bound limbBits r')
  | fieldSum {P : FieldParams} {m m' : Identity P} (h : m.Corresponds Run m') :
    Corresponds (fieldSum P m) (fieldSum P m')
  | fieldDifference {P : FieldParams} {m m' : Identity P} (h : m.Corresponds Run m') :
    Corresponds (fieldDifference P m) (fieldDifference P m')
  | fieldProduct {P : FieldParams} {m m' : Identity P} (h : m.Corresponds Run m') :
    Corresponds (fieldProduct P m) (fieldProduct P m')
  | inverse {P : FieldParams} {a a' r r' : FieldRegister P} (allowZero : Bool)
    (ha : Run a.slice a'.slice) (hr : Run r.slice r'.slice) :
    Corresponds (inverse P a r allowZero) (inverse P a' r' allowZero)
  | slope {E : CurveParams} {p p' q q' : PointRegister E.base} {r r' : FieldRegister E.base}
    (hpx : Run p.x.slice p'.x.slice) (hpy : Run p.y.slice p'.y.slice) (hqx : Run q.x.slice q'.x.slice)
    (hqy : Run q.y.slice q'.y.slice) (hr : Run r.slice r'.slice) :
    Corresponds (slope E p q r) (slope E p' q' r')

end Correspondence

structure PrimitiveLogic extends StepLogic where
  len : ∀ {s s' : CellSlice}, Run s s' → s'.len = s.len
  requireHeadroom : ∀ {P : FieldParams}, Admits P →
    Step (Record.requireHeadroom P) (Record.requireHeadroom P) (fun _ _ => True)
  alloc : ∀ k : Kind, Step (Record.alloc k) (Record.alloc k) (fun r r' => Run r.slice r'.slice)
  allocArray : ∀ {k : Kind} (length : Nat), k.size = 1 →
    Step (Record.allocArray k length) (Record.allocArray k length)
      (fun a a' => a.Corresponds Run a' ∧ a.length ≤ a.slice.len)
  append : ∀ {i i' : Instruction}, i.Corresponds Run i' →
    Step (Record.append i) (Record.append i') (fun _ _ => True)

namespace PrimitiveLogic

variable {L : PrimitiveLogic}

section Plain

theorem select {k : Kind} {bit bit' : Register .bit} {a a' b b' : Register k}
    (hbit : L.Run bit.slice bit'.slice) (ha : L.Run a.slice a'.slice) (hb : L.Run b.slice b'.slice) :
    L.Step (Gadget.select bit a b) (Gadget.select bit' a' b') (fun r r' => L.Run r.slice r'.slice) := by
  refine L.bind (L.alloc k) fun r r' hr => ?_
  refine L.bind (L.append (.select hbit ha hb hr)) fun _ _ _ => ?_
  exact L.pure hr

theorem decompose {value value' : Register .element} (count : Nat) (hvalue : L.Run value.slice value'.slice) :
    L.Step (Gadget.decompose value count) (Gadget.decompose value' count) fun bits bits' =>
      List.Forall₂ (fun r r' : Register .bit => L.Run r.slice r'.slice) bits.toList bits'.toList := by
  refine L.bind (L.allocArray count rfl) fun bits bits' hbits => ?_
  refine L.bind (L.append (.decompose hvalue hbits.1)) fun _ _ _ => L.pure ?_
  unfold RegisterArray.toList
  rw [hbits.1.length, List.forall₂_map_left_iff, List.forall₂_map_right_iff, List.forall₂_same]
  intro j hj
  rw [List.mem_range] at hj
  have hle := hbits.2
  exact @StepLogic.part _ _ _ (j * 1) 1 hbits.1.slice Nat.one_pos (by omega)

theorem greaterThan {s s' : CellSlice} (bound limbBits : Nat) (hs : L.Run s s') :
    L.Step (Gadget.greaterThan s bound limbBits) (Gadget.greaterThan s' bound limbBits)
      (fun r r' => L.Run r.slice r'.slice) := by
  unfold Gadget.greaterThan
  rw [L.len hs]
  refine L.bind (L.alloc .bit) fun r r' hr => ?_
  refine L.bind (L.append (.greaterThan _ limbBits hs hr)) fun _ _ _ => ?_
  exact L.pure hr

theorem length_eq {b b' : LimbOperand} (h : b.Corresponds L.Run b') : b'.length = b.length := by
  cases h with
  | cells h => exact L.len h
  | const limbs => rfl

section Checks

variable {α : Type} {c : Prop} [Decidable c] (e : Abort) {g g' : Record α} {R : α → α → Prop} [Grows g]

theorem if_throw (h : L.Step g g' R) :
    L.Step (if c then (do let _ ← (throw e : Record PUnit); g) else g)
      (if c then (do let _ ← (throw e : Record PUnit); g') else g') R := by
  split
  · exact L.bind (L.throw e fun _ _ => True) fun _ _ _ => h
  · exact h

theorem unless_throw (h : L.Step g g' R) :
    L.Step (if c then g else (do let _ ← (throw e : Record PUnit); g))
      (if c then g' else (do let _ ← (throw e : Record PUnit); g')) R := by
  split
  · exact h
  · exact L.bind (L.throw e fun _ _ => True) fun _ _ _ => h

end Checks

theorem limbSum {a a' : CellSlice} {b b' c c' : LimbOperand} (limbBits : Nat) (ha : L.Run a a')
    (hb : b.Corresponds L.Run b') (hc : c.Corresponds L.Run c') :
    L.Step (Gadget.limbSum a b c limbBits) (Gadget.limbSum a' b' c' limbBits) (fun _ _ => True) := by
  unfold Gadget.limbSum
  rw [L.len ha, length_eq hb, length_eq hc]
  -- the same checks are made on both sides
  dsimp only
  apply if_throw
  apply unless_throw
  apply unless_throw
  refine L.bind (L.allocArray _ rfl) fun carries carries' hcarries => ?_
  refine L.bind (L.append (.limbSum limbBits ha hb hc hcarries.1)) fun _ _ _ => ?_
  exact L.pure trivial

end Plain

section Field

variable {P : FieldParams} (hP : L.Admits P) {a a' b b' : FieldRegister P}

include hP

theorem constant (value : Nat) :
    L.Step (Gadget.constant P value) (Gadget.constant P value) (fun r r' => L.Run r.slice r'.slice) := by
  refine L.bind (L.requireHeadroom hP) fun _ _ _ => ?_
  refine L.bind (L.alloc (.field P)) fun r r' hr => ?_
  refine L.bind (L.lift (P.reduce value)) ?_
  rintro residue _ rfl
  refine L.bind (L.lift (P.encode residue)) ?_
  rintro limbs _ rfl
  refine L.bind (L.append (.constant limbs true hr)) fun _ _ _ => ?_
  exact L.pure hr

theorem assertEqualConstant (value : Nat) (ha : L.Run a.slice a'.slice) :
    L.Step (Gadget.assertEqualConstant a value) (Gadget.assertEqualConstant a' value)
      (fun _ _ => True) := by
  refine L.bind (L.requireHeadroom hP) fun _ _ _ => ?_
  refine L.bind (L.lift (P.reduce value)) ?_
  rintro residue _ rfl
  refine L.bind (L.lift (P.encode residue)) ?_
  rintro limbs _ rfl
  exact L.append (.constant limbs false ha)

theorem inverseHint (allowZero : Bool) (ha : L.Run a.slice a'.slice) :
    L.Step (Gadget.inverseHint a allowZero) (Gadget.inverseHint a' allowZero)
      (fun r r' => L.Run r.slice r'.slice) := by
  refine L.bind (L.requireHeadroom hP) fun _ _ _ => ?_
  refine L.bind (L.alloc (.field P)) fun r r' hr => ?_
  refine L.bind (L.append (.inverse allowZero ha hr)) fun _ _ _ => ?_
  exact L.pure hr

theorem identity {r r' : FieldRegister P} (ha : L.Run a.slice a'.slice) (hb : L.Run b.slice b'.slice)
    (hr : L.Run r.slice r'.slice) :
    L.Step (Gadget.identity a b r) (Gadget.identity a' b' r') (fun m m' => m.Corresponds L.Run m') := by
  refine L.bind (L.requireHeadroom hP) fun _ _ _ => ?_
  refine L.bind (L.alloc (.field P)) fun carry carry' hcarry => ?_
  refine L.bind (L.allocArray P.witnessLimbs rfl) fun low low' hlow => ?_
  refine L.bind (L.allocArray P.witnessLimbs rfl) fun high high' hhigh => ?_
  exact L.pure ⟨ha, hb, hr, hcarry, hlow.1, hhigh.1⟩

section Set

variable {r r' : FieldRegister P} (ha : L.Run a.slice a'.slice) (hb : L.Run b.slice b'.slice)
  (hr : L.Run r.slice r'.slice)

include ha hb hr

theorem setAdd : L.Step (Gadget.setAdd a b r) (Gadget.setAdd a' b' r') (fun _ _ => True) := by
  refine L.bind (identity hP ha hb hr) fun m m' hm => ?_
  exact L.append (.fieldSum hm)

theorem setSub : L.Step (Gadget.setSub a b r) (Gadget.setSub a' b' r') (fun _ _ => True) := by
  refine L.bind (identity hP hb hr ha) fun m m' hm => ?_
  exact L.append (.fieldDifference hm)

theorem setMul : L.Step (Gadget.setMul a b r) (Gadget.setMul a' b' r') (fun _ _ => True) := by
  refine L.bind (identity hP ha hb hr) fun m m' hm => ?_
  exact L.append (.fieldProduct hm)

end Set

theorem add (ha : L.Run a.slice a'.slice) (hb : L.Run b.slice b'.slice) :
    L.Step (Gadget.add a b) (Gadget.add a' b') (fun r r' => L.Run r.slice r'.slice) := by
  refine L.bind (L.alloc (.field P)) fun r r' hr => ?_
  refine L.bind (setAdd hP ha hb hr) fun _ _ _ => ?_
  exact L.pure hr

theorem sub (ha : L.Run a.slice a'.slice) (hb : L.Run b.slice b'.slice) :
    L.Step (Gadget.sub a b) (Gadget.sub a' b') (fun r r' => L.Run r.slice r'.slice) := by
  refine L.bind (L.alloc (.field P)) fun r r' hr => ?_
  refine L.bind (setSub hP ha hb hr) fun _ _ _ => ?_
  exact L.pure hr

theorem mul (ha : L.Run a.slice a'.slice) (hb : L.Run b.slice b'.slice) :
    L.Step (Gadget.mul a b) (Gadget.mul a' b') (fun r r' => L.Run r.slice r'.slice) := by
  refine L.bind (L.alloc (.field P)) fun r r' hr => ?_
  refine L.bind (setMul hP ha hb hr) fun _ _ _ => ?_
  exact L.pure hr

theorem assertCanonical (ha : L.Run a.slice a'.slice) :
    L.Step (Gadget.assertCanonical a) (Gadget.assertCanonical a') (fun _ _ => True) := by
  refine L.bind (L.requireHeadroom hP) fun _ _ _ => ?_
  refine L.bind (L.alloc (.field P)) fun r r' hr => ?_
  refine L.bind (L.lift P.complement) ?_
  rintro complement _ rfl
  refine L.bind (limbSum P.limbBits ha (.const _) (.cells hr)) fun _ _ _ => ?_
  exact L.pure trivial

end Field

theorem slack {P : FieldParams} {a a' : FieldRegister P} (total : Nat) (ha : L.Run a.slice a'.slice) :
    L.Step (do
        let r ← Record.alloc (.field P)
        let _ ← Gadget.limbSum a.slice (.cells r.slice)
          (.const (Limbs.encode P.limbBits P.limbs total)) P.limbBits
        return r)
      (do
        let r ← Record.alloc (.field P)
        let _ ← Gadget.limbSum a'.slice (.cells r.slice)
          (.const (Limbs.encode P.limbBits P.limbs total)) P.limbBits
        return r)
      (fun r r' => L.Run r.slice r'.slice) := by
  refine L.bind (L.alloc (.field P)) fun r r' hr => ?_
  refine L.bind (limbSum P.limbBits ha (.cells hr) (.const _)) fun _ _ _ => ?_
  exact L.pure hr

def toRecordLogic (L : PrimitiveLogic) : RecordLogic where
  toStepLogic := L.toStepLogic
  constant value hP := constant hP value
  assertEqualConstant value hP ha := assertEqualConstant hP value ha
  add hP ha hb := add hP ha hb
  sub hP ha hb := sub hP ha hb
  mul hP ha hb := mul hP ha hb
  inverseHint allowZero hP ha := inverseHint hP allowZero ha
  assertCanonical hP ha := assertCanonical hP ha
  select hbit ha hb := select hbit ha hb
  decompose count hvalue := decompose count hvalue
  greaterThan bound limbBits hs := greaterThan bound limbBits hs
  slack total _ ha := slack total ha
  slope hE hpx hpy hqx hqy := by
    refine L.bind (L.alloc (.field _)) fun r r' hr => ?_
    refine L.bind (L.append (.slope hpx hpy hqx hqy hr)) fun _ _ _ => ?_
    exact L.pure hr

end PrimitiveLogic

end ForeignCurve
