import ForeignCurve.Instruction.Basic
import ForeignCurve.Proofs.Except

namespace ForeignCurve

variable {V W : Type} [Arith V] [Arith W]

namespace Arith

structure Hom (f : V → W) : Prop where
  const : ∀ c, f (Arith.const c) = Arith.const c
  add : ∀ a b, f (Arith.add a b) = Arith.add (f a) (f b)
  sub : ∀ a b, f (Arith.sub a b) = Arith.sub (f a) (f b)
  neg : ∀ a, f (Arith.neg a) = Arith.neg (f a)
  mul : ∀ a b, f (Arith.mul a b) = Arith.mul (f a) (f b)

namespace Hom

variable {f : V → W} (hf : Hom f)

include hf

theorem map_mulConst (a : V) (c : Native) : f (mulConst a c) = mulConst (f a) c := by
  rw [mulConst, mulConst, hf.mul, hf.const]

theorem map_addConst (a : V) (c : Native) : f (addConst a c) = addConst (f a) c := by
  rw [addConst, addConst, hf.add, hf.const]

theorem map_subConst (a : V) (c : Native) : f (subConst a c) = subConst (f a) c := by
  rw [subConst, subConst, hf.sub, hf.const]

theorem map_constPoly (cs : List Native) : (constPoly cs : List V).map f = constPoly cs := by
  rw [constPoly, constPoly, List.map_map]
  apply List.map_congr_left
  intro c _
  exact hf.const c

theorem map_polyAdd (as bs : List V) :
    (polyAdd as bs).map f = polyAdd (as.map f) (bs.map f) := by
  fun_induction polyAdd as bs with
  | case1 bs => rfl
  | case2 as => cases as <;> rfl
  | case3 a as b bs ih => rw [List.map_cons, ih, hf.add, List.map_cons, List.map_cons, polyAdd]

theorem map_polySub (as bs : List V) :
    (polySub as bs).map f = polySub (as.map f) (bs.map f) := by
  fun_induction polySub as bs with
  | case1 bs =>
    rw [List.map_nil, polySub, List.map_map, List.map_map]
    apply List.map_congr_left
    intro b _
    exact hf.neg b
  | case2 as => cases as <;> rfl
  | case3 a as b bs ih => rw [List.map_cons, ih, hf.sub, List.map_cons, List.map_cons, polySub]

theorem map_polyShift (as : List V) (b : V) :
    (polyShift as b).map f = polyShift (as.map f) (f b) := by
  rw [polyShift, polyShift, List.map_map, List.map_map]
  apply List.map_congr_left
  intro a _
  exact hf.sub a b

theorem map_polyScale (as : List V) (b : V) :
    (polyScale as b).map f = polyScale (as.map f) (f b) := by
  rw [polyScale, polyScale, List.map_map, List.map_map]
  apply List.map_congr_left
  intro a _
  exact hf.mul a b

theorem map_mulAcc {row : V → List V} {row' : W → List W}
    (hrow : ∀ a, (row a).map f = row' (f a)) (acc as : List V) :
    (mulAcc row acc as).map f = mulAcc row' (acc.map f) (as.map f) := by
  fun_induction mulAcc row acc as with
  | case1 acc => rfl
  | case2 acc a as hnil ih =>
    have hsum := hf.map_polyAdd acc (row a)
    rw [hnil, hrow, List.map_nil] at hsum
    rw [ih, List.map_cons, mulAcc, ← hsum, List.map_nil]
  | case3 acc a as c cs hcons ih =>
    have hsum := hf.map_polyAdd acc (row a)
    rw [hcons, hrow, List.map_cons] at hsum
    rw [List.map_cons, ih, List.map_cons, mulAcc, ← hsum]

theorem map_polyMul (as bs : List V) :
    (polyMul as bs).map f = polyMul (as.map f) (bs.map f) := by
  unfold polyMul
  apply hf.map_mulAcc
  intro a
  rw [List.map_map, List.map_map]
  apply List.map_congr_left
  intro b _
  exact hf.mul a b

theorem map_polyMulConst (as : List V) (cs : List Native) :
    (polyMulConst as cs).map f = polyMulConst (as.map f) cs := by
  unfold polyMulConst
  apply hf.map_mulAcc
  intro a
  rw [List.map_map]
  apply List.map_congr_left
  intro c _
  exact hf.map_mulConst a c

end Hom

end Arith

namespace CellValues

omit [Arith V] in
theorem slice_eq_ok_iff {cells : CellValues V} {s : CellSlice} {xs : List V} :
    cells.slice s = .ok xs ↔
      s.stop ≤ cells.size ∧ xs = (cells.extract s.start s.stop).toList := by
  unfold slice
  split
  · next h =>
    rw [Except.ok.injEq, eq_comm]
    exact (and_iff_right h).symm
  · next h =>
    constructor
    · intro h'
      contradiction
    · intro h'
      exact absurd h'.1 h

omit [Arith V] in
theorem length_of_slice {cells : CellValues V} {s : CellSlice} {xs : List V}
    (h : cells.slice s = .ok xs) : xs.length = s.len := by
  obtain ⟨hstop, rfl⟩ := slice_eq_ok_iff.mp h
  rw [Array.length_toList, Array.size_extract]
  unfold CellSlice.stop at hstop ⊢
  omega

omit [Arith V] in
theorem get_of_slice {cells : CellValues V} {s : CellSlice} {xs : List V} (h : cells.slice s = .ok xs)
    {i : Nat} (hi : i < xs.length) : cells.get (s.start + i) = .ok xs[i] := by
  have hlen := length_of_slice h
  obtain ⟨hstop, rfl⟩ := slice_eq_ok_iff.mp h
  unfold CellSlice.stop at hstop
  have hlt : s.start + i < cells.size := by omega
  simp [get, hlt]

omit [Arith V] in
theorem mapM_get_of_slice {cells : CellValues V} {k : Kind} (hk : k.size = 1) {start len : Nat}
    {xs : List V} (h : cells.slice ⟨start, len⟩ = .ok xs) :
    ((⟨⟨start, len⟩, len⟩ : RegisterArray k).toList.mapM fun r => cells.get r.start) = .ok xs := by
  have hlen : xs.length = len := length_of_slice h
  subst hlen
  rw [mapM_eq_ok_iff, List.forall₂_iff_get]
  constructor
  · simp [RegisterArray.toList]
  · intro i hi hi'
    simpa [RegisterArray.toList, hk] using get_of_slice h hi'

omit [Arith V] [Arith W] in
theorem slice_map (f : V → W) (vs : CellValues V) (s : CellSlice) :
    CellValues.slice (vs.map f) s = (vs.slice s).map (List.map f) := by
  unfold CellValues.slice
  rw [Array.size_map]
  split
  · rw [map_ok, ← Array.map_extract, Array.toList_map]
  · rfl

omit [Arith V] [Arith W] in
theorem get_map (f : V → W) (vs : CellValues V) (i : Nat) :
    CellValues.get (vs.map f) i = (vs.get i).map f := by
  unfold CellValues.get
  rw [Array.getElem?_map]
  cases vs[i]? <;> rfl

omit [Arith V] in
theorem slice_ofFn (f : Nat → V) (n : Nat) (s : CellSlice) :
    CellValues.slice (Array.ofFn fun i : Fin n => f i) s =
      if s.stop ≤ n then .ok (s.indices.map f) else .error .outOfBounds := by
  unfold CellValues.slice
  rw [Array.size_ofFn]
  split
  · next hs =>
    unfold CellSlice.stop at hs
    congr 1
    apply List.ext_getElem
    · simp [CellSlice.stop, CellSlice.indices]
      omega
    · intro i hi hi'
      simp [CellSlice.indices]
  · rfl

omit [Arith V] in
theorem get_ofFn (f : Nat → V) (n i : Nat) :
    CellValues.get (Array.ofFn fun i : Fin n => f i) i =
      if i < n then .ok (f i) else .error .outOfBounds := by
  unfold CellValues.get
  rw [Array.getElem?_ofFn]
  by_cases hi : i < n
  · rw [dif_pos hi, if_pos hi]
  · rw [dif_neg hi, if_neg hi]

end CellValues

def Assertion.map (f : V → W) : Assertion V → Assertion W
  | .vanishes value => .vanishes (f value)
  | .lookup table values => .lookup table (values.map f)
  | .link a b => .link a b

omit [Arith V] [Arith W] in
theorem zipExact_map {α : Type} (f : V → W) (as : List V) (bs : List α) :
    zipExact (as.map f) bs = (zipExact as bs).map (List.map fun p => (f p.1, p.2)) := by
  induction as generalizing bs with
  | nil => cases bs <;> rfl
  | cons a as ih =>
    cases bs with
    | nil => rfl
    | cons b bs =>
      rw [List.map_cons, zipExact, zipExact, ih, bind_map, map_bind]
      rfl

omit [Arith V] [Arith W] in
theorem mapM_get_map {α : Type} (f : V → W) (vs : CellValues V) (start : α → Nat) (rs : List α) :
    rs.mapM (fun r => CellValues.get (vs.map f) (start r)) =
      (rs.mapM fun r => vs.get (start r)).map (List.map f) := by
  rw [← mapM_map]
  congr 1
  funext r
  exact CellValues.get_map f vs (start r)

section Instructions

variable {f : V → W} (hf : Arith.Hom f)

include hf

theorem LimbOperand.values_map (o : LimbOperand) (vs : CellValues V) :
    o.values (vs.map f) = (o.values vs).map (List.map f) := by
  cases o with
  | cells s => exact CellValues.slice_map f vs s
  | const limbs =>
    rw [values, values, map_bind]
    congr 1
    funext words
    rw [map_pure, List.map_map]
    congr 1
    apply List.map_congr_left
    intro c _
    exact (hf.const c).symm

theorem LimbSum.map_differences (base : Native) (carry : Option V) (as bs rs cs : List V) :
    (differences base carry as bs rs cs).map f =
      differences base (carry.map f) (as.map f) (bs.map f) (rs.map f) (cs.map f) := by
  induction as generalizing carry bs rs cs with
  | nil => simp [differences]
  | cons a as ih =>
    cases bs with
    | nil => simp [differences]
    | cons b bs =>
      cases rs with
      | nil => simp [differences]
      | cons r rs =>
        simp only [differences, List.map_cons, ih, List.head?_map, List.map_tail, hf.sub]
        cases carry <;> cases cs.head? <;> simp [hf.add, hf.map_mulConst]

theorem LimbSum.assertions_map (sum : LimbSum) (vs : CellValues V) :
    sum.assertions (vs.map f) = (sum.assertions vs).map (List.map (Assertion.map f)) := by
  unfold LimbSum.assertions
  simp only [CellValues.slice_map, LimbOperand.values_map hf, mapM_get_map, bind_map, map_bind]
  refine bind_congr fun a => bind_congr fun b => bind_congr fun r => bind_congr fun cs => ?_
  split
  · rw [map_bind]
    refine bind_congr fun base => ?_
    have hdiff := LimbSum.map_differences hf base none a b r cs
    rw [Option.map_none] at hdiff
    rw [map_pure, List.map_map, ← hdiff, List.map_map]
    rfl
  · rfl

theorem Identity.map_quotientConstraints (P : FieldParams) (vanishing low high : List V) :
    (quotientConstraints P vanishing low high).map f =
      quotientConstraints P (vanishing.map f) (low.map f) (high.map f) := by
  simp only [quotientConstraints, hf.map_polySub, hf.map_polyMulConst, hf.map_polyShift,
    hf.map_polyAdd, hf.map_polyScale, hf.const]

theorem Identity.assertions_map {P : FieldParams} {combine : List V → List V → List V}
    {combine' : List W → List W → List W}
    (hcombine : ∀ as bs, (combine as bs).map f = combine' (as.map f) (bs.map f))
    (m : Identity P) (vs : CellValues V) :
    m.assertions combine' (vs.map f) =
      (m.assertions combine vs).map (List.map (Assertion.map f)) := by
  unfold Identity.assertions
  simp only [CellValues.slice_map, mapM_get_map, bind_map, map_bind, map_pure]
  refine bind_congr fun a => bind_congr fun b => bind_congr fun r => bind_congr fun c => ?_
  refine bind_congr fun modulus => bind_congr fun low => bind_congr fun high => ?_
  rw [← hcombine, ← hf.map_polySub, ← hf.map_constPoly, ← hf.map_polyMul, ← hf.map_polySub,
    ← Identity.map_quotientConstraints hf, List.map_map, List.map_map]
  rfl

namespace Instruction

theorem map_weightedSum (acc : V) (power : Native) (vs : List V) :
    f (weightedSum acc power vs) = weightedSum (f acc) power (vs.map f) := by
  induction vs generalizing acc power with
  | nil => rfl
  | cons v vs ih => rw [weightedSum, ih, hf.add, hf.map_mulConst, List.map_cons, weightedSum]

theorem constantAssertions_map (target : CellSlice) (values : List Native) (vs : CellValues V) :
    constantAssertions target values (vs.map f) =
      (constantAssertions target values vs).map (List.map (Assertion.map f)) := by
  unfold constantAssertions
  simp only [CellValues.slice_map, bind_map, map_bind, zipExact_map]
  refine bind_congr fun xs => bind_congr fun pairs => ?_
  rw [map_pure, List.map_map, List.map_map]
  congr 1
  apply List.map_congr_left
  intro pair _
  exact congrArg Assertion.vanishes (hf.map_subConst pair.1 pair.2).symm

theorem booleanAssertions_map (cells : CellSlice) (vs : CellValues V) :
    booleanAssertions cells (vs.map f) =
      (booleanAssertions cells vs).map (List.map (Assertion.map f)) := by
  unfold booleanAssertions
  simp only [CellValues.slice_map, bind_map, map_bind]
  refine bind_congr fun xs => ?_
  rw [map_pure, List.map_map, List.map_map]
  congr 1
  apply List.map_congr_left
  intro v _
  refine congrArg Assertion.vanishes ?_
  rw [hf.sub, hf.mul]

omit [Arith V] [Arith W] hf in
theorem rangeAssertions_map (bits : Nat) (cells : CellSlice) (vs : CellValues V) :
    rangeAssertions bits cells (vs.map f) =
      (rangeAssertions bits cells vs).map (List.map (Assertion.map f)) := by
  unfold rangeAssertions
  simp only [CellValues.slice_map, bind_map, map_bind]
  refine bind_congr fun xs => ?_
  rw [map_pure, List.map_map, List.map_map]
  rfl

theorem selectAssertions_map (bit : Register .bit) (ifTrue ifFalse result : CellSlice)
    (vs : CellValues V) :
    selectAssertions bit ifTrue ifFalse result (vs.map f) =
      (selectAssertions bit ifTrue ifFalse result vs).map (List.map (Assertion.map f)) := by
  unfold selectAssertions
  simp only [CellValues.slice_map, CellValues.get_map, bind_map, map_bind]
  refine bind_congr fun b => bind_congr fun ts => bind_congr fun fs => bind_congr fun rs => ?_
  rw [map_pure, List.map_map, List.zip_map, List.zip_map, List.map_map]
  congr 1
  apply List.map_congr_left
  intro triple _
  refine congrArg Assertion.vanishes ?_
  rw [hf.sub, hf.add, hf.mul, hf.sub]
  rfl

theorem decomposeAssertions_map (value : Register .element) (bits : RegisterArray .bit)
    (vs : CellValues V) :
    decomposeAssertions value bits (vs.map f) =
      (decomposeAssertions value bits vs).map (List.map (Assertion.map f)) := by
  unfold decomposeAssertions
  rw [CellValues.get_map, mapM_get_map]
  simp only [bind_map, map_bind]
  refine bind_congr fun v => bind_congr fun xs => ?_
  have hzero : f Arith.zero = Arith.zero := hf.const 0
  rw [map_pure, List.map_cons, List.map_nil, Assertion.map, hf.sub, map_weightedSum hf, hzero]

theorem assertions_map (i : Instruction) (vs : CellValues V) :
    i.assertions (vs.map f) = (i.assertions vs).map (List.map (Assertion.map f)) := by
  cases i with
  | constant target values assign => exact constantAssertions_map hf target values vs
  | copy source target => rfl
  | boolean cells => exact booleanAssertions_map hf cells vs
  | range bits cells => exact rangeAssertions_map bits cells vs
  | select bit ifTrue ifFalse result => exact selectAssertions_map hf bit ifTrue ifFalse result vs
  | decompose value bits => exact decomposeAssertions_map hf value bits vs
  | limbSum sum => exact LimbSum.assertions_map hf sum vs
  | greaterThan value bound limbBits result => rfl
  | fieldSum P m => exact Identity.assertions_map hf hf.map_polyAdd m vs
  | fieldDifference P m => exact Identity.assertions_map hf hf.map_polyAdd m vs
  | fieldProduct P m => exact Identity.assertions_map hf hf.map_polyMul m vs
  | inverse P a result allowZero => rfl
  | slope E p q result => rfl

end Instruction

end Instructions

end ForeignCurve
