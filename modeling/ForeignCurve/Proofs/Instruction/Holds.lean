import ForeignCurve.Builder
import ForeignCurve.Proofs.Constraint.Store
import ForeignCurve.Proofs.Field.Identity
import ForeignCurve.Proofs.Field.Power

namespace ForeignCurve

open Fin.CommRing

variable {σ : Store} {n : Nat} {s : CellSlice}

theorem exists_map_some {vs : List (Option Native)} {P : Native → Prop}
    (h : ∀ v ∈ vs, ∃ x, v = some x ∧ P x) : ∃ xs : List Native, vs = xs.map some ∧ ∀ x ∈ xs, P x := by
  induction vs with
  | nil => exact ⟨[], rfl, by simp⟩
  | cons v vs ih =>
    rw [List.forall_mem_cons] at h
    obtain ⟨x, rfl, hx⟩ := h.1
    obtain ⟨xs, rfl, hxs⟩ := ih h.2
    exact ⟨x :: xs, rfl, List.forall_mem_cons.mpr ⟨hx, hxs⟩⟩

theorem Arith.sub_some (x y : Native) :
    Arith.sub (some x) (some y) = (some (x - y) : Option Native) := rfl

theorem Arith.sub_none (x : Option Native) : Arith.sub x none = none := by
  cases x <;> rfl

theorem Arith.mul_some (x y : Native) :
    Arith.mul (some x) (some y) = (some (x * y) : Option Native) := rfl

theorem Store.Reads.mapM_get {k : Kind} (hk : k.size = 1) {start len : Nat} {xs : List Native}
    (h : σ.Reads n ⟨start, len⟩ xs) :
    ((⟨⟨start, len⟩, len⟩ : RegisterArray k).toList.mapM fun r => (σ.cells n).get r.start) =
      .ok (xs.map some) :=
  CellValues.mapM_get_of_slice hk h

theorem Store.reads_iff_mapM_get {k : Kind} (hk : k.size = 1) {start len : Nat} {xs : List Native}
    (hbound : start + len ≤ n) : σ.Reads n ⟨start, len⟩ xs ↔
      ((⟨⟨start, len⟩, len⟩ : RegisterArray k).toList.mapM fun r => (σ.cells n).get r.start) =
        .ok (xs.map some) := by
  refine ⟨fun h => h.mapM_get hk, fun h => ?_⟩
  have hslice : (σ.cells n).slice ⟨start, len⟩ = .ok ((⟨start, len⟩ : CellSlice).indices.map σ) :=
    (CellValues.slice_ofFn σ n _).trans (if_pos hbound)
  have hvalues := Except.ok.inj ((CellValues.mapM_get_of_slice hk hslice).symm.trans h)
  rwa [hvalues] at hslice

namespace Instruction

theorem holds_vanishes_iff {i : Instruction} {ds : List Native}
    (h : i.assertions (σ.cells n) = .ok (ds.map fun d => .vanishes (some d))) :
    i.Holds σ n ↔ ∀ d ∈ ds, d = 0 := by
  unfold Holds
  rw [h]
  constructor
  · rintro ⟨as, has, hall⟩ d hd
    cases has
    rw [List.forall_mem_map] at hall
    exact Option.some.inj (hall d hd)
  · intro hall
    refine ⟨_, rfl, ?_⟩
    rw [List.forall_mem_map]
    intro d hd
    exact congrArg some (hall d hd)

theorem holds_cells_iff {i : Instruction} {f : Option Native → Assertion (Option Native)}
    {P : Native → Prop} (hf : ∀ v, (f v).Holds σ ↔ ∃ x, v = some x ∧ P x)
    (hi : i.assertions (σ.cells n) = do return (← (σ.cells n).slice s).map f) :
    i.Holds σ n ↔ ∃ xs, σ.Reads n s xs ∧ ∀ x ∈ xs, P x := by
  unfold Holds
  rw [hi]
  constructor
  · rintro ⟨as, has, h⟩
    obtain ⟨vs, hvs, has⟩ := bind_eq_ok_iff.mp has
    cases has
    rw [List.forall_mem_map] at h
    obtain ⟨xs, rfl, hxs⟩ := exists_map_some fun v hv => (hf v).mp (h v hv)
    exact ⟨xs, hvs, hxs⟩
  · rintro ⟨xs, hreads, hxs⟩
    refine ⟨_, bind_eq_ok_iff.mpr ⟨_, hreads, rfl⟩, ?_⟩
    rw [List.forall_mem_map, List.forall_mem_map]
    exact fun x hx => (hf _).mpr ⟨x, rfl, hxs x hx⟩

theorem holds_range_iff {bits : Nat} :
    (range bits s).Holds σ n ↔ ∃ xs, σ.Reads n s xs ∧ ∀ x ∈ xs, x.val < 2 ^ bits := by
  have hcontains (x : Native) : LookupTable.contains (.range bits) [x.val] = true ↔ x.val < 2 ^ bits := by
    unfold LookupTable.contains
    rw [decide_eq_true_iff, or_iff_right_of_imp]
    intro hbits
    exact Nat.lt_of_lt_of_le x.isLt (Nat.le_trans (by decide) (Nat.pow_le_pow_right (by decide) hbits))
  refine holds_cells_iff (f := fun v => .lookup (.range bits) [v]) (fun v => ?_) rfl
  constructor
  · rintro ⟨xs, hxs, hmem⟩
    obtain ⟨x, rfl⟩ := List.length_eq_one_iff.mp (by simpa using (congrArg List.length hxs).symm)
    exact ⟨x, by simpa using hxs, (hcontains x).mp hmem⟩
  · rintro ⟨x, rfl, hx⟩
    exact ⟨[x], rfl, (hcontains x).mpr hx⟩

theorem holds_boolean_iff :
    (boolean s).Holds σ n ↔ ∃ xs, σ.Reads n s xs ∧ ∀ x ∈ xs, x = 0 ∨ x = 1 := by
  refine holds_cells_iff (f := fun v => .vanishes (Arith.sub (Arith.mul v v) v)) (fun v => ?_) rfl
  cases v with
  | none =>
    constructor
    · intro h
      contradiction
    · rintro ⟨x, hx, -⟩
      contradiction
  | some x =>
    have hfactor : x * x - x = x * (x - 1) := by ring
    rw [Arith.mul_some, Arith.sub_some, Assertion.Holds, Option.some.injEq, hfactor]
    constructor
    · intro h
      refine ⟨x, rfl, ?_⟩
      exact (Native.mul_eq_zero h).imp id sub_eq_zero.mp
    · rintro ⟨y, hy, h⟩
      cases hy
      cases h with
      | inl h => rw [h, zero_mul]
      | inr h => rw [h, sub_self, mul_zero]

section Rules

variable {start len : Nat} (hbound : start + len ≤ n)

include hbound

theorem holds_rule_iff {rule : CellRule} {i : Instruction} {P : Native → Prop}
    (hrule : len ≠ 0 → Record.ruleInstruction? rule ⟨start, len⟩ = some i)
    (hi : i.Holds σ n ↔ ∃ xs, σ.Reads n ⟨start, len⟩ xs ∧ ∀ x ∈ xs, P x) :
    (∀ i ∈ (Record.ruleInstruction? rule ⟨start, len⟩).toList, i.Holds σ n) ↔
      ∃ xs, σ.Reads n ⟨start, len⟩ xs ∧ ∀ x ∈ xs, P x := by
  by_cases hlen : len = 0
  · -- no cells, no instruction
    subst hlen
    have hnil : σ.Reads n ⟨start, 0⟩ [] :=
      Store.reads_of_getElem hbound rfl fun i hi => by simp at hi
    simpa [Record.ruleInstruction?] using ⟨[], hnil, by simp⟩
  · simpa [hrule hlen] using hi

theorem holds_rule_range_iff {bits : Nat} :
    (∀ i ∈ (Record.ruleInstruction? (.range bits) ⟨start, len⟩).toList, i.Holds σ n) ↔
      ∃ xs, σ.Reads n ⟨start, len⟩ xs ∧ ∀ x ∈ xs, x.val < 2 ^ bits :=
  holds_rule_iff hbound (fun hlen => if_neg hlen) holds_range_iff

theorem holds_rule_boolean_iff :
    (∀ i ∈ (Record.ruleInstruction? .boolean ⟨start, len⟩).toList, i.Holds σ n) ↔
      ∃ xs, σ.Reads n ⟨start, len⟩ xs ∧ ∀ x ∈ xs, x = 0 ∨ x = 1 :=
  holds_rule_iff hbound (fun hlen => if_neg hlen) holds_boolean_iff

end Rules

theorem holds_constant_iff {target : CellSlice} {values : List Native} {assign : Bool} :
    (constant target values assign).Holds σ n ↔ σ.Reads n target values := by
  have hzero (v : Option Native) (c : Native) :
      (Assertion.vanishes (Arith.subConst v c)).Holds σ ↔ v = some c := by
    cases v with
    | none => simp [Assertion.Holds, Arith.subConst, Arith.sub]
    | some x =>
      change some (x - c) = some 0 ↔ _
      rw [Option.some.injEq, sub_eq_zero, Option.some.injEq]
  have hall {vs : List (Option Native)} (hlen : vs.length = values.length) :
      (∀ a ∈ (vs.zip values).map (fun p => .vanishes (Arith.subConst p.1 p.2)),
        Assertion.Holds σ a) ↔ vs = values.map some := by
    rw [List.forall_mem_map, ← List.forall₂_eq_eq_eq, List.forall₂_map_right_iff,
      ← forall_mem_zip_iff hlen]
    simp only [hzero]
  constructor
  · rintro ⟨as, has, h⟩
    obtain ⟨vs, hvs, has⟩ := bind_eq_ok_iff.mp has
    obtain ⟨pairs, hpairs, has⟩ := bind_eq_ok_iff.mp has
    cases has
    obtain ⟨hlen, rfl⟩ := zipExact_eq_ok_iff.mp hpairs
    rw [Store.Reads, hvs, (hall hlen).mp h]
  · intro h
    have hlen : (values.map some).length = values.length := List.length_map _
    exact ⟨_, bind_eq_ok_iff.mpr ⟨_, h, bind_eq_ok_iff.mpr ⟨_, zipExact_eq_ok_iff.mpr ⟨hlen, rfl⟩, rfl⟩⟩,
      (hall hlen).mpr rfl⟩

theorem holds_copy_iff {source target : CellSlice} {xs : List Native} (h : σ.Reads n source xs)
    (htarget : target.stop ≤ n) : (copy source target).Holds σ n ↔ σ.Reads n target xs := by
  have hlen := h.length_eq
  constructor
  · rintro ⟨as, has, hall⟩
    cases has
    rw [List.forall_mem_singleton] at hall
    apply Store.reads_of_getElem htarget (hlen.trans hall.1)
    intro i hi
    obtain ⟨x, hsource, hx⟩ := hall.2 i (by omega)
    rw [h.getElem hi] at hsource
    rw [hsource]
    exact hx
  · intro h'
    refine ⟨_, rfl, ?_⟩
    rw [List.forall_mem_singleton]
    refine ⟨hlen.symm.trans h'.length_eq, ?_⟩
    intro i hi
    exact ⟨_, h.getElem (by omega), h'.getElem (by omega)⟩

theorem sub_selected_eq_zero_iff {β : Bool} {t f r : Native} :
    r - (f + Native.ofBool β * (t - f)) = 0 ↔ (if β then t else f) = r := by
  rw [sub_eq_zero, eq_comm]
  cases β with
  | false => rw [Native.ofBool, if_neg (by simp), zero_mul, add_zero, if_neg (by simp)]
  | true => rw [Native.ofBool, if_pos rfl, one_mul, add_sub_cancel, if_pos rfl]

theorem select_assertions_eq_ok {bit : Register .bit} {ifTrue ifFalse result : CellSlice} {β : Bool}
    {ts fs rs : List Native} (hbit : σ.Reads n bit.slice [Native.ofBool β])
    (hts : σ.Reads n ifTrue ts) (hfs : σ.Reads n ifFalse fs) (hrs : σ.Reads n result rs) :
    (select bit ifTrue ifFalse result).assertions (σ.cells n) =
      .ok ((((ts.zip fs).zip rs).map fun ((t, f), r) =>
        r - (f + Native.ofBool β * (t - f))).map fun d => .vanishes (some d)) := by
  have hget : (σ.cells n).get bit.start = .ok (some (Native.ofBool β)) :=
    hbit.get (i := 0) (by simp)
  change selectAssertions bit ifTrue ifFalse result (σ.cells n) = _
  unfold selectAssertions
  rw [hget, hts, hfs, hrs, List.map_map]
  change Except.ok ((((ts.map some).zip (fs.map some)).zip (rs.map some)).map _) = _
  rw [List.zip_map, List.zip_map, List.map_map]
  rfl

theorem holds_select_iff {bit : Register .bit} {ifTrue ifFalse result : CellSlice} {β : Bool}
    {ts fs rs : List Native} (hbit : σ.Reads n bit.slice [Native.ofBool β])
    (hts : σ.Reads n ifTrue ts) (hfs : σ.Reads n ifFalse fs) (hrs : σ.Reads n result rs)
    (hlent : ts.length = rs.length) (hlenf : fs.length = rs.length) :
    (select bit ifTrue ifFalse result).Holds σ n ↔ rs = if β then ts else fs := by
  have hzip : (ts.zip fs).length = rs.length := by
    rw [List.length_zip, hlent, hlenf, Nat.min_self]
  have hselected : (ts.zip fs).map (fun p => if β then p.1 else p.2) = if β then ts else fs := by
    cases β with
    | true => exact List.map_fst_zip (hlent.trans hlenf.symm).le
    | false => exact List.map_snd_zip (hlenf.trans hlent.symm).le
  rw [holds_vanishes_iff (select_assertions_eq_ok hbit hts hfs hrs), List.forall_mem_map, eq_comm,
    ← hselected, ← List.forall₂_eq_eq_eq, List.forall₂_map_left_iff, ← forall_mem_zip_iff hzip]
  simp only [sub_selected_eq_zero_iff]

end Instruction

namespace Identity

variable {P : FieldParams}

def wired (a b result carry : FieldRegister P) (low high : Nat) : Identity P where
  a := a
  b := b
  result := result
  carry := carry
  low := ⟨⟨low, P.witnessLimbs⟩, P.witnessLimbs⟩
  high := ⟨⟨high, P.witnessLimbs⟩, P.witnessLimbs⟩

def allocated (a b result : FieldRegister P) (k : Nat) : Identity P where
  a := a
  b := b
  result := result
  carry := ⟨k⟩
  low := ⟨⟨k + P.limbs, P.witnessLimbs⟩, P.witnessLimbs⟩
  high := ⟨⟨k + P.limbs + P.witnessLimbs, P.witnessLimbs⟩, P.witnessLimbs⟩

theorem assertions_eq_ok {V : Type} [Arith V] (combine : List V → List V → List V) {m : Identity P}
    {cells : CellValues V} {modulus : List Native} {a b result carry low high : List V}
    (hmodulus : P.encode P.modulus = .ok modulus) (ha : cells.slice m.a.slice = .ok a)
    (hb : cells.slice m.b.slice = .ok b) (hr : cells.slice m.result.slice = .ok result)
    (hc : cells.slice m.carry.slice = .ok carry)
    (hlow : (m.low.toList.mapM fun r => cells.get r.start) = .ok low)
    (hhigh : (m.high.toList.mapM fun r => cells.get r.start) = .ok high) :
    m.assertions combine cells = .ok ((quotientConstraints P
      (Arith.polySub (Arith.polySub (combine a b) result)
        (Arith.polyMul carry (Arith.constPoly modulus))) low high).map .vanishes) := by
  unfold assertions
  rw [ha, hb, hr, hc, hmodulus, hlow, hhigh]
  rfl

theorem assertions_of_reads (side : Side) {m : Identity P}
    {a b result carry low high modulus : List Native} (hmodulus : P.encode P.modulus = .ok modulus)
    (ha : σ.Reads n m.a.slice a) (hb : σ.Reads n m.b.slice b) (hr : σ.Reads n m.result.slice result)
    (hc : σ.Reads n m.carry.slice carry)
    (hlow : (m.low.toList.mapM fun r => (σ.cells n).get r.start) = .ok (low.map some))
    (hhigh : (m.high.toList.mapM fun r => (σ.cells n).get r.start) = .ok (high.map some)) :
    m.assertions side.combine (σ.cells n) =
      .ok ((quotientConstraints P (Arith.polySub (Arith.polySub (side.combine a b) result)
        (Arith.polyMul carry (Arith.constPoly modulus))) low high).map fun c =>
          .vanishes (some c)) := by
  have hcombine (as bs : List Native) :
      (side.combine as bs).map some = side.combine (as.map some) (bs.map some) := by
    cases side with
    | sum => exact Arith.hom_some.map_polyAdd as bs
    | product => exact Arith.hom_some.map_polyMul as bs
  have hmap := Identity.map_quotientConstraints Arith.hom_some P
    (Arith.polySub (Arith.polySub (side.combine a b) result)
      (Arith.polyMul carry (Arith.constPoly modulus))) low high
  rw [Arith.hom_some.map_polySub, Arith.hom_some.map_polySub, Arith.hom_some.map_polyMul,
    Arith.hom_some.map_constPoly, hcombine] at hmap
  rw [assertions_eq_ok side.combine hmodulus ha hb hr hc hlow hhigh, ← hmap, List.map_map]
  rfl

section Wired

variable [P.HasHeadroom] (side : Side) {f : Identity P → Instruction} {ra rb rr rc : FieldRegister P}
  {l h : Nat} {a b result carry low high : List Native}
  (hf : ∀ (m : Identity P) (vs : CellValues (Option Native)),
    (f m).assertions vs = m.assertions side.combine vs)
  (ha : σ.Reads n ra.slice a) (hb : σ.Reads n rb.slice b) (hr : σ.Reads n rr.slice result)
  (hc : σ.Reads n rc.slice carry) (hlow : σ.Reads n ⟨l, P.witnessLimbs⟩ low)
  (hhigh : σ.Reads n ⟨h, P.witnessLimbs⟩ high)

include hf ha hb hr hc hlow hhigh

theorem holds_wired_iff : (f (wired ra rb rr rc l h)).Holds σ n ↔
    ∀ c ∈ quotientConstraints P (vanishing P side a b result carry) low high, c = 0 := by
  apply Instruction.holds_vanishes_iff
  rw [hf]
  exact assertions_of_reads side (P.encode_eq_digits _) ha hb hr hc (hlow.mapM_get rfl)
    (hhigh.mapM_get rfl)

theorem apply_eq_of_holds (harange : P.InRange a) (hbrange : P.InRange b) (hrrange : P.InRange result)
    (hcrange : P.InRange carry) (hlowrange : P.InRange low) (hhighrange : P.InRange high)
    (hholds : (f (wired ra rb rr rc l h)).Holds σ n) :
    side.apply (P.decode a) (P.decode b) = P.decode result + P.decode carry * P.modulus :=
  apply_eq_of_constraints ha.length_eq hc.length_eq harange hbrange hrrange hcrange hlowrange
    hhighrange (hlow.length_eq.trans hhigh.length_eq.symm)
    ((holds_wired_iff side hf ha hb hr hc hlow hhigh).mp hholds)

end Wired

theorem holds_iff [P.HasHeadroom] {side : Side} {f : Identity P → Instruction} {ra rb rr : FieldRegister P}
    {k : Nat} {a b result carry low high : List Native}
    (hf : ∀ (m : Identity P) (vs : CellValues (Option Native)),
      (f m).assertions vs = m.assertions side.combine vs)
    (ha : σ.Reads n ra.slice a) (hb : σ.Reads n rb.slice b) (hr : σ.Reads n rr.slice result)
    (hc : σ.Reads n ⟨k, P.limbs⟩ carry) (hlow : σ.Reads n ⟨k + P.limbs, P.witnessLimbs⟩ low)
    (hhigh : σ.Reads n ⟨k + P.limbs + P.witnessLimbs, P.witnessLimbs⟩ high) :
    (f (allocated ra rb rr k)).Holds σ n ↔
      ∀ c ∈ quotientConstraints P (vanishing P side a b result carry) low high, c = 0 := by
  change (f (wired ra rb rr ⟨k⟩ (k + P.limbs) (k + P.limbs + P.witnessLimbs))).Holds σ n ↔ _
  exact holds_wired_iff side hf ha hb hr hc hlow hhigh

end Identity

end ForeignCurve
