import ForeignCurve.Proofs.Circuit.Rows
import ForeignCurve.Proofs.Instruction.Footprint
import ForeignCurve.Proofs.Instruction.Holds

namespace ForeignCurve

theorem filterMap_eq_of_nodup {β : Type} {is : List Nat} (h : is.Nodup) (j : Nat) (b : β) :
    is.filterMap (fun i => if i = j then some b else none) = if j ∈ is then [b] else [] := by
  induction is with
  | nil => rfl
  | cons i is ih => grind

def Expr.boolean (c : Cell) : Expr :=
  .difference (.product (.cell c) (.cell c)) (.cell c)

namespace CellRule

def tables : CellRule → List LookupTable
  | free | boolean => []
  | range bits => [.range bits]

def Allows : CellRule → Native → Prop
  | free, _ => True
  | boolean, x => x = 0 ∨ x = 1
  | range bits, x => x.val < 2 ^ bits

end CellRule

namespace Circuit

def tables (c : Circuit) (cell : Cell) : List LookupTable :=
  c.lookups.toList.filterMap fun lookup => if lookup.2 = [.cell cell] then some lookup.1 else none

def IsBoolean (c : Circuit) (cell : Cell) : Prop :=
  ∃ gate ∈ c.gates.toList, Expr.boolean cell ∈ gate

variable {cell : Cell}

theorem tables_concat (cs : List Circuit) : (concat cs).tables cell = cs.flatMap (·.tables cell) := by
  induction cs with
  | nil => rfl
  | cons c cs ih =>
    rw [concat_cons, append_def, List.flatMap_cons, ← ih]
    unfold tables
    rw [Array.toList_append, List.filterMap_append]

theorem isBoolean_concat_iff {cs : List Circuit} :
    (concat cs).IsBoolean cell ↔ ∃ c ∈ cs, c.IsBoolean cell := by
  induction cs with
  | nil => simp [IsBoolean, concat, empty]
  | cons c cs ih =>
    rw [concat_cons, append_def, List.exists_mem_cons_iff, ← ih]
    unfold IsBoolean
    simp only [Array.toList_append, List.mem_append, or_and_right, exists_or]

theorem isBoolean_ofAssertions_iff {l : Layout} {as : List (Assertion Expr)} :
    (ofAssertions l as).IsBoolean cell ↔ .vanishes (Expr.boolean cell) ∈ as := by
  rw [← Assertion.mem_vanishing]
  unfold IsBoolean ofAssertions
  dsimp only
  split
  · next hempty => simp [List.isEmpty_iff.mp hempty]
  · simp

end Circuit

section Shape

namespace Expr

def IsCell (e : Expr) : Prop :=
  ∃ c, e = .cell c

def IsProductLess (e : Expr) : Prop :=
  ∃ a b c, e = .difference (.product a b) (.cell c)

theorem isProductLess_boolean (c : Cell) : (boolean c).IsProductLess :=
  ⟨_, _, _, rfl⟩

theorem not_isProductLess_difference {a b : Expr} (h : ¬ b.IsCell) : ¬ (difference a b).IsProductLess := by
  rintro ⟨x, y, c, he⟩
  cases he
  exact h ⟨c, rfl⟩

theorem not_isProductLess_sum_difference (a b c : Expr) : ¬ (difference (sum a b) c).IsProductLess := by
  rintro ⟨x, y, d, he⟩
  cases he

theorem not_isCell_sum (a b : Expr) : ¬ (sum a b).IsCell := by
  rintro ⟨c, he⟩
  contradiction

theorem not_isCell_product (a b : Expr) : ¬ (product a b).IsCell := by
  rintro ⟨c, he⟩
  contradiction

end Expr

namespace Arith

variable {V : Type} [Arith V] {P : V → Prop}

theorem forall_mem_polyAdd {as bs : List V} (hadd : ∀ a b, P (add a b)) (has : ∀ a ∈ as, P a)
    (hbs : ∀ b ∈ bs, P b) : ∀ e ∈ polyAdd as bs, P e := by
  fun_induction polyAdd as bs with
  | case1 bs => exact hbs
  | case2 as => exact has
  | case3 a as b bs ih =>
    rw [List.forall_mem_cons] at has hbs ⊢
    exact ⟨hadd a b, ih has.2 hbs.2⟩

theorem forall_mem_polySub {as bs : List V} (hsub : ∀ a, ∀ b ∈ bs, P (sub a b)) (hneg : ∀ b, P (neg b))
    (has : bs.length < as.length → ∀ a ∈ as, P a) : ∀ e ∈ polySub as bs, P e := by
  fun_induction polySub as bs with
  | case1 bs => exact List.forall_mem_map.mpr fun b _ => hneg b
  | case2 as hne =>
    -- coefficients past the end of the other operand are kept as they are
    cases as with
    | nil => exact fun e he => by contradiction
    | cons a as => exact has (Nat.succ_pos _)
  | case3 a as b bs ih =>
    rw [List.forall_mem_cons]
    refine ⟨hsub a b List.mem_cons_self, ih (fun a b hb => hsub a b (List.mem_cons_of_mem _ hb)) ?_⟩
    exact fun hlt a' ha' => has (Nat.succ_lt_succ hlt) a' (List.mem_cons_of_mem _ ha')

theorem forall_mem_mulAcc {row : V → List V} (hadd : ∀ a b, P (add a b)) (hrow : ∀ a, ∀ e ∈ row a, P e)
    {acc : List V} (hacc : ∀ e ∈ acc, P e) (as : List V) : ∀ e ∈ mulAcc row acc as, P e := by
  fun_induction mulAcc row acc as with
  | case1 acc => exact hacc
  | case2 acc a as hnil ih => exact ih fun e he => by contradiction
  | case3 acc a as c cs hcons ih =>
    have hsum := forall_mem_polyAdd hadd hacc (hrow a)
    rw [hcons, List.forall_mem_cons] at hsum
    rw [List.forall_mem_cons]
    exact ⟨hsum.1, ih hsum.2⟩

end Arith

open ForeignCurve.Expr

def Assertion.Compound : Assertion Expr → Prop
  | vanishes e => ¬ e.IsProductLess
  | lookup _ _ => False
  | link _ _ => True

namespace LimbSum

theorem compound_differences (base : Native) (carryIn : Option Expr) (as bs rs carries : List Expr) :
    ∀ e ∈ differences base carryIn as bs rs carries, ¬ e.IsProductLess := by
  fun_induction differences base carryIn as bs rs carries with
  | case1 carryIn a as b bs r rs carries lhs lhs' rhs ih =>
    rw [List.forall_mem_cons]
    refine ⟨?_, ih⟩
    cases carryIn with
    | none => exact not_isProductLess_sum_difference a b _
    | some c => exact not_isProductLess_sum_difference _ c _
  | case2 => exact fun e he => by contradiction

end LimbSum

namespace Identity

variable {P : FieldParams}

theorem compound_assertions {combine : List Expr → List Expr → List Expr} {m : Identity P}
    {vs : CellValues Expr} {as : List (Assertion Expr)}
    (hcombine : ∀ as bs : List Expr, as.length = P.limbs → bs.length = P.limbs →
      (combine as bs).length ≤ 2 * P.limbs - 1)
    (h : m.assertions combine vs = .ok as) : ∀ a ∈ as, a.Compound := by
  -- the carry times the modulus has at least as many coefficients as what it is taken from
  obtain ⟨xs, hxs, h⟩ := bind_eq_ok_iff.mp h
  obtain ⟨ys, hys, h⟩ := bind_eq_ok_iff.mp h
  obtain ⟨rs, hrs, h⟩ := bind_eq_ok_iff.mp h
  obtain ⟨cs, hcs, h⟩ := bind_eq_ok_iff.mp h
  obtain ⟨modulus, hmodulus, h⟩ := bind_eq_ok_iff.mp h
  obtain ⟨low, -, h⟩ := bind_eq_ok_iff.mp h
  obtain ⟨high, -, h⟩ := bind_eq_ok_iff.mp h
  cases h
  have hmultiple : ∀ w : List Expr, ∀ e ∈ Arith.polyMulConst w [-(base P), 1], ¬ e.IsCell := fun w =>
    Arith.forall_mem_mulAcc not_isCell_sum (fun a => List.forall_mem_map.mpr fun c _ =>
      not_isCell_product a _) (fun e he => by contradiction) w
  have hcarry : ∀ e ∈ Arith.polyMul cs (Arith.constPoly modulus), ¬ e.IsCell :=
    Arith.forall_mem_mulAcc not_isCell_sum (fun a => List.forall_mem_map.mpr fun c _ =>
      not_isCell_product a c) (fun e he => by contradiction) cs
  have hneg (e : Expr) : ¬ (negation e).IsProductLess := by
    rintro ⟨x, y, c, he⟩
    contradiction
  -- A product less a cell has the form of a boolean rule. `polySub` keeps what the second operand does not
  -- reach, so the carry times the modulus must reach every coefficient.
  have hlen : (Arith.polySub (combine xs ys) rs).length ≤
      (Arith.polyMul cs (Arith.constPoly modulus)).length := by
    have hlimbs := CellValues.length_of_slice hcs
    have hmoduluslen := FieldParams.length_encode hmodulus
    have hcombined := hcombine xs ys (CellValues.length_of_slice hxs) (CellValues.length_of_slice hys)
    have hresult := CellValues.length_of_slice hrs
    change cs.length = P.limbs at hlimbs
    change rs.length = P.limbs at hresult
    rw [Arith.length_polySub, hresult]
    by_cases hzero : P.limbs = 0
    · omega
    · rw [Arith.length_polyMul (List.ne_nil_of_length_pos (by omega))
        (List.ne_nil_of_length_pos (by rw [Arith.constPoly, List.length_map]; omega)), hlimbs,
        Arith.constPoly, List.length_map, hmoduluslen]
      omega
  refine List.forall_mem_map.mpr (Arith.forall_mem_polySub ?_ hneg fun _ => ?_)
  · exact fun a b hb => not_isProductLess_difference (hmultiple _ b hb)
  · refine Arith.forall_mem_polySub ?_ hneg fun hlt => absurd hlt (Nat.not_lt.mpr hlen)
    exact fun a b hb => not_isProductLess_difference (hcarry b hb)

end Identity

namespace Instruction

def isCellRule : Instruction → Bool
  | boolean _ | range .. => true
  | _ => false

variable {i : Instruction} {l : Layout} {n : Nat} {c : Circuit}

theorem compound_weightedSum {acc : Expr} {power : Native} (vs : List Expr)
    (hacc : ∀ x, ¬ (difference acc x).IsProductLess) :
    ∀ x, ¬ (difference (weightedSum acc power vs) x).IsProductLess := by
  induction vs generalizing acc power with
  | nil => exact hacc
  | cons v vs ih => exact ih (not_isProductLess_sum_difference acc _)

theorem compound_of_not_isCellRule {as : List (Assertion Expr)}
    (h : i.assertions (Emitter.empty l n).cells = .ok as) (hi : i.isCellRule = false) :
    ∀ a ∈ as, a.Compound := by
  cases i with
  | boolean cells | range bits cells => contradiction
  | constant target values assign =>
    obtain ⟨xs, -, h⟩ := bind_eq_ok_iff.mp h
    obtain ⟨pairs, -, h⟩ := bind_eq_ok_iff.mp h
    cases h
    refine List.forall_mem_map.mpr fun p _ => not_isProductLess_difference ?_
    rintro ⟨d, hd⟩
    contradiction
  | copy source target =>
    cases h
    exact List.forall_mem_singleton.mpr trivial
  | select bit ifTrue ifFalse result =>
    obtain ⟨x, -, h⟩ := bind_eq_ok_iff.mp h
    obtain ⟨ts, -, h⟩ := bind_eq_ok_iff.mp h
    obtain ⟨fs, -, h⟩ := bind_eq_ok_iff.mp h
    obtain ⟨rs, -, h⟩ := bind_eq_ok_iff.mp h
    cases h
    exact List.forall_mem_map.mpr fun p _ => not_isProductLess_difference (not_isCell_sum _ _)
  | decompose value bits =>
    obtain ⟨x, -, h⟩ := bind_eq_ok_iff.mp h
    obtain ⟨xs, -, h⟩ := bind_eq_ok_iff.mp h
    cases h
    refine List.forall_mem_singleton.mpr (compound_weightedSum xs (fun x => ?_) _)
    rintro ⟨a, b, d, hd⟩
    cases hd
  | limbSum sum =>
    obtain ⟨xs, -, h⟩ := bind_eq_ok_iff.mp h
    obtain ⟨ys, -, h⟩ := bind_eq_ok_iff.mp h
    obtain ⟨rs, -, h⟩ := bind_eq_ok_iff.mp h
    obtain ⟨cs, -, h⟩ := bind_eq_ok_iff.mp h
    obtain ⟨-, h⟩ := of_unless h
    obtain ⟨base, -, h⟩ := bind_eq_ok_iff.mp h
    cases h
    exact List.forall_mem_map.mpr (LimbSum.compound_differences base none xs ys rs cs)
  | fieldSum P m | fieldDifference P m =>
    refine Identity.compound_assertions (fun xs ys hxs hys => ?_) h
    rw [Arith.length_polyAdd, hxs, hys]
    omega
  | fieldProduct P m =>
    refine Identity.compound_assertions (fun xs ys hxs hys => ?_) h
    by_cases hzero : P.limbs = 0
    · rw [List.eq_nil_of_length_eq_zero (hxs.trans hzero)]
      exact Nat.zero_le _
    · rw [Arith.length_polyMul (List.ne_nil_of_length_pos (by omega))
        (List.ne_nil_of_length_pos (by omega)), hxs, hys]
      omega
  | greaterThan | inverse | slope =>
    cases h
    exact fun a ha => by contradiction

def cellRules : Instruction → Nat → List CellRule
  | boolean s, j => if j ∈ s.indices then [.boolean] else []
  | range bits s, j => if j ∈ s.indices then [.range bits] else []
  | _, _ => []

theorem cellRules_of_not_isCellRule (hi : i.isCellRule = false) (j : Nat) : i.cellRules j = [] := by
  cases i with
  | boolean s | range bits s => contradiction
  | _ => rfl

theorem cellRules_ruleInstruction? (rule : CellRule) (s : CellSlice) (j : Nat) :
    (Record.ruleInstruction? rule s).toList.flatMap (·.cellRules j) =
      if j ∈ s.indices ∧ rule ≠ .free then [rule] else [] := by
  unfold Record.ruleInstruction?
  split
  · next hlen =>
    rw [if_neg]
    · rfl
    · rintro ⟨hj, -⟩
      simp [CellSlice.indices, hlen] at hj
  · cases rule with
    | free => simp
    | boolean | range bits => simp [cellRules]

theorem Holds.allows {σ : Store} {rule : CellRule} {j : Nat} (h : i.Holds σ n)
    (hrule : rule ∈ i.cellRules j) : ∃ x, σ j = some x ∧ rule.Allows x := by
  have hread {s : CellSlice} {xs : List Native} {Q : Native → Prop} (hxs : σ.Reads n s xs)
      (hj : j ∈ s.indices) (hQ : ∀ x ∈ xs, Q x) : ∃ x, σ j = some x ∧ Q x := by
    have hmem : σ j ∈ xs.map some := (Store.reads_iff.mp hxs).2 ▸ List.mem_map_of_mem hj
    obtain ⟨x, hx, heq⟩ := List.mem_map.mp hmem
    exact ⟨x, heq.symm, hQ x hx⟩
  cases i with
  | boolean s =>
    obtain ⟨xs, hxs, hbits⟩ := holds_boolean_iff.mp h
    obtain ⟨hj, rfl⟩ : j ∈ s.indices ∧ rule = .boolean := by simpa [cellRules] using hrule
    exact hread hxs hj hbits
  | range bits s =>
    obtain ⟨xs, hxs, hlt⟩ := holds_range_iff.mp h
    obtain ⟨hj, rfl⟩ : j ∈ s.indices ∧ rule = .range bits := by simpa [cellRules] using hrule
    exact hread hxs hj hlt
  | _ => contradiction

theorem tables_circuit (h : i.circuit l n = .ok c) (j : Nat) :
    c.tables (l.cell j) = (i.cellRules j).flatMap CellRule.tables := by
  obtain ⟨as, has, -, rfl⟩ := circuit_eq_ok_iff.mp h
  have hnone (has : ∀ lookup, lookup ∉ Assertion.lookups as) :
      (Circuit.ofAssertions l as).tables (l.cell j) = [] := by
    unfold Circuit.tables Circuit.ofAssertions
    dsimp only
    rw [List.eq_nil_iff_forall_not_mem.mpr has]
    rfl
  -- Only the two rules of single cells look anything up; every other assertion is compound.
  cases hi : i.isCellRule with
  | false =>
    rw [cellRules_of_not_isCellRule hi]
    refine hnone fun lookup hlookup => ?_
    exact compound_of_not_isCellRule has hi _ (Assertion.mem_lookups.mp hlookup)
  | true =>
    cases i with
    | boolean s =>
      obtain ⟨es, -, has⟩ := bind_eq_ok_iff.mp has
      cases has
      have htables : ((boolean s).cellRules j).flatMap CellRule.tables = [] := by
        change (if j ∈ s.indices then [CellRule.boolean] else []).flatMap _ = _
        split
        · rfl
        · rfl
      rw [htables]
      refine hnone fun lookup hlookup => ?_
      simp [Assertion.mem_lookups] at hlookup
    | range bits s =>
      obtain ⟨es, hes, has⟩ := bind_eq_ok_iff.mp has
      obtain ⟨-, rfl⟩ := slice_cells_eq_ok_iff.mp hes
      cases has
      have hlookups : Assertion.lookups ((s.indices.map fun j => Expr.cell (l.cell j)).map fun v =>
          .lookup (.range bits) [v]) = s.indices.map fun j => (.range bits, [.cell (l.cell j)]) := by
        simp [Assertion.lookups, List.filterMap_map, Function.comp_def]
      have htables : ((range bits s).cellRules j).flatMap CellRule.tables =
          if j ∈ s.indices then [.range bits] else [] := by
        change (if j ∈ s.indices then [CellRule.range bits] else []).flatMap _ = _
        split
        · rfl
        · rfl
      unfold Circuit.tables Circuit.ofAssertions
      rw [htables, hlookups, List.filterMap_map]
      have hcell (i : Nat) : ([Expr.cell (l.cell i)] = [.cell (l.cell j)]) = (i = j) := by
        simp [Layout.cell_inj]
      change s.indices.filterMap (fun i => if [Expr.cell (l.cell i)] = [.cell (l.cell j)] then _ else _) = _
      simp only [hcell]
      exact filterMap_eq_of_nodup (List.nodup_range' 1) j _
    | _ => contradiction

theorem isBoolean_circuit_iff (h : i.circuit l n = .ok c) {j : Nat} :
    c.IsBoolean (l.cell j) ↔ .boolean ∈ i.cellRules j := by
  obtain ⟨as, has, -, rfl⟩ := circuit_eq_ok_iff.mp h
  rw [Circuit.isBoolean_ofAssertions_iff]
  cases hi : i.isCellRule with
  | false =>
    rw [cellRules_of_not_isCellRule hi]
    refine iff_of_false (fun hmem => ?_) List.not_mem_nil
    exact compound_of_not_isCellRule has hi _ hmem (isProductLess_boolean _)
  | true =>
    cases i with
    | boolean s =>
      obtain ⟨es, hes, has⟩ := bind_eq_ok_iff.mp has
      obtain ⟨-, rfl⟩ := slice_cells_eq_ok_iff.mp hes
      cases has
      have hrule : .boolean ∈ (boolean s).cellRules j ↔ j ∈ s.indices := by simp [cellRules]
      rw [hrule]
      constructor
      · intro hmem
        obtain ⟨e, he, hmem⟩ := List.mem_map.mp hmem
        obtain ⟨j', hj', rfl⟩ := List.mem_map.mp he
        have hcell : l.cell j' = l.cell j := Expr.cell.inj (Expr.difference.inj (Assertion.vanishes.inj hmem)).2
        exact Layout.cell_inj.mp hcell ▸ hj'
      · intro hj
        exact List.mem_map.mpr ⟨_, List.mem_map_of_mem hj, rfl⟩
    | range bits s =>
      obtain ⟨es, hes, has⟩ := bind_eq_ok_iff.mp has
      cases has
      simp [cellRules]
    | _ => contradiction

end Instruction

end Shape

namespace Chip

variable {c : Chip} {circuit : Circuit} {l : Layout} (h : c.manifest.required ≤ l.width)
  (hemit : c.emit l.width = .ok circuit) (j : Nat)

include h hemit

theorem tables_emit : circuit.tables (l.cell j) =
    (c.instructions.toList.flatMap (·.cellRules j)).flatMap CellRule.tables := by
  obtain ⟨cs, hcs, rfl⟩ := (emit_eq_ok_iff h).mp hemit
  rw [Circuit.tables_concat, List.flatMap_assoc]
  clear hemit
  generalize c.instructions.toList = is at hcs
  induction hcs with
  | nil => rfl
  | cons hc _ ih => rw [List.flatMap_cons, List.flatMap_cons, ih, Instruction.tables_circuit hc]

theorem isBoolean_emit_iff : circuit.IsBoolean (l.cell j) ↔
    .boolean ∈ c.instructions.toList.flatMap (·.cellRules j) := by
  obtain ⟨cs, hcs, rfl⟩ := (emit_eq_ok_iff h).mp hemit
  rw [Circuit.isBoolean_concat_iff, List.mem_flatMap]
  clear hemit
  generalize c.instructions.toList = is at hcs
  induction hcs with
  | nil => simp
  | cons hc _ ih =>
    rw [List.exists_mem_cons_iff, List.exists_mem_cons_iff, ih, Instruction.isBoolean_circuit_iff hc]

end Chip

end ForeignCurve
