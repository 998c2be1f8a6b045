import ForeignCurve.Proofs.Instruction.Holds

/-!
Exactness of the field identities. Where the parameters have headroom, limbs that pass their lookups
cannot satisfy the constraints of an identity over the native field alone: it holds over the integers.
-/

namespace ForeignCurve

namespace CellValues

def number {P : FieldParams} (cells : CellValues Native) (r : FieldRegister P) : Nat :=
  P.decode (cells.extract r.slice.start r.slice.stop).toList

end CellValues

namespace Instruction

def LookupsHold (i : Instruction) (cells : CellValues Native) : Prop :=
  ∃ as, i.assertions cells = .ok as ∧
    ∀ table values, .lookup table values ∈ as → table.contains (values.map (·.val))

def ConstraintsVanish (i : Instruction) (cells : CellValues Native) : Prop :=
  ∀ as, i.assertions cells = .ok as → ∀ value, .vanishes value ∈ as → value = 0

theorem lookupsHold_range_iff {bits : Nat} (hbits : bits < 64) {s : CellSlice}
    {cells : CellValues Native} :
    (range bits s).LookupsHold cells ↔ ∃ xs, cells.slice s = .ok xs ∧ ∀ x ∈ xs, x.val < 2 ^ bits := by
  constructor
  · rintro ⟨as, has, hlookups⟩
    obtain ⟨xs, hxs, has⟩ := bind_eq_ok_iff.mp has
    cases has
    refine ⟨xs, hxs, ?_⟩
    intro x hx
    have hcontains := hlookups (.range bits) [x] (List.mem_map_of_mem hx)
    simpa [LookupTable.contains, Nat.not_le.mpr hbits] using hcontains
  · rintro ⟨xs, hxs, hlt⟩
    refine ⟨_, bind_eq_ok_iff.mpr ⟨xs, hxs, rfl⟩, ?_⟩
    intro table values hmem
    obtain ⟨x, hx, heq⟩ := List.mem_map.mp hmem
    cases heq
    simp [LookupTable.contains, hlt x hx]

theorem constraintsVanish_iff {i : Instruction} {cells : CellValues Native} {ds : List Native}
    (h : i.assertions cells = .ok (ds.map .vanishes)) :
    i.ConstraintsVanish cells ↔ ∀ d ∈ ds, d = 0 := by
  constructor
  · intro hvanish d hd
    exact hvanish _ h d (List.mem_map_of_mem hd)
  · intro hzero as has value hmem
    rw [h] at has
    cases has
    obtain ⟨d, hd, heq⟩ := List.mem_map.mp hmem
    rw [← Assertion.vanishes.inj heq]
    exact hzero d hd

end Instruction

namespace Identity

variable {P : FieldParams}

def runs (m : Identity P) : List CellSlice :=
  [m.a.slice, m.b.slice, m.result.slice, m.carry.slice, m.low.slice, m.high.slice]

theorem apply_number_eq [P.HasHeadroom] (s : Side) {f : Identity P → Instruction}
    (hf : ∀ (m : Identity P) (vs : CellValues Native),
      (f m).assertions vs = m.assertions s.combine vs)
    {a b result carry : FieldRegister P} {low high : Nat} {cells : CellValues Native}
    (hlimbs : ∀ r ∈ (Identity.wired a b result carry low high).runs,
      (Instruction.range P.limbBits r).LookupsHold cells)
    (h : (f (.wired a b result carry low high)).ConstraintsVanish cells) :
    s.apply (cells.number a) (cells.number b) =
      cells.number result + cells.number carry * P.modulus := by
  have hslice (r : CellSlice) (hr : r ∈ (Identity.wired a b result carry low high).runs) :
      ∃ xs, cells.slice r = .ok xs ∧ P.InRange xs :=
    (Instruction.lookupsHold_range_iff P.limbBits_lt).mp (hlimbs r hr)
  have hnumber {r : FieldRegister P} {xs : List Native} (hxs : cells.slice r.slice = .ok xs) :
      cells.number r = P.decode xs := by
    rw [CellValues.number, (CellValues.slice_eq_ok_iff.mp hxs).2]
  obtain ⟨as, ha, harange⟩ := hslice a.slice (by simp [runs, wired])
  obtain ⟨bs, hb, hbrange⟩ := hslice b.slice (by simp [runs, wired])
  obtain ⟨rs, hr, hrrange⟩ := hslice result.slice (by simp [runs, wired])
  obtain ⟨cs, hc, hcrange⟩ := hslice carry.slice (by simp [runs, wired])
  obtain ⟨ls, hlow, hlowrange⟩ := hslice ⟨low, P.witnessLimbs⟩ (by simp [runs, wired])
  obtain ⟨hs, hhigh, hhighrange⟩ := hslice ⟨high, P.witnessLimbs⟩ (by simp [runs, wired])
  have hzero := (Instruction.constraintsVanish_iff
    ((hf _ _).trans (assertions_eq_ok s.combine (P.encode_eq_digits _) ha hb hr hc
      (CellValues.mapM_get_of_slice rfl hlow) (CellValues.mapM_get_of_slice rfl hhigh)))).mp h
  rw [hnumber ha, hnumber hb, hnumber hr, hnumber hc]
  have hlen := (CellValues.length_of_slice hlow).trans (CellValues.length_of_slice hhigh).symm
  exact apply_eq_of_constraints (CellValues.length_of_slice ha) (CellValues.length_of_slice hc)
    harange hbrange hrrange hcrange hlowrange hhighrange hlen hzero

/--
Headroom makes the field identities exact. Where every limb of an identity passes its lookup, cells that
satisfy the constraints of a product, a sum or a difference satisfy it over the integers.
-/
theorem exact_of_headroom {P : FieldParams} (hP : P.headroom = .ok ())
    {a b result carry : FieldRegister P} {low high : Nat} {cells : CellValues Native}
    (hlimbs : ∀ r ∈ (wired a b result carry low high).runs,
      (Instruction.range P.limbBits r).LookupsHold cells) :
    ((Instruction.fieldProduct P (.wired a b result carry low high)).ConstraintsVanish cells →
      cells.number a * cells.number b = cells.number result + cells.number carry * P.modulus) ∧
    ((Instruction.fieldSum P (.wired a b result carry low high)).ConstraintsVanish cells →
      cells.number a + cells.number b = cells.number result + cells.number carry * P.modulus) ∧
    ((Instruction.fieldDifference P (.wired b result a carry low high)).ConstraintsVanish cells →
      cells.number b + cells.number result = cells.number a + cells.number carry * P.modulus) := by
  have : P.HasHeadroom := ⟨hP⟩
  refine ⟨?product, ?sum, ?difference⟩
  case product =>
    intro h
    exact apply_number_eq .product (f := .fieldProduct P) (fun _ _ => rfl) hlimbs h
  case sum =>
    intro h
    exact apply_number_eq .sum (f := .fieldSum P) (fun _ _ => rfl) hlimbs h
  case difference =>
    intro h
    -- the difference is recorded as a sum whose result is `a`
    refine apply_number_eq .sum (f := .fieldDifference P) (fun _ _ => rfl) ?_ h
    intro r hr
    apply hlimbs
    simp only [runs, wired, List.mem_cons, List.not_mem_nil, or_false] at hr ⊢
    tauto

theorem exact_of_headroom_product :
    let P : FieldParams := ⟨4, 2, 2, 32, 251⟩
    let cells : CellValues Native := #[8, 12, 4, 6, 11, 10, 15, 4, 9, 12, 2, 2]
    P.headroom = .ok () ∧
      (∀ r ∈ (wired (P := P) ⟨0⟩ ⟨2⟩ ⟨4⟩ ⟨6⟩ 8 10).runs,
        (Instruction.range 4 r).LookupsHold cells) ∧
      (Instruction.fieldProduct P (.wired ⟨0⟩ ⟨2⟩ ⟨4⟩ ⟨6⟩ 8 10)).ConstraintsVanish cells ∧
      cells.number (P := P) ⟨0⟩ * cells.number (P := P) ⟨2⟩ =
        cells.number (P := P) ⟨4⟩ + cells.number (P := P) ⟨6⟩ * 251 := by
  -- the product `200 * 100 = 171 + 79 * 251`
  intro P cells
  have hheadroom : P.headroom = .ok () := by decide
  have hslice : ∀ start ∈ [0, 2, 4, 6, 8, 10],
      ∃ xs, cells.slice ⟨start, 2⟩ = .ok xs ∧ ∀ x ∈ xs, x.val < 2 ^ 4 := by
    have hpair {x y : Native} (hx : x.val < 2 ^ 4) (hy : y.val < 2 ^ 4) :
        ∀ z ∈ [x, y], z.val < 2 ^ 4 := by
      rw [List.forall_mem_cons, List.forall_mem_singleton]
      exact ⟨hx, hy⟩
    simp only [List.forall_mem_cons]
    exact ⟨⟨[8, 12], rfl, hpair (by decide) (by decide)⟩, ⟨[4, 6], rfl, hpair (by decide) (by decide)⟩,
      ⟨[11, 10], rfl, hpair (by decide) (by decide)⟩, ⟨[15, 4], rfl, hpair (by decide) (by decide)⟩,
      ⟨[9, 12], rfl, hpair (by decide) (by decide)⟩, ⟨[2, 2], rfl, hpair (by decide) (by decide)⟩,
      by simp⟩
  have hlookups : ∀ r ∈ (wired (P := P) ⟨0⟩ ⟨2⟩ ⟨4⟩ ⟨6⟩ 8 10).runs,
      (Instruction.range 4 r).LookupsHold cells := by
    change ∀ r ∈ [0, 2, 4, 6, 8, 10].map fun start => (⟨start, 2⟩ : CellSlice), _
    rw [List.forall_mem_map]
    exact fun start hstart => (Instruction.lookupsHold_range_iff (by decide)).mpr (hslice start hstart)
  have hvanish : (Instruction.fieldProduct P (.wired ⟨0⟩ ⟨2⟩ ⟨4⟩ ⟨6⟩ 8 10)).ConstraintsVanish cells := by
    have : P.HasHeadroom := ⟨hheadroom⟩
    have hassertions : (Instruction.fieldProduct P (.wired ⟨0⟩ ⟨2⟩ ⟨4⟩ ⟨6⟩ 8 10)).assertions cells =
        .ok ((quotientConstraints P (vanishing P .product [8, 12] [4, 6] [11, 10] [15, 4])
          [9, 12] [2, 2]).map .vanishes) :=
      assertions_eq_ok (Side.combine .product) (P.encode_eq_digits _) rfl rfl rfl rfl rfl rfl
    have hzero : quotientConstraints P (vanishing P .product [8, 12] [4, 6] [11, 10] [15, 4])
        [9, 12] [2, 2] = [0, 0, 0] := by decide +kernel
    exact (Instruction.constraintsVanish_iff hassertions).mpr (by simp [hzero])
  exact ⟨hheadroom, hlookups, hvanish, (exact_of_headroom hheadroom hlookups).1 hvanish⟩

end Identity

end ForeignCurve
