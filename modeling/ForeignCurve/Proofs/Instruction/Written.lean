import ForeignCurve.Proofs.Instruction.Digits
import ForeignCurve.Proofs.Instruction.LimbSum

namespace ForeignCurve

open Polynomial Fin.CommRing

variable {t : Trace} {σ : Store} {n : Nat}

namespace Native

theorem val_of_ofWord {w : Nat} {x : Native} (h : ofWord w = .ok x) : x.val = w := by
  unfold ofWord at h
  split at h
  · cases h
    rfl
  · contradiction

theorem map_val_of_ofWords {ws : List Nat} {xs : List Native} (h : ofWords ws = .ok xs) :
    xs.map (·.val) = ws := by
  induction ws generalizing xs with
  | nil =>
    cases h
    rfl
  | cons w ws ih =>
    obtain ⟨x, hx, h⟩ := bind_eq_ok_iff.mp h
    obtain ⟨rest, hrest, h⟩ := bind_eq_ok_iff.mp h
    cases h
    rw [List.map_cons, val_of_ofWord hx, ih hrest]

theorem eq_map_ofNat_of_ofWords {ws : List Nat} {xs : List Native} (h : ofWords ws = .ok xs) :
    xs = ws.map ofNat := by
  rw [← map_val_of_ofWords h, map_ofNat_val]

end Native

theorem Plan.written_ofExcept {x : Except Failure Plan} (h : (Plan.ofExcept x).Written σ n) :
    ∃ p, x = .ok p ∧ p.Written σ n := by
  cases x with
  | error f => contradiction
  | ok p => exact ⟨p, rfl, h⟩

namespace Identity

variable {P : FieldParams} {m : Identity P} {f : Identity P → Instruction}
  {a b result : List Native} {p : Plan}

theorem ofCoeffs_poly (side : Side) (a b : List Native) :
    ofCoeffs (side.poly a b).coeffs = ofCoeffs (side.combine a b) := by
  cases side with
  | sum => exact congrArg ofCoeffs (Poly.addCoeffs_eq a b)
  | product => exact (Poly.ofCoeffs_mulCoeffs a b).trans (Arith.ofCoeffs_polyMul a b).symm

theorem holds_of_witnessPlan (side : Side) {carry : Nat}
    (hf : ∀ vs : CellValues (Option Native), (f m).assertions vs = m.assertions side.combine vs)
    (h : m.witnessPlan (side.poly a b) result carry = .ok p) (hwritten : p.Written σ n)
    (ha : σ.Reads n m.a.slice a) (hb : σ.Reads n m.b.slice b)
    (hr : σ.Reads n m.result.slice result) : (f m).Holds σ n := by
  obtain ⟨modulus, hmodulus, h⟩ := bind_eq_ok_iff.mp h
  obtain ⟨c, -, h⟩ := bind_eq_ok_iff.mp h
  obtain ⟨w, hw, h⟩ := bind_eq_ok_iff.mp h
  obtain ⟨low, hlow, h⟩ := bind_eq_ok_iff.mp h
  obtain ⟨high, hhigh, h⟩ := bind_eq_ok_iff.mp h
  cases h
  rw [liftM_abort_eq_ok_iff] at hmodulus hlow hhigh
  rw [liftM_fault_eq_ok_iff] at hw
  obtain rfl := Native.eq_map_ofNat_of_ofWords hlow
  obtain rfl := Native.eq_map_ofNat_of_ofWords hhigh
  obtain ⟨hcarry, hlows, hhighs, -⟩ := hwritten
  rw [Instruction.holds_vanishes_iff
    ((hf _).trans (assertions_of_reads side hmodulus ha hb hr hcarry hlows hhighs)), List.map_map,
    List.map_map]
  apply constraints_of_quotient hw
  change ofCoeffs (Poly.subCoeffs (Poly.subCoeffs (side.poly a b).coeffs result)
    (Poly.mulCoeffs c modulus)) = _
  rw [Poly.subCoeffs_eq, Poly.subCoeffs_eq, Arith.ofCoeffs_polySub, Arith.ofCoeffs_polySub,
    Arith.ofCoeffs_polySub, Arith.ofCoeffs_polySub, Poly.ofCoeffs_mulCoeffs,
    Arith.ofCoeffs_polyMul, Arith.constPoly_native, ofCoeffs_poly]

theorem holds_of_sumPlan
    (hf : ∀ vs : CellValues (Option Native), (f m).assertions vs = m.assertions Arith.polyAdd vs)
    (h : m.sumPlan a b = .ok p) (hwritten : p.Written σ n) (ha : σ.Reads n m.a.slice a)
    (hb : σ.Reads n m.b.slice b) : (f m).Holds σ n := by
  obtain ⟨residue, -, h⟩ := bind_eq_ok_iff.mp h
  obtain ⟨result, -, h⟩ := bind_eq_ok_iff.mp h
  cases h
  obtain ⟨hr, hrest⟩ := hwritten
  obtain ⟨rest, hplan, hrest⟩ := Plan.written_ofExcept hrest
  exact holds_of_witnessPlan .sum hf hplan hrest ha hb hr

theorem holds_of_differencePlan
    (hf : ∀ vs : CellValues (Option Native), (f m).assertions vs = m.assertions Arith.polyAdd vs)
    (h : m.differencePlan a result = .ok p) (hwritten : p.Written σ n)
    (ha : σ.Reads n m.a.slice a) (hr : σ.Reads n m.result.slice result) : (f m).Holds σ n := by
  obtain ⟨minuend, -, h⟩ := bind_eq_ok_iff.mp h
  obtain ⟨subtrahend, -, h⟩ := bind_eq_ok_iff.mp h
  obtain ⟨d, -, h⟩ := bind_eq_ok_iff.mp h
  obtain ⟨difference, -, h⟩ := bind_eq_ok_iff.mp h
  split at h
  · obtain ⟨excess, -, h⟩ := bind_eq_ok_iff.mp h
    obtain ⟨b, -, h⟩ := bind_eq_ok_iff.mp h
    cases h
    obtain ⟨hb, hrest⟩ := hwritten
    obtain ⟨rest, hplan, hrest⟩ := Plan.written_ofExcept hrest
    exact holds_of_witnessPlan .sum hf hplan hrest ha hb hr
  · contradiction

theorem holds_of_productPlan
    (hf : ∀ vs : CellValues (Option Native), (f m).assertions vs = m.assertions Arith.polyMul vs)
    (h : m.productPlan a b = .ok p) (hwritten : p.Written σ n) (ha : σ.Reads n m.a.slice a)
    (hb : σ.Reads n m.b.slice b) : (f m).Holds σ n := by
  obtain ⟨residue, -, h⟩ := bind_eq_ok_iff.mp h
  split at h
  · obtain ⟨result, -, h⟩ := bind_eq_ok_iff.mp h
    obtain ⟨rest, hplan, h⟩ := bind_eq_ok_iff.mp h
    cases h
    obtain ⟨hr, hrest⟩ := hwritten
    exact holds_of_witnessPlan .product hf hplan hrest ha hb hr
  · contradiction

end Identity

theorem LimbOperand.exists_reads {o : LimbOperand} {words : List Nat} {vs : List (Option Native)}
    (hread : o.read t = .ok words) (hle : t.store ≤ σ) (hvs : o.values (σ.cells t.numCells) = .ok vs) :
    ∃ xs : List Native, vs = xs.map some ∧ xs.map (·.val) = words := by
  cases o with
  | cells s =>
    obtain ⟨xs, hxs, h⟩ := bind_eq_ok_iff.mp hread
    cases h
    have hreads := (Trace.readSlice_eq_ok_iff.mp hxs).mono hle
    exact ⟨xs, Except.ok.inj (hvs.symm.trans hreads), rfl⟩
  | const limbs =>
    cases hread
    obtain ⟨xs, hxs, h⟩ := bind_eq_ok_iff.mp hvs
    cases h
    exact ⟨xs, rfl, Native.map_val_of_ofWords hxs⟩

namespace LimbSum

variable {sum : LimbSum} {p : Plan} {as : List (Assertion (Option Native))}

theorem holds_of_carriesPlan {xs ys zs : List Native} {a b r : List Nat}
    (h : sum.carriesPlan a b r = .ok p) (hwritten : p.Written σ n) (ha : σ.Reads n sum.a xs)
    (hb : sum.b.Reads σ n ys) (hr : sum.result.Reads σ n zs) (hxs : xs.map (·.val) = a)
    (hys : ys.map (·.val) = b) (hzs : zs.map (·.val) = r)
    (has : sum.assertions (σ.cells n) = .ok as) : ∀ x ∈ as, x.Holds σ := by
  subst hxs hys hzs
  obtain ⟨cs, hcs, h⟩ := bind_eq_ok_iff.mp h
  cases h
  have hzero := (carries_of_carryBits hcs).differences_eq_zero none rfl
  obtain ⟨-, base, hbase, rfl⟩ := (assertions_eq_ok_iff ha hb hr hwritten.1).mp has
  have hval := Native.val_of_ofWord hbase
  rw [← hval, Native.ofNat_val] at hzero
  rw [List.forall_mem_map]
  exact fun d hd => congrArg some (hzero d hd)

theorem written_of_derivedPlan {derived : CellSlice} {limbs : List Nat} {rest : Except Failure Plan}
    (h : derivedPlan derived limbs rest = .ok p) (hwritten : p.Written σ n) :
    ∃ zs carries, σ.Reads n derived zs ∧ zs.map (·.val) = limbs ∧ rest = .ok carries ∧
      carries.Written σ n := by
  obtain ⟨zs, hzs, h⟩ := bind_eq_ok_iff.mp h
  cases h
  obtain ⟨hreads, hrest⟩ := hwritten
  obtain ⟨carries, hcarries, hrest⟩ := Plan.written_ofExcept hrest
  exact ⟨zs, carries, hreads, Native.map_val_of_ofWords (liftM_abort_eq_ok_iff.mp hzs), hcarries, hrest⟩

theorem holds_of_plan (h : sum.plan t = .ok p) (hle : t.store ≤ σ)
    (hwritten : p.Written σ t.numCells) (has : sum.assertions (σ.cells t.numCells) = .ok as) :
    ∀ x ∈ as, x.Holds σ := by
  obtain ⟨xs, hxs, h⟩ := bind_eq_ok_iff.mp h
  have ha := (Trace.readSlice_eq_ok_iff.mp (liftM_fault_eq_ok_iff.mp hxs)).mono hle
  obtain ⟨_, -, hoperands⟩ := bind_eq_ok_iff.mp has
  obtain ⟨vs, hvs, hoperands⟩ := bind_eq_ok_iff.mp hoperands
  obtain ⟨ws, hws, -⟩ := bind_eq_ok_iff.mp hoperands
  -- The three plans of a limb sum: the result is derived, the summand is derived, both are constant.
  -- Whichever it is, what is read back meets the carries that the plan computed.
  dsimp only at h
  split at h
  · next b result hb hr =>
    obtain ⟨words, hwords, h⟩ := bind_eq_ok_iff.mp h
    rw [liftM_fault_eq_ok_iff] at hwords
    obtain ⟨ys, rfl, hys⟩ := LimbOperand.exists_reads hwords hle hvs
    split at h
    · obtain ⟨zs, carries, hreads, hzs, hplan, hwritten⟩ := written_of_derivedPlan h hwritten
      have hresult : sum.result.Reads σ t.numCells zs := by
        rw [hr]
        exact hreads
      exact holds_of_carriesPlan hplan hwritten ha hvs hresult rfl hys hzs has
    · contradiction
  · next b r hb hr =>
    split at h
    · obtain ⟨difference, -, h⟩ := bind_eq_ok_iff.mp h
      obtain ⟨ys, carries, hreads, hys, hplan, hwritten⟩ := written_of_derivedPlan h hwritten
      have hsummand : sum.b.Reads σ t.numCells ys := by
        rw [hb]
        exact hreads
      rw [hr] at hws
      obtain ⟨zs, rfl, hzs⟩ := LimbOperand.exists_reads (t := t) (o := .const r) rfl hle hws
      exact holds_of_carriesPlan hplan hwritten ha hsummand (hr ▸ hws) rfl hys hzs has
    · contradiction
  · next b r hb hr =>
    rw [hb] at hvs
    rw [hr] at hws
    obtain ⟨ys, rfl, hys⟩ := LimbOperand.exists_reads (t := t) (o := .const b) rfl hle hvs
    obtain ⟨zs, rfl, hzs⟩ := LimbOperand.exists_reads (t := t) (o := .const r) rfl hle hws
    exact holds_of_carriesPlan h hwritten ha (hb ▸ hvs) (hr ▸ hws) rfl hys hzs has

end LimbSum

def Assertion.Consistent (σ : Store) : Assertion (Option Native) → Prop
  | .vanishes value => ∀ x, value = some x → x = 0
  | .lookup _ _ => True
  | .link a b => a.len = b.len ∧
    ∀ i < a.len, ∀ x y, σ (a.start + i) = some x → σ (b.start + i) = some y → x = y

theorem Assertion.Holds.consistent {a : Assertion (Option Native)} (h : a.Holds σ) :
    a.Consistent σ := by
  cases a with
  | vanishes value =>
    rintro x rfl
    exact Option.some.inj h
  | lookup table values => trivial
  | link a b =>
    refine ⟨h.1, fun i hi x y hx hy => ?_⟩
    obtain ⟨z, hz, hz'⟩ := h.2 i hi
    rw [hz] at hx
    rw [hz'] at hy
    exact (Option.some.inj hx).symm.trans (Option.some.inj hy)

namespace Instruction

variable {p : Plan} {as : List (Assertion (Option Native))}

def computes : Instruction → Bool
  | boolean _ => false
  | constant _ _ assign => assign
  | _ => true

theorem holds_of_decomposePlan {value : Register .element} {bits : RegisterArray .bit}
    (h : decomposePlan value bits t = .ok p) (hle : t.store ≤ σ) (hwritten : p.Written σ t.numCells) :
    (decompose value bits).Holds σ t.numCells := by
  obtain ⟨v, hv, -⟩ := bind_eq_ok_iff.mp h
  rw [liftM_fault_eq_ok_iff] at hv
  rw [decomposePlan_eq bits hv] at h
  obtain ⟨hbound, hv⟩ := Trace.readFirst_eq_ok_iff.mp hv
  split at h
  · next hlt =>
    cases h
    have hreads : σ.Reads t.numCells value.slice [v] :=
      Store.reads_of_getElem hbound rfl fun i hi => by
        obtain rfl := Nat.lt_one_iff.mp hi
        exact hle _ _ hv
    rw [holds_vanishes_iff (decompose_assertions_eq_ok _ hreads hwritten.1), List.forall_mem_singleton,
      weightedSum_eq, decodeNative_binaryDigits hlt, zero_add, one_mul, Native.ofNat_val, sub_self]
  · contradiction

theorem eq_zero_of_selected {β : Bool} {t f : Option Native} {y : Native}
    (h : Arith.sub (if β then t else f) (Arith.add f
      (Arith.mul (some (Native.ofBool β)) (Arith.sub t f))) = some y) : y = 0 := by
  cases t with
  | none => cases f <;> cases β <;> contradiction
  | some x =>
    cases f with
    | none => cases β <;> contradiction
    | some z =>
      rw [← apply_ite some] at h
      rw [← Option.some.inj h]
      exact sub_selected_eq_zero_iff.mpr rfl

theorem consistent_of_selected {bit : Register .bit} {ifTrue ifFalse result : CellSlice} {β : Bool}
    {xs : List Native} (hbit : σ bit.start = some (Native.ofBool β))
    (hxs : σ.Reads n (if β then ifTrue else ifFalse) xs) (hresult : σ.Reads n result xs)
    (has : (select bit ifTrue ifFalse result).assertions (σ.cells n) = .ok as) :
    ∀ a ∈ as, a.Consistent σ := by
  obtain ⟨b, hb, has⟩ := bind_eq_ok_iff.mp has
  obtain ⟨ts, hts, has⟩ := bind_eq_ok_iff.mp has
  obtain ⟨fs, hfs, has⟩ := bind_eq_ok_iff.mp has
  obtain ⟨rs, hrs, has⟩ := bind_eq_ok_iff.mp has
  cases has
  have hb' : b = some (Native.ofBool β) := by
    rw [Store.cells, CellValues.get_ofFn, hbit] at hb
    split at hb
    · exact (Except.ok.inj hb).symm
    · contradiction
  obtain rfl := Except.ok.inj (hresult.symm.trans hrs)
  have hselected : (if β then ts else fs) = xs.map some := by
    cases β with
    | true => exact Except.ok.inj (hts.symm.trans hxs)
    | false => exact Except.ok.inj (hfs.symm.trans hxs)
  rw [← hselected, List.forall_mem_map]
  intro p hp y hy
  obtain ⟨i, hi, rfl⟩ := List.getElem_of_mem hp
  simp only [List.getElem_zip, hb'] at hy
  cases β with
  | true => exact eq_zero_of_selected (β := true) hy
  | false => exact eq_zero_of_selected (β := false) hy

theorem consistent_of_selectPlan {bit : Register .bit} {ifTrue ifFalse result : CellSlice}
    (h : selectPlan bit ifTrue ifFalse result t = .ok p) (hle : t.store ≤ σ)
    (hwritten : p.Written σ t.numCells)
    (has : (select bit ifTrue ifFalse result).assertions (σ.cells t.numCells) = .ok as) :
    ∀ a ∈ as, a.Consistent σ := by
  unfold selectPlan at h
  split at h
  · obtain ⟨x, hx, h⟩ := bind_eq_ok_iff.mp h
    have hbit := hle _ _ (Trace.readFirst_eq_ok_iff.mp (liftM_fault_eq_ok_iff.mp hx)).2
    split at h
    · next hone =>
      subst hone
      obtain ⟨xs, hxs, h⟩ := bind_eq_ok_iff.mp h
      cases h
      have hreads := (Trace.readSlice_eq_ok_iff.mp (liftM_fault_eq_ok_iff.mp hxs)).mono hle
      exact consistent_of_selected (β := true) hbit hreads hwritten.1 has
    · split at h
      · next hzero =>
        subst hzero
        obtain ⟨xs, hxs, h⟩ := bind_eq_ok_iff.mp h
        cases h
        have hreads := (Trace.readSlice_eq_ok_iff.mp (liftM_fault_eq_ok_iff.mp hxs)).mono hle
        exact consistent_of_selected (β := false) hbit hreads hwritten.1 has
      · contradiction
  · contradiction

theorem consistent_of_write {i : Instruction} {t' : Trace} (hi : i.computes)
    (h : i.write t = .ok () t') (hle : t'.store ≤ σ)
    (has : i.assertions (σ.cells t.numCells) = .ok as) : ∀ a ∈ as, a.Consistent σ := by
  obtain ⟨p, hplan, hperform⟩ := write_eq_ok_iff.mp h
  have hwritten := Plan.written_of_perform hperform hle
  have hle := Store.le_trans (Plan.extends_perform hperform).store hle
  have hslice {s : CellSlice} {xs : List Native}
      (hxs : (liftM (t.readSlice s) : Except Failure (List Native)) = .ok xs) :
      σ.Reads t.numCells s xs :=
    (Trace.readSlice_eq_ok_iff.mp (liftM_fault_eq_ok_iff.mp hxs)).mono hle
  have hholds (h : i.Holds σ t.numCells) : ∀ a ∈ as, a.Consistent σ := by
    obtain ⟨as', has', hall⟩ := h
    obtain rfl := Except.ok.inj (has.symm.trans has')
    exact fun a ha => (hall a ha).consistent
  -- A rule that the plan decides holds outright; a range rule is a lookup, which consistency leaves out.
  cases i with
  | constant target values assign =>
    obtain rfl : assign = true := hi
    cases hplan
    exact hholds (holds_constant_iff.mpr hwritten.1)
  | copy source target =>
    obtain ⟨xs, hxs, hplan⟩ := bind_eq_ok_iff.mp hplan
    cases hplan
    exact hholds ((holds_copy_iff (hslice hxs) hwritten.1.stop_le).mpr hwritten.1)
  | boolean cells => contradiction
  | range bits cells =>
    obtain ⟨vs, -, has⟩ := bind_eq_ok_iff.mp has
    cases has
    rw [List.forall_mem_map]
    exact fun _ _ => trivial
  | select bit ifTrue ifFalse result => exact consistent_of_selectPlan hplan hle hwritten has
  | decompose value bits => exact hholds (holds_of_decomposePlan hplan hle hwritten)
  | limbSum sum => exact fun a ha => (LimbSum.holds_of_plan hplan hle hwritten has a ha).consistent
  | fieldSum P m =>
    obtain ⟨a, ha, hplan⟩ := bind_eq_ok_iff.mp hplan
    obtain ⟨b, hb, hplan⟩ := bind_eq_ok_iff.mp hplan
    exact hholds (m.holds_of_sumPlan (fun _ => rfl) hplan hwritten (hslice ha) (hslice hb))
  | fieldDifference P m =>
    obtain ⟨a, ha, hplan⟩ := bind_eq_ok_iff.mp hplan
    obtain ⟨r, hr, hplan⟩ := bind_eq_ok_iff.mp hplan
    exact hholds (m.holds_of_differencePlan (fun _ => rfl) hplan hwritten (hslice ha) (hslice hr))
  | fieldProduct P m =>
    obtain ⟨a, ha, hplan⟩ := bind_eq_ok_iff.mp hplan
    obtain ⟨b, hb, hplan⟩ := bind_eq_ok_iff.mp hplan
    exact hholds (m.holds_of_productPlan (fun _ => rfl) hplan hwritten (hslice ha) (hslice hb))
  | greaterThan | inverse | slope =>
    cases has
    simp

end Instruction

end ForeignCurve
