import ForeignCurve.Proofs.Instruction.Digits
import ForeignCurve.Proofs.Instruction.Faults
import ForeignCurve.Proofs.Instruction.Identity
import ForeignCurve.Proofs.Instruction.LimbSum

namespace ForeignCurve

namespace TraceM

variable {t t' : Trace} {xs : List Native}

theorem filled_writeFrom {i : Nat} (h : writeFrom i xs t = .ok () t') : t.Filled i xs t' := by
  induction xs generalizing i t with
  | nil =>
    cases h
    exact .nil _ i
  | cons x xs ih =>
    obtain ⟨u, t₁, hwrite, hrest⟩ := run_bind_eq_ok_iff.mp h
    exact (filled_writeCell hwrite).2.append (ih hrest)

theorem filled_writeSlice {s : CellSlice} (h : writeSlice s xs t = .ok () t') :
    t.Filled s.start xs t' :=
  filled_writeFrom (writeSlice_eq_ok_iff.mp h).2.2

variable {k : Kind}

theorem filled_writeEach {i n : Nat}
    (h : writeEach ((List.range' i n).map fun j => (⟨j⟩ : Register k)) (xs.map ([·])) t = .ok () t') :
    t.Filled i xs t' := by
  induction xs generalizing i n t with
  | nil =>
    cases n with
    | zero =>
      cases h
      exact .nil _ i
    | succ n => contradiction
  | cons x xs ih =>
    cases n with
    | zero => contradiction
    | succ n =>
      obtain ⟨u, t₁, hwrite, hrest⟩ := run_bind_eq_ok_iff.mp h
      exact (filled_writeSlice hwrite).append (ih hrest)

theorem filled_writeArray (hk : k.size = 1) {a : RegisterArray k}
    (h : writeArray a (xs.map ([·])) t = .ok () t') : t.Filled a.slice.start xs t' := by
  unfold writeArray at h
  rw [toList_array hk] at h
  split at h
  · exact filled_writeEach h
  · contradiction

end TraceM

namespace Plan

inductive Spans : Plan → Nat → Nat → Prop where
  | done (i : Nat) : Spans .done i i
  | fail (f : Failure) {i k : Nat} (hle : i ≤ k) : Spans (.fail f) i k
  | write {s : CellSlice} {i k : Nat} {xs : List Native} {rest : Plan} (hstart : s.start = i)
      (hlen : xs.length = s.len) (hrest : Spans rest (i + s.len) k) : Spans (.write s xs rest) i k
  | writeArray {kind : Kind} (hkind : kind.size = 1) {a : RegisterArray kind} {i k : Nat}
      {xs : List Native} {rest : Plan} (hstart : a.slice.start = i) (hlen : xs.length = a.length)
      (hrest : Spans rest (i + a.length) k) : Spans (.writeArray kind a xs rest) i k

namespace Spans

variable {p : Plan} {i k : Nat}

theorem le (h : p.Spans i k) : i ≤ k := by
  induction h with
  | done i => exact Nat.le_refl i
  | fail f hle => exact hle
  | write hstart hlen hrest ih => omega
  | writeArray hkind hstart hlen hrest ih => omega

theorem write_done {s : CellSlice} {xs : List Native} (hlen : xs.length = s.len) :
    (Plan.write s xs .done).Spans s.start s.stop :=
  .write rfl hlen (.done _)

theorem ofExcept {x : Except Failure Plan} (hle : i ≤ k) (h : ∀ p, x = .ok p → p.Spans i k) :
    (Plan.ofExcept x).Spans i k := by
  cases x with
  | error f => exact .fail f hle
  | ok p => exact h p rfl

variable {t : Trace}

theorem perform_rest {x : TraceM Unit} {rest : Plan} {xs : List Native} {t₁ : Trace}
    (hx : x t = .ok () t₁) (hfilled : t.Filled i xs t₁)
    (hrest : (∃ f t', rest.perform t₁ = .error f t' ∧ f.OfValues) ∨
      ∃ ys t', rest.perform t₁ = .ok () t' ∧ i + xs.length + ys.length = k ∧
        t₁.Filled (i + xs.length) ys t') :
    (∃ f t', (do x; rest.perform) t = .error f t' ∧ f.OfValues) ∨
      ∃ ys t', (do x; rest.perform) t = .ok () t' ∧ i + ys.length = k ∧ t.Filled i ys t' := by
  obtain ⟨f, t', hperform, hf⟩ | ⟨ys, t', hperform, hlen, hfilled'⟩ := hrest
  · exact .inl ⟨f, t', run_bind_eq_error_of_ok hx hperform, hf⟩
  · refine .inr ⟨xs ++ ys, t', run_bind_eq_ok_iff.mpr ⟨(), t₁, hx, hperform⟩, ?_,
      hfilled.append hfilled'⟩
    rw [List.length_append, ← Nat.add_assoc, hlen]

theorem perform (h : p.Spans i k) (hp : p.OfValues) (hbound : k ≤ t.numCells)
    (hfresh : t.store.Fresh i k) :
    (∃ f t', p.perform t = .error f t' ∧ f.OfValues) ∨
      ∃ xs t', p.perform t = .ok () t' ∧ i + xs.length = k ∧ t.Filled i xs t' := by
  induction h generalizing t with
  | done i => exact .inr ⟨[], t, rfl, rfl, .nil t i⟩
  | fail f hle =>
    cases hp with
    | fail _ hf => exact .inl ⟨f, t, rfl, hf⟩
  | @write s i k xs rest hstart hlen hrest ih =>
    subst hstart
    cases hp with
    | write _ _ _ hp =>
      have hle := hrest.le
      obtain ⟨t₁, hwrite, hfilled⟩ := TraceM.writeSlice_eq_ok hlen (Nat.le_trans hle hbound)
        fun j hj hj' => hfresh j hj (Nat.lt_of_lt_of_le hj' hle)
      have hfresh' := hfilled.fresh hfresh
      rw [← hlen] at ih
      exact perform_rest hwrite hfilled (ih hp (by rwa [hfilled.numCells]) hfresh')
  | @writeArray kind hkind a i k xs rest hstart hlen hrest ih =>
    subst hstart
    cases hp with
    | writeArray _ _ _ _ hp =>
      have hle := hrest.le
      obtain ⟨t₁, hwrite, hfilled⟩ := TraceM.writeArray_eq_ok hkind hlen (Nat.le_trans hle hbound)
        fun j hj hj' => hfresh j hj (Nat.lt_of_lt_of_le hj' hle)
      have hfresh' := hfilled.fresh hfresh
      rw [← hlen] at ih
      exact perform_rest hwrite hfilled (ih hp (by rwa [hfilled.numCells]) hfresh')

theorem filled (h : p.Spans i k) {t' : Trace} (hperform : p.perform t = .ok () t') :
    ∃ xs, i + xs.length = k ∧ t.Filled i xs t' := by
  induction h generalizing t with
  | done i =>
    cases hperform
    exact ⟨[], rfl, .nil _ i⟩
  | fail f hle => contradiction
  | @write s i k xs rest hstart hlen hrest ih =>
    subst hstart
    obtain ⟨u, t₁, hwrite, hperform⟩ := run_bind_eq_ok_iff.mp hperform
    obtain ⟨ys, hlen', hfilled⟩ := ih hperform
    rw [← hlen] at hlen' hfilled
    refine ⟨xs ++ ys, ?_, (TraceM.filled_writeSlice hwrite).append hfilled⟩
    rw [List.length_append, ← Nat.add_assoc, hlen']
  | @writeArray kind hkind a i k xs rest hstart hlen hrest ih =>
    subst hstart
    obtain ⟨u, t₁, hwrite, hperform⟩ := run_bind_eq_ok_iff.mp hperform
    obtain ⟨ys, hlen', hfilled⟩ := ih hperform
    rw [← hlen] at hlen' hfilled
    refine ⟨xs ++ ys, ?_, (TraceM.filled_writeArray hkind hwrite).append hfilled⟩
    rw [List.length_append, ← Nat.add_assoc, hlen']

end Spans

end Plan

theorem Native.length_ofWords {ws : List Nat} {xs : List Native} (h : ofWords ws = .ok xs) :
    xs.length = ws.length := by
  induction ws generalizing xs with
  | nil =>
    cases h
    rfl
  | cons w ws ih =>
    obtain ⟨x, -, h⟩ := bind_eq_ok_iff.mp h
    obtain ⟨rest, hrest, h⟩ := bind_eq_ok_iff.mp h
    cases h
    rw [List.length_cons, List.length_cons, ih hrest]

theorem FieldParams.length_encode {P : FieldParams} {value : Nat} {xs : List Native}
    (h : P.encode value = .ok xs) : xs.length = P.limbs := by
  rw [Native.length_ofWords h, Limbs.length_encode]

theorem Trace.length_readSlice {t : Trace} {s : CellSlice} {xs : List Native}
    (h : t.readSlice s = .ok xs) : xs.length = s.len :=
  (readSlice_eq_ok_iff.mp h).length_eq

namespace LimbSum

theorem length_carryBits {limbs limbBits i carry : Nat} {a b r cs : List Nat}
    (h : carryBits limbs limbBits i carry a b r = .ok cs) : cs.length = a.length - 1 := by
  fun_induction carryBits limbs limbBits i carry a b r generalizing cs with
  | case1 =>
    cases h
    rfl
  | case2 i carry x as y bs z rs ih =>
    obtain ⟨carry', -, h⟩ := bind_eq_ok_iff.mp h
    dsimp only at h
    by_cases hempty : as.isEmpty
    · rw [if_pos hempty] at h
      rw [List.isEmpty_iff.mp hempty]
      split at h
      · cases h
        rfl
      · contradiction
    · rw [if_neg hempty] at h
      obtain ⟨rest, hrest, h⟩ := bind_eq_ok_iff.mp h
      cases h
      have hlen := ih carry' hrest
      have hpos : 0 < as.length := List.length_pos_iff.mpr fun hnil => hempty (by rw [hnil]; rfl)
      rw [List.length_cons, List.length_cons, hlen]
      omega
  | case3 => contradiction

theorem spans_derivedPlan {s : LimbSum} {k : Nat} {derived : CellSlice} {limbs a b r : List Nat}
    {p : Plan} (hderived : derived = ⟨k, s.a.len⟩) (hlimbs : limbs.length = s.a.len)
    (ha : a.length = s.a.len)
    (hcarries : s.carries = ⟨⟨k + s.a.len, s.a.len - 1⟩, s.a.len - 1⟩)
    (h : derivedPlan derived limbs (s.carriesPlan a b r) = .ok p) :
    p.Spans k (k + s.a.len + (s.a.len - 1)) := by
  obtain ⟨words, hwords, h⟩ := bind_eq_ok_iff.mp h
  rw [liftM_abort_eq_ok_iff] at hwords
  cases h
  subst hderived
  refine .write rfl (by rw [Native.length_ofWords hwords, hlimbs]) ?_
  refine .ofExcept (Nat.le_add_right _ _) fun p h => ?_
  obtain ⟨cs, hcs, h⟩ := bind_eq_ok_iff.mp h
  cases h
  rw [hcarries]
  refine .writeArray rfl rfl ?_ (.done _)
  rw [List.length_map, length_carryBits hcs, ha]

end LimbSum

namespace Identity

variable {P : FieldParams} [P.HasHeadroom] {a b result : List Native} {carry k : Nat}

theorem length_quotient (s : Side) (ha : a.length = P.limbs) (hb : b.length = P.limbs)
    (hr : result.length = P.limbs) {w : List Native}
    (h : quotient P (s.poly a b - ⟨result⟩ - (⟨P.digits carry⟩ * ⟨P.digits P.modulus⟩ : Poly)) = .ok w) :
    w.length = P.witnessLimbs := by
  rw [poly_sub_eq_vanishing s] at h
  obtain ⟨-, h⟩ := of_unless h
  have hlen := (mapM_eq_ok_iff.mp h).length_eq
  have hvanishing := length_vanishing (s := s) ha hb hr (FieldParams.length_digits (P := P) carry)
  rw [Poly.rootQuotient, Poly.length_suffixEvals, List.length_tail, hvanishing] at hlen
  rw [← hlen, FieldParams.witnessLimbs_eq]
  omega

theorem spans_witnessPlan (s : Side) {x y z : FieldRegister P} (ha : a.length = P.limbs)
    (hb : b.length = P.limbs) (hr : result.length = P.limbs) {p : Plan}
    (h : (allocated x y z k).witnessPlan (s.poly a b) result carry = .ok p) :
    p.Spans k (k + (P.limbs + (P.witnessLimbs + P.witnessLimbs))) := by
  obtain ⟨modulus, hmodulus, h⟩ := bind_eq_ok_iff.mp h
  obtain ⟨digits, hdigits, h⟩ := bind_eq_ok_iff.mp h
  rw [liftM_abort_eq_ok_iff, P.encode_eq_digits] at hmodulus hdigits
  cases hmodulus
  cases hdigits
  obtain ⟨w, hw, h⟩ := bind_eq_ok_iff.mp h
  obtain ⟨low, hlow, h⟩ := bind_eq_ok_iff.mp h
  obtain ⟨high, hhigh, h⟩ := bind_eq_ok_iff.mp h
  rw [liftM_fault_eq_ok_iff] at hw
  rw [liftM_abort_eq_ok_iff] at hlow hhigh
  cases h
  have hlen := length_quotient s ha hb hr hw
  rw [← Nat.add_assoc, ← Nat.add_assoc]
  refine .write rfl (FieldParams.length_digits carry) ?_
  refine .writeArray rfl rfl ?_ (.writeArray rfl rfl ?_ (.done _))
  · rw [Native.length_ofWords hlow, List.length_map, hlen]
    rfl
  · rw [Native.length_ofWords hhigh, List.length_map, hlen]
    rfl

end Identity

def Instruction.Fills (i : Instruction) (k k' : Nat) : Prop :=
  ∀ t p, i.plan t = .ok p → p.Spans k k'

namespace Instruction

variable {k n : Nat}

theorem Passive.fills {i : Instruction} (h : i.Passive) (k : Nat) : i.Fills k k := by
  intro t p hp
  rw [h t] at hp
  cases hp
  exact .done k

theorem Fills.assigned {i : Instruction} {k' : Nat} (h : i.Fills k k') {t t' : Trace}
    (hwrite : i.write t = .ok () t') {j : Nat} (hj : k ≤ j) (hj' : j < k') :
    (t'.store j).isSome := by
  obtain ⟨p, hplan, hperform⟩ := write_eq_ok_iff.mp hwrite
  obtain ⟨xs, rfl, hfilled⟩ := (h t p hplan).filled hperform
  obtain ⟨j, rfl⟩ := Nat.exists_eq_add_of_le hj
  rw [hfilled.store, Store.fill_getElem (by omega)]
  rfl

theorem fills_constant {values : List Native} (hlen : values.length = n) :
    (constant ⟨k, n⟩ values true).Fills k (k + n) := by
  intro t p hp
  cases hp
  exact .write_done hlen

theorem passive_assertConstant (target : CellSlice) (values : List Native) :
    (constant target values false).Passive :=
  fun _ => rfl

theorem fills_select (bit : Register .bit) (ifTrue ifFalse : CellSlice) :
    (select bit ifTrue ifFalse ⟨k, n⟩).Fills k (k + n) := by
  intro t p hp
  change selectPlan bit ifTrue ifFalse ⟨k, n⟩ t = .ok p at hp
  unfold selectPlan at hp
  split at hp
  · next hlen =>
    obtain ⟨x, -, hp⟩ := bind_eq_ok_iff.mp hp
    split at hp
    · obtain ⟨xs, hxs, hp⟩ := bind_eq_ok_iff.mp hp
      cases hp
      rw [liftM_fault_eq_ok_iff] at hxs
      exact .write_done ((Trace.length_readSlice hxs).trans hlen.1)
    · split at hp
      · obtain ⟨xs, hxs, hp⟩ := bind_eq_ok_iff.mp hp
        cases hp
        rw [liftM_fault_eq_ok_iff] at hxs
        exact .write_done ((Trace.length_readSlice hxs).trans hlen.2)
      · contradiction
  · contradiction

theorem fills_decompose (value : Register .element) :
    (decompose value ⟨⟨k, n⟩, n⟩).Fills k (k + n) := by
  intro t p hp
  obtain ⟨x, -, hp⟩ := bind_eq_ok_iff.mp hp
  dsimp only at hp
  split at hp
  · cases hp
    exact .writeArray rfl rfl (Instruction.length_binaryDigits _ _) (.done _)
  · contradiction

theorem fills_greaterThan (value : CellSlice) (bound : List Nat) (limbBits : Nat) :
    (greaterThan value bound limbBits ⟨k⟩).Fills k (k + 1) := by
  intro t p hp
  obtain ⟨xs, -, hp⟩ := bind_eq_ok_iff.mp hp
  cases hp
  exact .write_done rfl

theorem fills_inverse {P : FieldParams} (a : FieldRegister P) (allowZero : Bool) :
    (inverse P a ⟨k⟩ allowZero).Fills k (k + P.limbs) := by
  intro t p hp
  obtain ⟨x, -, hp⟩ := bind_eq_ok_iff.mp hp
  obtain ⟨y, -, hp⟩ := bind_eq_ok_iff.mp hp
  dsimp only at hp
  split at hp
  · split at hp
    · obtain ⟨xs, hxs, hp⟩ := bind_eq_ok_iff.mp hp
      cases hp
      rw [liftM_abort_eq_ok_iff] at hxs
      exact .write_done (FieldParams.length_encode hxs)
    · contradiction
  · obtain ⟨z, -, hp⟩ := bind_eq_ok_iff.mp hp
    obtain ⟨xs, hxs, hp⟩ := bind_eq_ok_iff.mp hp
    cases hp
    rw [liftM_abort_eq_ok_iff] at hxs
    exact .write_done (FieldParams.length_encode hxs)

theorem fills_slope {E : CurveParams} (p q : PointRegister E.base) :
    (slope E p q ⟨k⟩).Fills k (k + E.base.limbs) := by
  intro t plan hp
  obtain ⟨x, -, hp⟩ := bind_eq_ok_iff.mp hp
  obtain ⟨y, -, hp⟩ := bind_eq_ok_iff.mp hp
  obtain ⟨u, -, hp⟩ := bind_eq_ok_iff.mp hp
  obtain ⟨v, -, hp⟩ := bind_eq_ok_iff.mp hp
  obtain ⟨m, -, hp⟩ := bind_eq_ok_iff.mp hp
  obtain ⟨xs, hxs, hp⟩ := bind_eq_ok_iff.mp hp
  cases hp
  rw [liftM_abort_eq_ok_iff] at hxs
  exact .write_done (FieldParams.length_encode hxs)

variable {P : FieldParams}

theorem fills_limbSum_result (a : FieldRegister P) (limbs : List Nat) :
    (limbSum (.allocated P a (.const limbs) (.cells ⟨k, P.limbs⟩) (k + P.limbs))).Fills k
      (k + P.limbs + (P.limbs - 1)) := by
  intro t p hp
  obtain ⟨xs, hxs, hp⟩ := bind_eq_ok_iff.mp hp
  rw [liftM_fault_eq_ok_iff] at hxs
  dsimp only [LimbSum.allocated] at hp
  obtain ⟨ys, -, hp⟩ := bind_eq_ok_iff.mp hp
  obtain ⟨-, hp⟩ := of_unless hp
  exact LimbSum.spans_derivedPlan (k := k) rfl (Limbs.length_encode _ _ _)
    ((List.length_map _).trans (Trace.length_readSlice hxs)) rfl hp

theorem fills_limbSum_summand (a : FieldRegister P) (total : List Nat) :
    (limbSum (.allocated P a (.cells ⟨k, P.limbs⟩) (.const total) (k + P.limbs))).Fills k
      (k + P.limbs + (P.limbs - 1)) := by
  intro t p hp
  obtain ⟨xs, hxs, hp⟩ := bind_eq_ok_iff.mp hp
  rw [liftM_fault_eq_ok_iff] at hxs
  dsimp only [LimbSum.allocated] at hp
  split at hp
  · obtain ⟨d, -, hp⟩ := bind_eq_ok_iff.mp hp
    exact LimbSum.spans_derivedPlan (k := k) rfl (Limbs.length_encode _ _ _)
      ((List.length_map _).trans (Trace.length_readSlice hxs)) rfl hp
  · contradiction

section Identity

variable [P.HasHeadroom]

theorem fills_fieldSum (a b : FieldRegister P) :
    (fieldSum P (.allocated a b ⟨k⟩ (k + P.limbs))).Fills k
      (k + (P.limbs + (P.limbs + (P.witnessLimbs + P.witnessLimbs)))) := by
  intro t p hp
  obtain ⟨xs, hxs, hp⟩ := bind_eq_ok_iff.mp hp
  obtain ⟨ys, hys, hp⟩ := bind_eq_ok_iff.mp hp
  obtain ⟨sum, -, hp⟩ := bind_eq_ok_iff.mp hp
  obtain ⟨result, hresult, hp⟩ := bind_eq_ok_iff.mp hp
  rw [liftM_fault_eq_ok_iff] at hxs hys
  rw [liftM_abort_eq_ok_iff] at hresult
  cases hp
  have hlen := FieldParams.length_encode hresult
  rw [← Nat.add_assoc]
  refine .write rfl hlen (.ofExcept (Nat.le_add_right _ _) fun p hp => ?_)
  exact Identity.spans_witnessPlan .sum (Trace.length_readSlice hxs) (Trace.length_readSlice hys) hlen hp

theorem fills_fieldDifference (a b : FieldRegister P) :
    (fieldDifference P (.allocated b ⟨k⟩ a (k + P.limbs))).Fills k
      (k + (P.limbs + (P.limbs + (P.witnessLimbs + P.witnessLimbs)))) := by
  intro t p hp
  obtain ⟨xs, hxs, hp⟩ := bind_eq_ok_iff.mp hp
  obtain ⟨ys, hys, hp⟩ := bind_eq_ok_iff.mp hp
  obtain ⟨m, -, hp⟩ := bind_eq_ok_iff.mp hp
  obtain ⟨n, -, hp⟩ := bind_eq_ok_iff.mp hp
  obtain ⟨d, -, hp⟩ := bind_eq_ok_iff.mp hp
  obtain ⟨difference, -, hp⟩ := bind_eq_ok_iff.mp hp
  obtain ⟨-, hp⟩ := of_unless hp
  obtain ⟨excess, -, hp⟩ := bind_eq_ok_iff.mp hp
  obtain ⟨zs, hzs, hp⟩ := bind_eq_ok_iff.mp hp
  rw [liftM_fault_eq_ok_iff] at hxs hys
  rw [liftM_abort_eq_ok_iff] at hzs
  cases hp
  have hlen := FieldParams.length_encode hzs
  rw [← Nat.add_assoc]
  refine .write rfl hlen (.ofExcept (Nat.le_add_right _ _) fun p hp => ?_)
  exact Identity.spans_witnessPlan .sum (Trace.length_readSlice hxs) hlen (Trace.length_readSlice hys) hp

theorem fills_fieldProduct (a b : FieldRegister P) :
    (fieldProduct P (.allocated a b ⟨k⟩ (k + P.limbs))).Fills k
      (k + (P.limbs + (P.limbs + (P.witnessLimbs + P.witnessLimbs)))) := by
  intro t p hp
  obtain ⟨xs, hxs, hp⟩ := bind_eq_ok_iff.mp hp
  obtain ⟨ys, hys, hp⟩ := bind_eq_ok_iff.mp hp
  obtain ⟨residue, -, hp⟩ := bind_eq_ok_iff.mp hp
  obtain ⟨-, hp⟩ := of_unless hp
  obtain ⟨result, hresult, hp⟩ := bind_eq_ok_iff.mp hp
  obtain ⟨rest, hrest, hp⟩ := bind_eq_ok_iff.mp hp
  rw [liftM_fault_eq_ok_iff] at hxs hys
  rw [liftM_abort_eq_ok_iff] at hresult
  cases hp
  have hlen := FieldParams.length_encode hresult
  rw [← Nat.add_assoc]
  refine .write rfl hlen ?_
  exact Identity.spans_witnessPlan .product (Trace.length_readSlice hxs) (Trace.length_readSlice hys)
    hlen hrest

end Identity

end Instruction

end ForeignCurve
