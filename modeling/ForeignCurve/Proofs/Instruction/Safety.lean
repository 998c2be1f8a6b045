import ForeignCurve.Proofs.Field.Headroom
import ForeignCurve.Proofs.Instruction.Footprint
import ForeignCurve.Proofs.Instruction.Outputs

namespace ForeignCurve

variable {α : Type} {A : Abort → Prop}

def Plan.Orderly (A : Abort → Prop) : Plan → Prop
  | done => True
  | fail f => ∀ abort, f = .abort abort → A abort
  | write _ _ rest | writeArray _ _ _ rest => rest.Orderly A

def AbortsIn (A : Abort → Prop) (x : Except Failure α) : Prop :=
  ∀ abort, x = .error (.abort abort) → A abort

namespace Plan.Orderly

variable {f : α → Except Failure Plan}

theorem fail_fault (cause : Fault) : (Plan.fail (.fault cause)).Orderly A := by
  intro abort h
  contradiction

theorem bind {x : Except Failure α} (hx : AbortsIn A x) (hf : ∀ a, x = .ok a → (ofExcept (f a)).Orderly A) :
    (ofExcept (x >>= f)).Orderly A := by
  cases x with
  | error e =>
    rintro abort rfl
    exact hx abort rfl
  | ok a => exact hf a rfl

theorem of_fault {x : Except Fault α} (hf : ∀ a, x = .ok a → (ofExcept (f a)).Orderly A) :
    (ofExcept (liftM x >>= f)).Orderly A := by
  cases x with
  | error cause => exact fail_fault cause
  | ok a => exact hf a rfl

theorem of_eq_ok {x : Except Abort α} {a : α} (hx : x = .ok a) (hf : (ofExcept (f a)).Orderly A) :
    (ofExcept (liftM x >>= f)).Orderly A := by
  rw [hx]
  exact hf

theorem guard {c : Prop} [Decidable c] {cause : Fault} {x : Except Failure Plan}
    (hx : c → (ofExcept x).Orderly A) :
    (ofExcept (if c then x else do throw (.fault cause); x)).Orderly A := by
  split
  · next hc => exact hx hc
  · exact fail_fault cause

theorem bind_plan {x : Except Failure Plan} {f : Plan → Except Failure Plan} (hx : (ofExcept x).Orderly A)
    (hf : ∀ p : Plan, p.Orderly A → (ofExcept (f p)).Orderly A) : (ofExcept (x >>= f)).Orderly A := by
  cases x with
  | error e => exact hx
  | ok p => exact hf p hx

end Plan.Orderly

theorem Native.exists_ofWords {ws : List Nat} (h : ∀ w ∈ ws, w < order) : ∃ xs, ofWords ws = .ok xs :=
  ⟨_, ofWords_eq_ok h⟩

class FieldParams.Usable (A : Abort → Prop) (P : FieldParams) : Prop where
  headroom_eq : P.headroom = .ok ()
  zeroModulus : P.modulus = 0 → A .zeroModulus

namespace FieldParams.Usable

variable {P : FieldParams} (h : P.Usable A)

include h

theorem limbBits_lt : P.limbBits < 64 :=
  @FieldParams.limbBits_lt P ⟨h.headroom_eq⟩

theorem limbBits_le : P.limbBits ≤ 28 :=
  @FieldParams.limbBits_le P ⟨h.headroom_eq⟩

theorem encode_eq (value : Nat) :
    P.encode value = .ok ((Limbs.encode P.limbBits P.limbs value).map Native.ofNat) :=
  encode_eq_ok h.limbBits_lt value

theorem orderly_reduce {value : Nat} {f : Nat → Except Failure Plan}
    (hf : 0 < P.modulus → (Plan.ofExcept (f (value % P.modulus))).Orderly A) :
    (Plan.ofExcept (liftM (P.reduce value) >>= f)).Orderly A := by
  by_cases hzero : P.modulus = 0
  · have hreduce : P.reduce value = .error .zeroModulus := if_pos hzero
    rw [hreduce]
    rintro abort ⟨⟩
    exact h.zeroModulus hzero
  · rw [reduce_eq_ok hzero]
    exact hf (Nat.pos_of_ne_zero hzero)

end FieldParams.Usable

namespace Identity

open Plan

variable {P : FieldParams} (hP : P.Usable A) (m : Identity P) (a b : List Native)

include hP

theorem orderly_witnessPlan (lhs : Poly) (result : List Native) (carry : Nat) :
    (ofExcept (m.witnessPlan lhs result carry)).Orderly A := by
  refine .of_eq_ok (hP.encode_eq _) ?_
  refine .of_eq_ok (hP.encode_eq _) ?_
  refine .of_fault fun w _ => ?_
  -- both parts of a word are no greater than the word
  obtain ⟨low, hlow⟩ : ∃ xs, Native.ofWords (w.map fun c => c.val % 2 ^ P.limbBits) = .ok xs :=
    Native.exists_ofWords (List.forall_mem_map.mpr fun c _ =>
      Nat.lt_of_le_of_lt (Nat.mod_le _ _) c.isLt)
  obtain ⟨high, hhigh⟩ : ∃ xs, Native.ofWords (w.map fun c => c.val >>> P.limbBits) = .ok xs :=
    Native.exists_ofWords (List.forall_mem_map.mpr fun c _ =>
      Nat.lt_of_le_of_lt (Nat.shiftRight_le _ _) c.isLt)
  refine .of_eq_ok hlow ?_
  exact .of_eq_ok hhigh trivial

theorem orderly_sumPlan : (ofExcept (m.sumPlan a b)).Orderly A := by
  refine hP.orderly_reduce fun _ => ?_
  refine .of_eq_ok (hP.encode_eq _) ?_
  exact orderly_witnessPlan hP m _ _ _

theorem orderly_differencePlan : (ofExcept (m.differencePlan a b)).Orderly A := by
  refine hP.orderly_reduce fun hpos => ?_
  refine hP.orderly_reduce fun _ => ?_
  have hsub (x y : Nat) : checkedSub (P.modulus + x) (y % P.modulus) = .ok (P.modulus + x - y % P.modulus) :=
    if_pos (Nat.le_trans (Nat.le_of_lt (Nat.mod_lt y hpos)) (Nat.le_add_right _ _))
  refine .of_eq_ok (hsub _ _) ?_
  refine hP.orderly_reduce fun _ => ?_
  refine .guard fun hle => ?_
  refine .of_eq_ok (if_pos hle) ?_
  refine .of_eq_ok (hP.encode_eq _) ?_
  exact orderly_witnessPlan hP m _ _ _

theorem orderly_productPlan : (ofExcept (m.productPlan a b)).Orderly A := by
  refine hP.orderly_reduce fun _ => ?_
  refine .guard fun _ => ?_
  refine .of_eq_ok (hP.encode_eq _) ?_
  exact .bind_plan (orderly_witnessPlan hP m _ _ _) fun p hp => hp

end Identity

namespace LimbSum

open Plan

inductive Derives : LimbSum → Prop where
  | result {a result : CellSlice} {limbs : List Nat} {carries : RegisterArray .bit} {limbBits : Nat}
    (hbits : limbBits ≤ 28) (hlen : limbs.length = a.len) (hlimbs : ∀ x ∈ limbs, x < 2 ^ limbBits) :
    Derives ⟨a, .const limbs, .cells result, carries, limbBits⟩
  | summand {a b : CellSlice} {limbs : List Nat} {carries : RegisterArray .bit} {limbBits : Nat}
    (hbits : limbBits ≤ 28) (hlen : limbs.length = a.len) :
    Derives ⟨a, .cells b, .const limbs, carries, limbBits⟩

section Carries

variable {limbBits : Nat} (hbits : limbBits ≤ 28)

include hbits

theorem sum_lt {a b : Nat} (ha : a < order) (hb : b < 2 ^ limbBits) : a + b + 1 < 2 ^ 64 := by
  have hpow : 2 ^ limbBits ≤ 2 ^ 28 := Nat.pow_le_pow_right Nat.two_pos hbits
  have horder : order + 2 ^ 28 < 2 ^ 64 := by decide
  omega

theorem orderly_carriesPlan {s : LimbSum} {a b r : List Nat} (hs : s.limbBits = limbBits)
    (ha : ∀ x ∈ a, x < order) (hb : ∀ x ∈ b, x < 2 ^ limbBits) (hblen : b.length = a.length)
    (hrlen : r.length = a.length) : (ofExcept (s.carriesPlan a b r)).Orderly A := by
  refine .bind (fun abort habort => ?_) fun _ _ => trivial
  rw [hs] at habort
  obtain ⟨cause, -, hfault⟩ := failsOnly_carryBits (Nat.lt_of_le_of_lt hbits (by decide))
    (fun x hx y hy => sum_lt hbits (ha x hx) (hb y hy)) hblen hrlen (Nat.zero_le 1) _ habort
  contradiction

theorem orderly_derivedPlan {derived : CellSlice} {count value : Nat} {rest : Except Failure Plan}
    (hrest : (ofExcept rest).Orderly A) :
    (ofExcept (derivedPlan derived (Limbs.encode limbBits count value) rest)).Orderly A := by
  rw [derivedPlan_encode (Nat.le_trans hbits (by decide))]
  exact hrest

end Carries

theorem Derives.orderly_plan {s : LimbSum} (h : s.Derives) (t : Trace) : (ofExcept (s.plan t)).Orderly A := by
  refine .of_fault fun xs hxs => ?_
  have hlen := Trace.length_readSlice hxs
  have ha : ∀ x ∈ xs.map (·.val), x < order := List.forall_mem_map.mpr fun x _ => x.isLt
  cases h with
  | result hbits hlimbs hlt =>
    refine .of_fault fun b hb => ?_
    cases hb
    refine .guard fun _ => ?_
    refine orderly_derivedPlan hbits (orderly_carriesPlan hbits rfl ha hlt ?_ ?_)
    · rw [hlimbs, List.length_map, hlen]
    · rw [Limbs.length_encode, List.length_map, hlen]
  | summand hbits hlimbs =>
    refine .guard fun hle => ?_
    refine .of_eq_ok (if_pos hle) ?_
    refine orderly_derivedPlan hbits (orderly_carriesPlan hbits rfl ha ?_ ?_ ?_)
    · exact fun x hx => Limbs.lt_of_mem_encode hx
    · rw [Limbs.length_encode, List.length_map, hlen]
    · rw [hlimbs, List.length_map, hlen]

end LimbSum

namespace Instruction

open Plan

theorem orderly_selectPlan (bit : Register .bit) (ifTrue ifFalse result : CellSlice) (t : Trace) :
    (ofExcept (selectPlan bit ifTrue ifFalse result t)).Orderly A := by
  refine .guard fun _ => ?_
  refine .of_fault fun x _ => ?_
  split
  · exact .of_fault fun _ _ => trivial
  · split
    · exact .of_fault fun _ _ => trivial
    · exact .fail_fault _

theorem exists_inverseMod {p : Nat} (hp : 2 ≤ p) (a : Nat) : ∃ b, inverseMod p a = .ok b := by
  have hsub : checkedSub p 2 = .ok (p - 2) := if_pos hp
  unfold inverseMod
  rw [hsub]
  exact ⟨_, rfl⟩

theorem two_le_of_lt {x p : Nat} (hx : x ≠ 0) (hlt : x < p) : 2 ≤ p :=
  Nat.lt_of_le_of_lt (Nat.pos_of_ne_zero hx) hlt

section Hints

variable {P : FieldParams} (hP : P.Usable A)

include hP

theorem orderly_inversePlan (a result : FieldRegister P) (allowZero : Bool) (t : Trace) :
    (ofExcept (inversePlan P a result allowZero t)).Orderly A := by
  refine .of_fault fun x _ => ?_
  refine hP.orderly_reduce fun hpos => ?_
  split
  · exact .guard fun _ => .of_eq_ok (hP.encode_eq 0) trivial
  · next hne =>
    obtain ⟨b, hb⟩ := exists_inverseMod (two_le_of_lt hne (Nat.mod_lt x hpos)) (x % P.modulus)
    refine .of_eq_ok hb ?_
    exact .of_eq_ok (hP.encode_eq b) trivial

theorem orderly_reducePoint {p : Point} {f : Point → Except Failure Plan}
    (hf : 0 < P.modulus → (ofExcept (f ⟨p.x % P.modulus, p.y % P.modulus⟩)).Orderly A) :
    (ofExcept (liftM (reducePoint P p) >>= f)).Orderly A := by
  by_cases hzero : P.modulus = 0
  · have hreduce : reducePoint P p = .error .zeroModulus := by
      unfold reducePoint FieldParams.reduce
      rw [if_pos hzero]
      rfl
    rw [hreduce]
    rintro abort ⟨⟩
    exact hP.zeroModulus hzero
  · have hreduce : reducePoint P p = .ok ⟨p.x % P.modulus, p.y % P.modulus⟩ := by
      unfold reducePoint
      rw [FieldParams.reduce_eq_ok hzero, FieldParams.reduce_eq_ok hzero]
      rfl
    rw [hreduce]
    exact hf (Nat.pos_of_ne_zero hzero)

end Hints

variable {E : CurveParams}

theorem exists_lineSlope {p q : Point} (hx : p.x < E.base.modulus) (hy : p.y < E.base.modulus) :
    ∃ s, lineSlope E p q = .ok s := by
  -- the coordinates are reduced, and differences are taken from above the modulus
  have hsub {x : Nat} (y : Nat) (h : x < E.base.modulus) :
      checkedSub (E.base.modulus + y) x = .ok (E.base.modulus + y - x) :=
    if_pos (Nat.le_trans (Nat.le_of_lt h) (Nat.le_add_right _ _))
  refine exists_bind_eq_ok (hsub q.x hx) ?_
  dsimp only
  split
  · next hne =>
    refine exists_bind_eq_ok (hsub q.y hy) ?_
    have htwo := two_le_of_lt hne (Nat.mod_lt _ (Nat.zero_lt_of_lt hx))
    obtain ⟨b, hb⟩ := exists_inverseMod htwo ((E.base.modulus + q.x - p.x) % E.base.modulus)
    exact exists_bind_eq_ok hb ⟨_, rfl⟩
  · split
    · next hne =>
      obtain ⟨b, hb⟩ := exists_inverseMod (two_le_of_lt hne.1 hy) (p.y * 2)
      exact exists_bind_eq_ok hb ⟨_, rfl⟩
    · exact ⟨0, rfl⟩

theorem orderly_slopePlan (hE : E.base.Usable A) (p q : PointRegister E.base) (result : FieldRegister E.base) (t : Trace) :
    (ofExcept (slopePlan E p q result t)).Orderly A := by
  refine .of_fault fun x _ => ?_
  refine .of_fault fun y _ => ?_
  refine orderly_reducePoint hE fun hpos => ?_
  refine orderly_reducePoint hE fun _ => ?_
  obtain ⟨s, hs⟩ := @exists_lineSlope E ⟨x.x % E.base.modulus, x.y % E.base.modulus⟩
    ⟨y.x % E.base.modulus, y.y % E.base.modulus⟩ (Nat.mod_lt _ hpos) (Nat.mod_lt _ hpos)
  refine .of_eq_ok hs ?_
  exact .of_eq_ok (hE.encode_eq s) trivial

end Instruction

class inductive Instruction.Guarded (A : Abort → Prop) : Instruction → Prop where
  | constant (target : CellSlice) (values : List Native) (assign : Bool) :
    Guarded A (constant target values assign)
  | copy (source target : CellSlice) : Guarded A (copy source target)
  | boolean (cells : CellSlice) : Guarded A (boolean cells)
  | range (bits : Nat) (cells : CellSlice) : Guarded A (range bits cells)
  | select (bit : Register .bit) (ifTrue ifFalse result : CellSlice) :
    Guarded A (select bit ifTrue ifFalse result)
  | decompose (value : Register .element) (bits : RegisterArray .bit) : Guarded A (decompose value bits)
  | limbSum {s : LimbSum} (h : s.Derives) : Guarded A (limbSum s)
  | greaterThan (value : CellSlice) (bound : List Nat) (limbBits : Nat) (result : Register .bit) :
    Guarded A (greaterThan value bound limbBits result)
  | fieldSum {P : FieldParams} (m : Identity P) (hP : P.Usable A) : Guarded A (fieldSum P m)
  | fieldDifference {P : FieldParams} (m : Identity P) (hP : P.Usable A) : Guarded A (fieldDifference P m)
  | fieldProduct {P : FieldParams} (m : Identity P) (hP : P.Usable A) : Guarded A (fieldProduct P m)
  | inverse {P : FieldParams} (a result : FieldRegister P) (allowZero : Bool) (hP : P.Usable A) :
    Guarded A (inverse P a result allowZero)
  | slope {E : CurveParams} (p q : PointRegister E.base) (result : FieldRegister E.base)
    (hE : E.base.Usable A) : Guarded A (slope E p q result)

theorem Instruction.Guarded.orderly_plan {i : Instruction} (h : i.Guarded A) (t : Trace) :
    (Plan.ofExcept (i.plan t)).Orderly A := by
  cases h with
  | constant target values assign =>
    cases assign with
    | false | true => trivial
  | copy source target => exact .of_fault fun _ _ => trivial
  | boolean cells | range bits cells => trivial
  | select bit ifTrue ifFalse result => exact orderly_selectPlan bit ifTrue ifFalse result t
  | decompose value bits => exact .of_fault fun _ _ => .guard fun _ => trivial
  | limbSum h => exact h.orderly_plan t
  | greaterThan value bound limbBits result => exact .of_fault fun _ _ => trivial
  | fieldSum m hP => exact .of_fault fun a _ => .of_fault fun b _ => Identity.orderly_sumPlan hP m a b
  | fieldDifference m hP =>
    exact .of_fault fun a _ => .of_fault fun r _ => Identity.orderly_differencePlan hP m a r
  | fieldProduct m hP =>
    exact .of_fault fun a _ => .of_fault fun b _ => Identity.orderly_productPlan hP m a b
  | inverse a result allowZero hP => exact orderly_inversePlan hP a result allowZero t
  | slope p q result hE => exact orderly_slopePlan hE p q result t

namespace TraceM

def AbortsIn (A : Abort → Prop) (x : TraceM α) : Prop :=
  ∀ t abort t', x t = .error (.abort abort) t' → A abort

namespace AbortsIn

theorem pure (a : α) : AbortsIn A (pure a) := by
  intro t e t' h
  cases h

theorem bind {β : Type} {x : TraceM α} {f : α → TraceM β} (hx : AbortsIn A x) (hf : ∀ a, AbortsIn A (f a)) :
    AbortsIn A (x >>= f) := by
  intro t e t' h
  cases hrun : x t with
  | ok a t₁ =>
    rw [run_bind_of_ok hrun] at h
    exact hf a t₁ e t' h
  | error e' t₁ =>
    rw [run_bind_eq_error hrun] at h
    cases h
    exact hx t e _ hrun

theorem of_misplaces {x : TraceM α} (hx : Misplaces x) : AbortsIn A x := by
  intro t e t' h
  obtain ⟨cause, hcause, -⟩ := hx t _ t' h
  contradiction

end AbortsIn

abbrev NoAbort (x : TraceM α) : Prop :=
  AbortsIn (fun _ => False) x

end TraceM

theorem Plan.Orderly.abortsIn {p : Plan} (h : p.Orderly A) : TraceM.AbortsIn A p.perform := by
  induction p with
  | done => exact .pure ()
  | fail f =>
    rintro t abort t' ⟨⟩
    exact h abort rfl
  | write s xs rest ih => exact .bind (.of_misplaces (.writeSlice s xs)) fun _ => ih h
  | writeArray k a xs rest ih => exact .bind (.of_misplaces (.writeArray a _)) fun _ => ih h

theorem Instruction.abortsIn_of_orderly {i : Instruction} (h : ∀ t, (Plan.ofExcept (i.plan t)).Orderly A) :
    TraceM.AbortsIn A i.write := by
  intro t a t' hwrite
  have horderly := h t
  cases hplan : i.plan t with
  | ok p =>
    rw [hplan] at horderly
    rw [write_eq_perform hplan] at hwrite
    exact horderly.abortsIn t a t' hwrite
  | error f =>
    rw [hplan] at horderly
    rw [write_eq_error hplan] at hwrite
    cases hwrite
    exact horderly a rfl

theorem Instruction.Guarded.abortsIn {i : Instruction} (h : i.Guarded A) : TraceM.AbortsIn A i.write :=
  abortsIn_of_orderly h.orderly_plan

end ForeignCurve
