import ForeignCurve.Proofs.Instruction.Holds
import ForeignCurve.Proofs.Instruction.Plan

/-!
Limb sums are sums of integers. For limbs in range and boolean carries the constraints vanish only
when the numbers add up, and when they do, the witness pass finds carries that satisfy them.
-/

namespace ForeignCurve

open Fin.CommRing

namespace LimbSum

def carryNat : Option Native → Nat
  | none => 0
  | some c => c.val

theorem differences_cons (base a b r : Native) (carry : Option Native) (as bs rs cs : List Native) :
    differences base carry (a :: as) (b :: bs) (r :: rs) cs =
      (a + b + Native.ofNat (carryNat carry) -
          (r + Native.ofNat (carryNat cs.head?) * base)) ::
        differences base cs.head? as bs rs cs.tail := by
  have hzero : Native.ofNat 0 = 0 := rfl
  have hlhs : (match carry with
      | none => a + b
      | some c => a + b + c) = a + b + Native.ofNat (carryNat carry) := by
    cases carry with
    | none => rw [carryNat, hzero, add_zero]
    | some c => rw [carryNat, Native.ofNat_val]
  have hrhs : (match cs.head? with
      | none => r
      | some c => r + c * base) = r + Native.ofNat (carryNat cs.head?) * base := by
    cases cs.head? with
    | none => simp only [carryNat, hzero, zero_mul, add_zero]
    | some c => simp only [carryNat, Native.ofNat_val]
  rw [← hlhs, ← hrhs]
  cases carry <;> cases cs <;> rfl

variable {bits : Nat}

def Small (bits : Nat) (xs : List Native) : Prop :=
  ∀ x ∈ xs, x.val < 2 ^ bits

instance (bits : Nat) (xs : List Native) : Decidable (Small bits xs) :=
  List.decidableBAll (fun x : Native => x.val < 2 ^ bits) xs

theorem eq_of_decodeNative_eq (hbits : bits ≤ 64) {xs ys : List Native} (hlen : xs.length = ys.length)
    (hxs : Small bits xs) (hys : Small bits ys)
    (h : Limbs.decodeNative bits xs = Limbs.decodeNative bits ys) : xs = ys := by
  apply List.map_injective_iff.mpr Fin.val_injective
  apply Limbs.eq_of_decode_eq hbits ?_ (List.forall_mem_map.mpr hxs) (List.forall_mem_map.mpr hys) h
  rwa [List.length_map, List.length_map]

/--
The carries of a sum, limb by limb from the lowest on, with a carry `c` into it. There is none out of the
top limb.
-/
inductive Carries (bits : Nat) : Nat → List Nat → List Nat → List Nat → List Nat → Prop where
  | nil {c : Nat} {bs rs : List Nat} : Carries bits c [] bs rs []
  | top {c a b r : Nat} {bs rs : List Nat} (hbalance : a + b + c = r) :
    Carries bits c [a] (b :: bs) (r :: rs) []
  | limb {c c' a a' b r : Nat} {as bs rs cs : List Nat} (hbalance : a + b + c = r + c' * 2 ^ bits)
    (hle : c' ≤ 1) (hrest : Carries bits c' (a' :: as) bs rs cs) :
    Carries bits c (a :: a' :: as) (b :: bs) (r :: rs) (c' :: cs)

namespace Carries

variable {c : Nat} {as bs rs cs : List Nat}

theorem length_eq (h : Carries bits c as bs rs cs) : cs.length = as.length - 1 := by
  induction h with
  | nil => rfl
  | top hbalance => rfl
  | limb hbalance hle hrest ih =>
    simp only [List.length_cons] at ih ⊢
    omega

theorem le_one (h : Carries bits c as bs rs cs) : ∀ c ∈ cs, c ≤ 1 := by
  induction h with
  | nil => exact fun _ h => absurd h List.not_mem_nil
  | top hbalance => exact fun _ h => absurd h List.not_mem_nil
  | limb hbalance hle hrest ih => exact List.forall_mem_cons.mpr ⟨hle, ih⟩

theorem decode_add (h : Carries bits c as bs rs cs) (hpos : 0 < as.length)
    (hlenb : bs.length = as.length) (hlenr : rs.length = as.length) :
    Limbs.decode bits as + Limbs.decode bits bs + c = Limbs.decode bits rs := by
  -- from the lowest limb on: each balanced limb passes its carry to the rest
  induction h with
  | nil => contradiction
  | top hbalance =>
    obtain rfl := List.length_eq_zero_iff.mp (Nat.succ.inj hlenb)
    obtain rfl := List.length_eq_zero_iff.mp (Nat.succ.inj hlenr)
    rw [Limbs.decode_cons, Limbs.decode_cons, Limbs.decode_cons, Limbs.decode]
    omega
  | @limb c c' a a' b r as bs rs cs hbalance hle hrest ih =>
    have hscaled := congrArg (2 ^ bits * ·)
      (ih (Nat.succ_pos _) (Nat.succ.inj hlenb) (Nat.succ.inj hlenr))
    simp only [Nat.mul_add] at hscaled
    rw [Nat.mul_comm _ (2 ^ bits)] at hbalance
    rw [Limbs.decode_cons _ a, Limbs.decode_cons _ b, Limbs.decode_cons _ r]
    omega

theorem boolean (h : Carries bits c as bs rs cs) : ∀ c ∈ cs.map Native.ofNat, c = 0 ∨ c = 1 := by
  rw [List.forall_mem_map]
  intro c hc
  obtain rfl | rfl := Nat.le_one_iff_eq_zero_or_eq_one.mp (h.le_one c hc)
  · exact .inl rfl
  · exact .inr rfl

theorem unique {cs' : List Nat} (h : Carries bits c as bs rs cs) (h' : Carries bits c as bs rs cs') :
    cs = cs' := by
  induction h generalizing cs' with
  | nil =>
    cases h'
    rfl
  | top hbalance =>
    cases h'
    rfl
  | limb hbalance hle hrest ih =>
    cases h' with
    | limb hbalance' hle' hrest' =>
      have hmul := Nat.add_left_cancel (hbalance.symm.trans hbalance')
      obtain rfl := Nat.eq_of_mul_eq_mul_right (Nat.two_pow_pos bits) hmul
      rw [ih hrest']

theorem exists_limb {a b r x y z : Nat} (ha : a < 2 ^ bits) (hb : b < 2 ^ bits) (hr : r < 2 ^ bits)
    (hc : c ≤ 1) (h : 2 ^ bits * x + a + (2 ^ bits * y + b) + c = 2 ^ bits * z + r) :
    ∃ c', c' ≤ 1 ∧ a + b + c = r + c' * 2 ^ bits ∧ x + y + c' = z := by
  have hpos := Nat.two_pow_pos bits
  have hmod : (a + b + c) % 2 ^ bits = r := by
    have h' := congrArg (· % 2 ^ bits) h
    simp only [Nat.mul_add_mod, Nat.mod_eq_of_lt hr] at h'
    rw [show 2 ^ bits * x + a + (2 ^ bits * y + b) + c = 2 ^ bits * (x + y) + (a + b + c) by ring,
      Nat.mul_add_mod] at h'
    exact h'
  have hdiv := Nat.mod_add_div (a + b + c) (2 ^ bits)
  rw [hmod] at hdiv
  refine ⟨(a + b + c) / 2 ^ bits, ?_, ?_, ?_⟩
  · have hlt : (a + b + c) / 2 ^ bits < 2 := by
      rw [Nat.div_lt_iff_lt_mul hpos]
      omega
    omega
  · rw [Nat.mul_comm]
    exact hdiv.symm
  · apply Nat.eq_of_mul_eq_mul_left hpos
    rw [Nat.mul_add, Nat.mul_add]
    omega

theorem exists_of_decode_add (hc : c ≤ 1) (hlenb : bs.length = as.length) (hlenr : rs.length = as.length)
    (ha : ∀ a ∈ as, a < 2 ^ bits) (hb : ∀ b ∈ bs, b < 2 ^ bits) (hr : ∀ r ∈ rs, r < 2 ^ bits)
    (h : Limbs.decode bits as + Limbs.decode bits bs + c = Limbs.decode bits rs) :
    ∃ cs, Carries bits c as bs rs cs := by
  -- the carry out of the lowest limb is the one that makes the rest add up
  induction as generalizing c bs rs with
  | nil => exact ⟨[], .nil⟩
  | cons a as ih =>
    obtain ⟨b, bs, rfl⟩ := List.exists_cons_of_length_eq_add_one hlenb
    obtain ⟨r, rs, rfl⟩ := List.exists_cons_of_length_eq_add_one hlenr
    rw [List.forall_mem_cons] at ha hb hr
    simp only [List.length_cons, Nat.add_right_cancel_iff] at hlenb hlenr
    rw [Limbs.decode_cons, Limbs.decode_cons, Limbs.decode_cons] at h
    obtain ⟨c', hc', hbalance, hrest⟩ := exists_limb ha.1 hb.1 hr.1 hc h
    cases as with
    | nil =>
      obtain rfl := List.length_eq_zero_iff.mp hlenb
      obtain rfl := List.length_eq_zero_iff.mp hlenr
      -- nothing is left to carry to, so the top limb has no carry out
      obtain rfl : c' = 0 := by
        rw [Limbs.decode] at hrest
        omega
      rw [Nat.zero_mul, Nat.add_zero] at hbalance
      exact ⟨[], .top hbalance⟩
    | cons a' as =>
      obtain ⟨cs, hcs⟩ := ih hc' hlenb hlenr ha.2 hb.2 hr.2 hrest
      exact ⟨c' :: cs, .limb hbalance hc' hcs⟩

end Carries

section Words

variable {a b c r : Nat} {as bs rs cs : List Nat} {limbs i : Nat}

theorem carryOut_eq_ok (hbits : bits ≤ 62) (i : Nat) {c' : Nat} (ha : a < 2 ^ bits)
    (hb : b < 2 ^ bits) (hc : c ≤ 1) (hc' : c' ≤ 1) (h : a + b + c = r + c' * 2 ^ bits) :
    carryOut bits i c a b r = .ok c' := by
  have hpow : 2 ^ bits ≤ 2 ^ 62 := Nat.pow_le_pow_right (by decide) hbits
  have hexcess : a + b + c - r = c' * 2 ^ bits := by omega
  have hshift : (c' * 2 ^ bits) >>> bits = c' := by
    rw [Nat.shiftRight_eq_div_pow, Nat.mul_div_cancel _ (Nat.two_pow_pos _)]
  unfold carryOut
  dsimp only
  rw [if_pos (by omega), if_pos (by omega), if_pos (by omega), hexcess, hshift,
    Nat.shiftLeft_eq, if_pos ⟨rfl, hc'⟩]
  rfl

theorem eq_of_carryOut {c' : Nat} (h : carryOut bits i c a b r = .ok c') :
    a + b + c = r + c' * 2 ^ bits ∧ c' ≤ 1 := by
  unfold carryOut at h
  obtain ⟨-, h⟩ := of_unless h
  obtain ⟨hle, h⟩ := of_unless h
  obtain ⟨-, h⟩ := of_unless h
  obtain ⟨hcarry, h⟩ := of_unless h
  cases h
  rw [Nat.shiftLeft_eq] at hcarry
  omega

theorem Carries.carryBits_eq_ok (hbits : bits ≤ 62) (h : Carries bits c as bs rs cs) (limbs i : Nat)
    (hc : c ≤ 1) (ha : ∀ a ∈ as, a < 2 ^ bits) (hb : ∀ b ∈ bs, b < 2 ^ bits) :
    carryBits limbs bits i c as bs rs = .ok cs := by
  induction h generalizing i with
  | nil => rfl
  | top hbalance =>
    rw [List.forall_mem_cons] at ha hb
    have hout := carryOut_eq_ok hbits i ha.1 hb.1 hc (Nat.zero_le 1) (by rw [Nat.zero_mul, hbalance]; rfl)
    exact bind_eq_ok_iff.mpr ⟨0, hout, rfl⟩
  | limb hbalance hle hrest ih =>
    rw [List.forall_mem_cons] at ha hb
    have hout := carryOut_eq_ok hbits i ha.1 hb.1 hc hle hbalance
    exact bind_eq_ok_iff.mpr ⟨_, hout, bind_eq_ok_iff.mpr ⟨_, ih (i + 1) hle ha.2 hb.2, rfl⟩⟩

theorem carries_of_carryBits (h : carryBits limbs bits i c as bs rs = .ok cs) :
    Carries bits c as bs rs cs := by
  induction as generalizing i c bs rs cs with
  | nil =>
    cases h
    exact .nil
  | cons a as ih =>
    cases bs with
    | nil => contradiction
    | cons b bs =>
      cases rs with
      | nil => contradiction
      | cons r rs =>
        obtain ⟨c', hout, h⟩ := bind_eq_ok_iff.mp h
        obtain ⟨hbalance, hle⟩ := eq_of_carryOut hout
        -- The top limb has no carry out: the recursion ends one limb before the lists do.
        cases as with
        | nil =>
          obtain ⟨rfl, h⟩ := of_unless h
          cases h
          rw [Nat.zero_mul, Nat.add_zero] at hbalance
          exact .top hbalance
        | cons a' as =>
          obtain ⟨rest, hrest, h⟩ := bind_eq_ok_iff.mp h
          cases h
          exact .limb hbalance hle (ih hrest)

def Unequal (limbs : Nat) (cause : Fault) : Prop :=
  cause = .sumTooWide limbs ∨ ∃ i, cause = .inconsistentLimb i

theorem failsOnly_carryOut (hbits : bits < 64) (hsum : a + b + c < 2 ^ 64) :
    FailsOnly (· = .fault (.inconsistentLimb i)) (carryOut bits i c a b r) := by
  unfold carryOut
  dsimp only
  rw [if_pos hsum]
  refine .guard rfl fun _ => ?_
  rw [if_pos hbits]
  exact .guard rfl fun _ => .pure _

theorem failsOnly_carryBits (hbits : bits < 64) (hsum : ∀ a ∈ as, ∀ b ∈ bs, a + b + 1 < 2 ^ 64)
    (hlenb : bs.length = as.length) (hlenr : rs.length = as.length) (hc : c ≤ 1) :
    FailsOnly (fun f => ∃ cause, Unequal limbs cause ∧ f = .fault cause)
      (carryBits limbs bits i c as bs rs) := by
  induction as generalizing i c bs rs with
  | nil => exact .pure _
  | cons a as ih =>
    obtain ⟨b, bs, rfl⟩ := List.exists_cons_of_length_eq_add_one hlenb
    obtain ⟨r, rs, rfl⟩ := List.exists_cons_of_length_eq_add_one hlenr
    have hhead := hsum a List.mem_cons_self b List.mem_cons_self
    have hout : FailsOnly _ (carryOut bits i c a b r) := failsOnly_carryOut hbits (by omega)
    refine .bind (fun f hf => ⟨_, .inr ⟨i, rfl⟩, hout f hf⟩) fun c' hc' => ?_
    split
    · exact .guard ⟨_, .inl rfl, rfl⟩ fun _ => .pure _
    · have hrest := ih (i := i + 1)
        (fun a ha b hb => hsum a (List.mem_cons_of_mem _ ha) b (List.mem_cons_of_mem _ hb))
        (Nat.succ.inj hlenb) (Nat.succ.inj hlenr) (eq_of_carryOut hc').2
      exact .bind hrest fun _ _ => .pure _

end Words

theorem Carries.differences_eq_zero {c : Nat} {as bs rs : List Native} {cs : List Nat}
    (h : Carries bits c (as.map (·.val)) (bs.map (·.val)) (rs.map (·.val)) cs) (carry : Option Native)
    (hcarry : carryNat carry = c) :
    ∀ d ∈ differences (Native.ofNat (2 ^ bits)) carry as bs rs (cs.map Native.ofNat), d = 0 := by
  -- the balance of a limb, read in the native field
  have hnative {a b r : Native} {c c' : Nat} (h : a.val + b.val + c = r.val + c' * 2 ^ bits) :
      a + b + Native.ofNat c - (r + Native.ofNat c' * Native.ofNat (2 ^ bits)) = 0 := by
    have h := congrArg Native.ofNat h
    simp only [Native.ofNat_add, Native.ofNat_mul, Native.ofNat_val] at h
    rw [sub_eq_zero, h]
  induction as generalizing c carry bs rs cs with
  | nil => simp [differences]
  | cons a as ih =>
    subst hcarry
    cases as with
    | nil =>
      cases bs with
      | nil => cases h
      | cons b bs =>
        cases rs with
        | nil => cases h
        | cons r rs =>
          cases h with
          | top hbalance =>
            rw [List.map_nil, differences_cons, List.forall_mem_cons]
            refine ⟨hnative ?_, by simp [differences]⟩
            rw [hbalance, List.head?_nil, carryNat, Nat.zero_mul, Nat.add_zero]
    | cons a' as =>
      cases bs with
      | nil => cases h
      | cons b bs =>
        cases rs with
        | nil => cases h
        | cons r rs =>
          cases h with
          | @limb _ c' _ _ _ _ _ _ _ cs hbalance hle hrest =>
            have hval : carryNat (some (Native.ofNat c')) = c' :=
              Nat.mod_eq_of_lt (Nat.lt_of_le_of_lt hle (by decide))
            rw [List.map_cons, differences_cons, List.forall_mem_cons, List.head?_cons, List.tail_cons,
              hval]
            exact ⟨hnative hbalance, ih hrest _ hval⟩

section Sound

variable (hbits : bits ≤ 62)

include hbits

theorem difference_eq_zero_iff {a b r : Native} {c c' : Nat} (ha : a.val < 2 ^ bits)
    (hb : b.val < 2 ^ bits) (hr : r.val < 2 ^ bits) (hc : c ≤ 1) (hc' : c' ≤ 1) :
    a + b + Native.ofNat c - (r + Native.ofNat c' * Native.ofNat (2 ^ bits)) = 0 ↔
      a.val + b.val + c = r.val + c' * 2 ^ bits := by
  have hpow : 2 ^ bits ≤ 2 ^ 62 := Nat.pow_le_pow_right (by decide) hbits
  have horder : 2 ^ 62 * 2 < order := by decide
  have hmul : c' * 2 ^ bits ≤ 2 ^ bits := by
    have h := Nat.mul_le_mul_right (2 ^ bits) hc'
    rwa [Nat.one_mul] at h
  have heq (m n : Nat) (hm : m < order) (hn : n < order) :
      Native.ofNat m = Native.ofNat n ↔ m = n := by
    rw [Fin.ext_iff, Native.val_ofNat, Native.val_ofNat, Nat.mod_eq_of_lt hm, Nat.mod_eq_of_lt hn]
  -- both sides are below the order, so neither wraps around
  rw [sub_eq_zero, ← heq _ _ (by omega) (by omega)]
  simp only [Native.ofNat_add, Native.ofNat_mul, Native.ofNat_val]

theorem carries_of_differences {as bs rs cs : List Native} (carry : Option Native)
    (hcarry : carryNat carry ≤ 1) (hlenb : bs.length = as.length) (hlenr : rs.length = as.length)
    (hlenc : cs.length = as.length - 1) (ha : Small bits as) (hb : Small bits bs)
    (hr : Small bits rs) (hc : ∀ c ∈ cs, c.val ≤ 1)
    (h : ∀ d ∈ differences (Native.ofNat (2 ^ bits)) carry as bs rs cs, d = 0) :
    Carries bits (carryNat carry) (as.map (·.val)) (bs.map (·.val)) (rs.map (·.val))
      (cs.map (·.val)) := by
  induction as generalizing carry bs rs cs with
  | nil =>
    obtain rfl := List.length_eq_zero_iff.mp hlenc
    exact .nil
  | cons a as ih =>
    obtain ⟨b, bs, rfl⟩ := List.exists_cons_of_length_eq_add_one hlenb
    obtain ⟨r, rs, rfl⟩ := List.exists_cons_of_length_eq_add_one hlenr
    unfold Small at ha hb hr
    rw [List.forall_mem_cons] at ha hb hr
    rw [differences_cons, List.forall_mem_cons] at h
    simp only [List.length_cons, Nat.add_right_cancel_iff] at hlenb hlenr
    -- A difference that vanishes in the native field balances as numbers, the operands being small.
    have hlimb {d : Nat} (hd : d ≤ 1) := difference_eq_zero_iff hbits ha.1 hb.1 hr.1 hcarry hd
    cases as with
    | nil =>
      obtain rfl := List.length_eq_zero_iff.mp hlenc
      have hbalance := (hlimb (Nat.zero_le 1)).mp h.1
      rw [Nat.zero_mul, Nat.add_zero] at hbalance
      exact .top hbalance
    | cons a' as =>
      obtain ⟨c, cs, rfl⟩ := List.exists_cons_of_length_eq_add_one hlenc
      rw [List.forall_mem_cons] at hc
      exact .limb ((hlimb hc.1).mp h.1) hc.1
        (ih (some c) hc.1 hlenb hlenr (Nat.succ.inj hlenc) ha.2 hb.2 hr.2 hc.2 h.2)

end Sound

end LimbSum

variable {σ : Store} {n : Nat}

def LimbOperand.Reads (o : LimbOperand) (σ : Store) (n : Nat) (xs : List Native) : Prop :=
  o.values (σ.cells n) = .ok (xs.map some)

namespace LimbSum

theorem assertions_eq_ok_iff {sum : LimbSum} {xs ys zs cs : List Native}
    {as : List (Assertion (Option Native))} (ha : σ.Reads n sum.a xs) (hb : sum.b.Reads σ n ys)
    (hr : sum.result.Reads σ n zs)
    (hc : (sum.carries.toList.mapM fun r => (σ.cells n).get r.start) = .ok (cs.map some)) :
    sum.assertions (σ.cells n) = .ok as ↔ sum.limbBits < 64 ∧
      ∃ base, Native.ofWord (2 ^ sum.limbBits) = .ok base ∧
        as = (differences base none xs ys zs cs).map fun d => .vanishes (some d) := by
  have hmap (base : Native) : (differences base none (xs.map some) (ys.map some) (zs.map some)
      (cs.map some)).map Assertion.vanishes =
        (differences base none xs ys zs cs).map fun d => .vanishes (some d) := by
    have h := map_differences Arith.hom_some base none xs ys zs cs
    rw [Option.map_none] at h
    rw [← h, List.map_map]
    rfl
  have heq : sum.assertions (σ.cells n) = if sum.limbBits < 64 then
      (fun base => (differences base none (xs.map some) (ys.map some) (zs.map some) (cs.map some)).map
        .vanishes) <$> Native.ofWord (2 ^ sum.limbBits)
      else .error .wordOverflow := by
    unfold assertions
    rw [ha, hb, hr, hc]
    change (if _ then _ else _) = _
    split <;> rfl
  rw [heq]
  split
  · next hbits =>
    simp only [hbits, true_and, hmap]
    exact map_eq_ok_iff.trans (by simp only [eq_comm])
  · next hbits => simp [hbits]

def recorded (a : CellSlice) (b result : LimbOperand) (limbBits k : Nat) : LimbSum where
  a := a
  b := b
  result := result
  carries := ⟨⟨k, a.len - 1⟩, a.len - 1⟩
  limbBits := limbBits

theorem holds_recorded_iff {a : CellSlice} {b result : LimbOperand} {limbBits k : Nat}
    {as bs rs cs : List Native} (hbits : limbBits ≤ 62) (ha : σ.Reads n a as) (hb : b.Reads σ n bs)
    (hr : result.Reads σ n rs) (hc : σ.Reads n ⟨k, a.len - 1⟩ cs) :
    (Instruction.limbSum (recorded a b result limbBits k)).Holds σ n ↔
      ∀ d ∈ differences (Native.ofNat (2 ^ limbBits)) none as bs rs cs, d = 0 := by
  have hwidth : limbBits < 64 := Nat.lt_of_le_of_lt hbits (by decide)
  exact Instruction.holds_vanishes_iff ((assertions_eq_ok_iff ha hb hr (hc.mapM_get rfl)).mpr
    ⟨hwidth, _, Native.ofWord_eq_ok (two_pow_lt_order hwidth), rfl⟩)

section Plans

variable {s : LimbSum} {t : Trace} {xs : List Native} {bs rs : List Nat}

theorem exists_carriesPlan (hbits : s.limbBits ≤ 62) {as : List Nat} (hlenb : bs.length = as.length)
    (hlenr : rs.length = as.length) (ha : ∀ a ∈ as, a < 2 ^ s.limbBits)
    (hb : ∀ b ∈ bs, b < 2 ^ s.limbBits) (hr : ∀ r ∈ rs, r < 2 ^ s.limbBits)
    (h : Limbs.decode s.limbBits as + Limbs.decode s.limbBits bs = Limbs.decode s.limbBits rs) :
    ∃ cs, Carries s.limbBits 0 as bs rs cs ∧
      s.carriesPlan as bs rs = .ok (.writeArray .bit s.carries (cs.map Native.ofNat) .done) := by
  obtain ⟨cs, hcs⟩ := Carries.exists_of_decode_add (Nat.zero_le 1) hlenb hlenr ha hb hr h
  have hok := hcs.carryBits_eq_ok hbits s.a.len 0 (Nat.zero_le 1) ha hb
  exact ⟨cs, hcs, bind_eq_ok_iff.mpr ⟨cs, hok, rfl⟩⟩

theorem carriesPlan_eq_error (hbits : s.limbBits ≤ 62) {as : List Nat} (hpos : 0 < as.length)
    (hlenb : bs.length = as.length) (hlenr : rs.length = as.length) (ha : ∀ a ∈ as, a < 2 ^ s.limbBits)
    (hb : ∀ b ∈ bs, b < 2 ^ s.limbBits)
    (h : Limbs.decode s.limbBits as + Limbs.decode s.limbBits bs ≠ Limbs.decode s.limbBits rs) :
    ∃ cause, Unequal s.a.len cause ∧ s.carriesPlan as bs rs = .error (.fault cause) := by
  have hpow : 2 ^ s.limbBits ≤ 2 ^ 62 := Nat.pow_le_pow_right (by decide) hbits
  have hsum : ∀ a ∈ as, ∀ b ∈ bs, a + b + 1 < 2 ^ 64 := by
    intro a hmem b hmem'
    have hlt := ha a hmem
    have hlt' := hb b hmem'
    omega
  unfold carriesPlan
  cases hcarries : carryBits s.a.len s.limbBits 0 0 as bs rs with
  | ok cs => exact absurd ((carries_of_carryBits hcarries).decode_add hpos hlenb hlenr) h
  | error f =>
    obtain ⟨cause, hcause, rfl⟩ := failsOnly_carryBits (Nat.lt_of_le_of_lt hbits (by decide)) hsum
      hlenb hlenr (Nat.zero_le 1) f hcarries
    exact ⟨cause, hcause, rfl⟩

theorem derivedPlan_encode {bits : Nat} (hbits : bits ≤ 62) (derived : CellSlice) (count value : Nat)
    (rest : Except Failure Plan) :
    derivedPlan derived (Limbs.encode bits count value) rest =
      .ok (.write derived ((Limbs.encode bits count value).map Native.ofNat) (.ofExcept rest)) := by
  have horder : ∀ w ∈ Limbs.encode bits count value, w < order :=
    fun _ => Limbs.lt_order_of_mem_encode (Nat.lt_of_le_of_lt hbits (by decide))
  exact bind_eq_ok_iff.mpr ⟨_, liftM_abort_eq_ok_iff.mpr (Native.ofWords_eq_ok horder), rfl⟩

theorem plan_result {r : CellSlice} (hr : s.result = .cells r) (ha : t.readSlice s.a = .ok xs)
    (hb : s.b.read t = .ok bs) :
    s.plan t = if Limbs.decodeNative s.limbBits xs + Limbs.decode s.limbBits bs <
          2 ^ (s.limbBits * s.a.len) then
        let sum := Limbs.encode s.limbBits s.a.len
          (Limbs.decodeNative s.limbBits xs + Limbs.decode s.limbBits bs)
        derivedPlan r sum (s.carriesPlan (xs.map (·.val)) bs sum)
      else .error (.fault (.sumTooWide s.a.len)) := by
  have hwidth (v : Nat) : bitLength v ≤ s.a.len * s.limbBits ↔ v < 2 ^ (s.limbBits * s.a.len) := by
    rw [Nat.mul_comm, bitLength_le_iff]
  unfold plan
  rw [ha, hr]
  generalize s.b = b at hb
  cases b with
  | cells b =>
    dsimp only
    rw [hb]
    exact if_congr (hwidth _) rfl rfl
  | const limbs =>
    cases hb
    exact if_congr (hwidth _) rfl rfl

theorem plan_summand {b : CellSlice} (hb : s.b = .cells b) (hr : s.result = .const rs)
    (ha : t.readSlice s.a = .ok xs) :
    s.plan t = if Limbs.decodeNative s.limbBits xs ≤ Limbs.decode s.limbBits rs then
        let difference := Limbs.encode s.limbBits s.a.len
          (Limbs.decode s.limbBits rs - Limbs.decodeNative s.limbBits xs)
        derivedPlan b difference (s.carriesPlan (xs.map (·.val)) difference rs)
      else .error (.fault (.negativeDifference (Limbs.decodeNative s.limbBits xs)
        (Limbs.decode s.limbBits rs))) := by
  unfold plan
  rw [ha, hr, hb]
  change (if Limbs.decodeNative s.limbBits xs ≤ Limbs.decode s.limbBits rs then _ else _) = _
  split
  · next hle =>
    have hsub : checkedSub (Limbs.decode s.limbBits rs) (Limbs.decodeNative s.limbBits xs) =
        .ok (Limbs.decode s.limbBits rs - Limbs.decodeNative s.limbBits xs) := if_pos hle
    unfold Limbs.decodeNative at hsub
    rw [hsub]
    rfl
  · rfl

theorem plan_const (hb : s.b = .const bs) (hr : s.result = .const rs) (ha : t.readSlice s.a = .ok xs) :
    s.plan t = s.carriesPlan (xs.map (·.val)) bs rs := by
  unfold plan
  rw [ha, hr, hb]
  rfl

end Plans

def allocated (P : FieldParams) (a : FieldRegister P) (b result : LimbOperand) (k : Nat) : LimbSum where
  a := a.slice
  b := b
  result := result
  carries := ⟨⟨k, P.limbs - 1⟩, P.limbs - 1⟩
  limbBits := P.limbBits

section Parameters

variable {P : FieldParams} [P.HasHeadroom] {a : FieldRegister P} {b result : LimbOperand} {k : Nat}
  {as bs rs cs : List Native}

theorem limbBits_le : P.limbBits ≤ 62 := Nat.le_trans FieldParams.limbBits_le (by decide)

theorem holds_iff (ha : σ.Reads n a.slice as) (hb : b.Reads σ n bs) (hr : result.Reads σ n rs)
    (hc : σ.Reads n ⟨k, P.limbs - 1⟩ cs) :
    (Instruction.limbSum (allocated P a b result k)).Holds σ n ↔
      ∀ d ∈ differences (Native.ofNat (2 ^ P.limbBits)) none as bs rs cs, d = 0 :=
  holds_recorded_iff limbBits_le ha hb hr hc

variable {A B R : Nat}

theorem add_eq_of_holds (hA : A < 2 ^ P.bits) (hB : B < 2 ^ P.bits) (hR : R < 2 ^ P.bits)
    (ha : σ.Reads n a.slice (P.digits A)) (hb : b.Reads σ n (P.digits B))
    (hr : result.Reads σ n (P.digits R)) (hc : σ.Reads n ⟨k, P.limbs - 1⟩ cs)
    (hbool : ∀ c ∈ cs, c = 0 ∨ c = 1)
    (h : (Instruction.limbSum (allocated P a b result k)).Holds σ n) : A + B = R := by
  have hlen := FieldParams.length_digits (P := P)
  have hone : ∀ c ∈ cs, c.val ≤ 1 := by
    intro c hmem
    obtain rfl | rfl := hbool c hmem
    · exact Nat.zero_le 1
    · exact Nat.le_refl 1
  have hcarries := carries_of_differences limbBits_le none (Nat.zero_le 1)
    (by rw [hlen, hlen]) (by rw [hlen, hlen]) (by rw [hlen, hc.length_eq])
    (P.inRange_digits A) (P.inRange_digits B) (P.inRange_digits R) hone
    ((holds_iff ha hb hr hc).mp h)
  have hsum := hcarries.decode_add (by rw [List.length_map, hlen]; exact FieldParams.limbs_pos)
    (by simp only [List.length_map, hlen]) (by simp only [List.length_map, hlen])
  change P.decode _ + P.decode _ + 0 = P.decode _ at hsum
  rwa [FieldParams.decode_digits_of_lt hA, FieldParams.decode_digits_of_lt hB,
    FieldParams.decode_digits_of_lt hR] at hsum

theorem decode_encode_of_lt {N : Nat} (h : N < 2 ^ P.bits) :
    Limbs.decode P.limbBits (Limbs.encode P.limbBits P.limbs N) = N := by
  rw [← FieldParams.map_val_digits]
  exact FieldParams.decode_digits_of_lt h

theorem exists_carries (hA : A < 2 ^ P.bits) (hB : B < 2 ^ P.bits) (hR : R < 2 ^ P.bits)
    (h : A + B = R) :
    ∃ cs : List Native, (∀ a b result k, (allocated P a b result k).carriesPlan
        (Limbs.encode P.limbBits P.limbs A) (Limbs.encode P.limbBits P.limbs B)
        (Limbs.encode P.limbBits P.limbs R) =
          .ok (.writeArray .bit ⟨⟨k, P.limbs - 1⟩, P.limbs - 1⟩ cs .done)) ∧
      cs.length = P.limbs - 1 ∧ (∀ c ∈ cs, c = 0 ∨ c = 1) ∧
      ∀ d ∈ differences (Native.ofNat (2 ^ P.limbBits)) none (P.digits A) (P.digits B) (P.digits R) cs,
        d = 0 := by
  have hlen (N : Nat) : (Limbs.encode P.limbBits P.limbs N).length = P.limbs := Limbs.length_encode ..
  have hlt (N : Nat) : ∀ x ∈ Limbs.encode P.limbBits P.limbs N, x < 2 ^ P.limbBits :=
    fun _ => Limbs.lt_of_mem_encode
  have hsum : Limbs.decode P.limbBits (Limbs.encode P.limbBits P.limbs A) +
      Limbs.decode P.limbBits (Limbs.encode P.limbBits P.limbs B) =
        Limbs.decode P.limbBits (Limbs.encode P.limbBits P.limbs R) := by
    rw [decode_encode_of_lt hA, decode_encode_of_lt hB, decode_encode_of_lt hR, h]
  have hplan (a b result k) := exists_carriesPlan (s := allocated P a b result k) limbBits_le
    (by rw [hlen, hlen]) (by rw [hlen, hlen]) (hlt A) (hlt B) (hlt R) hsum
  obtain ⟨cs, hcs⟩ := Carries.exists_of_decode_add (Nat.zero_le 1) (by rw [hlen, hlen])
    (by rw [hlen, hlen]) (hlt A) (hlt B) (hlt R) hsum
  refine ⟨cs.map Native.ofNat, fun a b result k => ?_, ?_, ?_, ?_⟩
  · obtain ⟨cs', hcs', hplan⟩ := hplan a b result k
    rw [hcs.unique hcs']
    exact hplan
  · rw [List.length_map, hcs.length_eq, hlen]
  · exact hcs.boolean
  · apply Carries.differences_eq_zero _ none rfl
    rw [FieldParams.map_val_digits, FieldParams.map_val_digits, FieldParams.map_val_digits]
    exact hcs

variable {t : Trace} {r : FieldRegister P} {rest : Plan}

theorem derivedPlan_eq_ok (N : Nat) (rest : Plan) :
    derivedPlan r.slice (Limbs.encode P.limbBits P.limbs N) (.ok rest) =
      .ok (.write r.slice (P.digits N) rest) :=
  derivedPlan_encode limbBits_le r.slice P.limbs N (.ok rest)

theorem decodeNative_digits {N : Nat} (h : N < 2 ^ P.bits) :
    Limbs.decodeNative P.limbBits (P.digits N) = N :=
  FieldParams.decode_digits_of_lt h

theorem plan_cells_result (hA : A < 2 ^ P.bits) (hB : B < 2 ^ P.bits) (hsum : A + B < 2 ^ P.bits)
    (ha : t.readSlice a.slice = .ok (P.digits A))
    (h : (allocated P a (.const (Limbs.encode P.limbBits P.limbs B)) (.cells r.slice) k).carriesPlan
      (Limbs.encode P.limbBits P.limbs A) (Limbs.encode P.limbBits P.limbs B)
      (Limbs.encode P.limbBits P.limbs (A + B)) = .ok rest) :
    (allocated P a (.const (Limbs.encode P.limbBits P.limbs B)) (.cells r.slice) k).plan t =
      .ok (.write r.slice (P.digits (A + B)) rest) := by
  have hplan := plan_result (s := allocated P a (.const (Limbs.encode P.limbBits P.limbs B))
    (.cells r.slice) k) rfl ha rfl
  change plan _ _ = if Limbs.decodeNative P.limbBits _ + Limbs.decode P.limbBits _ < 2 ^ P.bits then
    derivedPlan r.slice (Limbs.encode P.limbBits P.limbs (Limbs.decodeNative P.limbBits _ +
      Limbs.decode P.limbBits _)) (carriesPlan _ _ _ (Limbs.encode P.limbBits P.limbs
        (Limbs.decodeNative P.limbBits _ + Limbs.decode P.limbBits _))) else _ at hplan
  rw [decodeNative_digits hA, decode_encode_of_lt hB, if_pos hsum, FieldParams.map_val_digits, h] at hplan
  exact hplan.trans (derivedPlan_eq_ok _ _)

theorem add_lt_of_plan {result : CellSlice} {p : Plan} (hA : A < 2 ^ P.bits) (hB : B < 2 ^ P.bits)
    (ha : t.readSlice a.slice = .ok (P.digits A))
    (h : (allocated P a (.const (Limbs.encode P.limbBits P.limbs B)) (.cells result) k).plan t = .ok p) :
    A + B < 2 ^ P.bits := by
  rw [plan_result rfl ha rfl] at h
  change (if Limbs.decodeNative P.limbBits _ + Limbs.decode P.limbBits _ < 2 ^ P.bits then _ else _) = _ at h
  rw [decodeNative_digits hA, decode_encode_of_lt hB] at h
  split at h
  · next hsum => exact hsum
  · contradiction

theorem plan_cells_summand (hA : A < 2 ^ P.bits) (hR : R < 2 ^ P.bits) (hle : A ≤ R)
    (ha : t.readSlice a.slice = .ok (P.digits A))
    (h : (allocated P a (.cells r.slice) (.const (Limbs.encode P.limbBits P.limbs R)) k).carriesPlan
      (Limbs.encode P.limbBits P.limbs A) (Limbs.encode P.limbBits P.limbs (R - A))
      (Limbs.encode P.limbBits P.limbs R) = .ok rest) :
    (allocated P a (.cells r.slice) (.const (Limbs.encode P.limbBits P.limbs R)) k).plan t =
      .ok (.write r.slice (P.digits (R - A)) rest) := by
  have hplan := plan_summand (s := allocated P a (.cells r.slice)
    (.const (Limbs.encode P.limbBits P.limbs R)) k) rfl rfl ha
  change plan _ _ = if Limbs.decodeNative P.limbBits _ ≤ Limbs.decode P.limbBits _ then
    derivedPlan r.slice (Limbs.encode P.limbBits P.limbs (Limbs.decode P.limbBits _ -
      Limbs.decodeNative P.limbBits _)) (carriesPlan _ _ (Limbs.encode P.limbBits P.limbs
        (Limbs.decode P.limbBits _ - Limbs.decodeNative P.limbBits _)) _) else _ at hplan
  rw [decodeNative_digits hA, decode_encode_of_lt hR, if_pos hle, FieldParams.map_val_digits, h] at hplan
  exact hplan.trans (derivedPlan_eq_ok _ _)

end Parameters

end LimbSum

end ForeignCurve
