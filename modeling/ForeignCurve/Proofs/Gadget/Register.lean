import ForeignCurve.Proofs.Instruction.Identity
import ForeignCurve.Gadget.Field
import ForeignCurve.Proofs.Scenario

namespace ForeignCurve

namespace Scenario

variable {P : FieldParams} (w : Scenario)

structure Number (r : FieldRegister P) (N : Nat) : Prop where
  lt : N < 2 ^ P.bits
  reads : w.Reads r.slice (P.digits N)

def Represents (r : FieldRegister P) (x : ZMod P.modulus) : Prop :=
  ∃ N, w.Number r N ∧ (N : ZMod P.modulus) = x

def Residue (r : FieldRegister P) (x : ZMod P.modulus) : Prop :=
  ∃ N, w.Number r N ∧ (N : ZMod P.modulus) = x ∧ (w.Honest → N < P.modulus)

def Bit (r : Register .bit) (β : Bool) : Prop :=
  w.Reads r.slice [Native.ofBool β]

variable {w}

section Number

variable [P.HasHeadroom] {r : FieldRegister P} {N : Nat}

theorem Number.unique {N' : Nat} (h : w.Number r N) (h' : w.Number r N') : N = N' := by
  have hdigits := h.reads.unique h'.reads
  rw [← FieldParams.decode_digits_of_lt h.lt, hdigits, FieldParams.decode_digits_of_lt h'.lt]

theorem exists_number {xs : List Native} (h : w.Reads r.slice xs) (hrange : P.InRange xs) :
    ∃ N, w.Number r N := by
  have hlen : xs.length = P.limbs := h.length_eq
  refine ⟨P.decode xs, FieldParams.decode_lt hlen hrange, ?_⟩
  rw [FieldParams.digits_decode hlen hrange]
  exact h

end Number

section Residue

variable {r : FieldRegister P} {x y : ZMod P.modulus}

theorem Residue.of_number {N : Nat} (h : w.Number r N) (hlt : w.Honest → N < P.modulus) :
    w.Residue r (N : ZMod P.modulus) :=
  ⟨N, h, rfl, hlt⟩

theorem Residue.represents (h : w.Residue r x) : w.Represents r x := by
  obtain ⟨N, hN, hcast, -⟩ := h
  exact ⟨N, hN, hcast⟩

theorem Represents.of_number {N : Nat} (h : w.Number r N) : w.Represents r (N : ZMod P.modulus) :=
  ⟨N, h, rfl⟩

theorem Residue.number (h : w.Residue r x) (hw : w.Honest) : w.Number r x.val := by
  obtain ⟨N, hN, rfl, hlt⟩ := h
  rw [ZMod.val_natCast, Nat.mod_eq_of_lt (hlt hw)]
  exact hN

theorem Residue.congr (h : w.Residue r x) (hxy : x = y) : w.Residue r y :=
  hxy ▸ h

end Residue

end Scenario

section Block

variable {P : FieldParams}

namespace Identity

def blockSize (P : FieldParams) : Nat :=
  P.limbs + (P.limbs + (P.witnessLimbs + P.witnessLimbs))

def rules (P : FieldParams) (k : Nat) : List Instruction :=
  (Record.ruleInstruction? (.range P.limbBits) ⟨k, P.limbs⟩).toList ++
    ((Record.ruleInstruction? (.range P.limbBits) ⟨k + P.limbs, P.limbs⟩).toList ++
      ((Record.ruleInstruction? (.range P.limbBits)
          ⟨k + P.limbs + P.limbs, P.witnessLimbs⟩).toList ++
        (Record.ruleInstruction? (.range P.limbBits)
          ⟨k + P.limbs + P.limbs + P.witnessLimbs, P.witnessLimbs⟩).toList))

theorem passive_rules (k : Nat) : ∀ i ∈ rules P k, i.Passive := by
  unfold rules
  simp only [List.mem_append]
  rintro i (h | h | h | h)
  all_goals exact Record.passive_ruleInstruction? _ _ i h

structure Reads (P : FieldParams) (σ : Store) (n k : Nat) (r c low high : List Native) : Prop where
  result : σ.Reads n ⟨k, P.limbs⟩ r
  carry : σ.Reads n ⟨k + P.limbs, P.limbs⟩ c
  low : σ.Reads n ⟨k + P.limbs + P.limbs, P.witnessLimbs⟩ low
  high : σ.Reads n ⟨k + P.limbs + P.limbs + P.witnessLimbs, P.witnessLimbs⟩ high

variable {σ : Store} {n k : Nat} {r c low high : List Native}

theorem reads_iff (hr : r.length = P.limbs) (hc : c.length = P.limbs)
    (hlow : low.length = P.witnessLimbs) :
    σ.Reads n ⟨k, blockSize P⟩ (r ++ (c ++ (low ++ high))) ↔ Reads P σ n k r c low high := by
  unfold blockSize
  rw [Store.reads_append_iff hr, Store.reads_append_iff hc, Store.reads_append_iff hlow]
  constructor
  · rintro ⟨h₁, h₂, h₃, h₄⟩
    exact ⟨h₁, h₂, h₃, h₄⟩
  · rintro ⟨h₁, h₂, h₃, h₄⟩
    exact ⟨h₁, h₂, h₃, h₄⟩

theorem holds_rules_iff [P.HasHeadroom] (hbound : k + blockSize P ≤ n) :
    (∀ i ∈ rules P k, i.Holds σ n) ↔ ∃ r c low high, Reads P σ n k r c low high ∧
      P.InRange r ∧ P.InRange c ∧ P.InRange low ∧ P.InRange high := by
  unfold blockSize at hbound
  unfold rules
  rw [List.forall_mem_append, List.forall_mem_append, List.forall_mem_append,
    Instruction.holds_rule_range_iff (by omega),
    Instruction.holds_rule_range_iff (by omega),
    Instruction.holds_rule_range_iff (by omega),
    Instruction.holds_rule_range_iff (by omega)]
  constructor
  · rintro ⟨⟨r, hr, hr'⟩, ⟨c, hc, hc'⟩, ⟨low, hlow, hlow'⟩, high, hhigh, hhigh'⟩
    exact ⟨r, c, low, high, ⟨hr, hc, hlow, hhigh⟩, hr', hc', hlow', hhigh'⟩
  · rintro ⟨r, c, low, high, ⟨hr, hc, hlow, hhigh⟩, hr', hc', hlow', hhigh'⟩
    exact ⟨⟨r, hr, hr'⟩, ⟨c, hc, hc'⟩, ⟨low, hlow, hlow'⟩, high, hhigh, hhigh'⟩

end Identity

namespace Record.AddsAt

variable [P.HasHeadroom]

theorem identity (a b result : FieldRegister P) (k : Nat) :
    (Gadget.identity a b result).AddsAt k (Identity.allocated a b result k)
      (P.limbs + (P.witnessLimbs + P.witnessLimbs))
      ((ruleInstruction? (.range P.limbBits) ⟨k, P.limbs⟩).toList ++
        ((ruleInstruction? (.range P.limbBits) ⟨k + P.limbs, P.witnessLimbs⟩).toList ++
          (ruleInstruction? (.range P.limbBits)
            ⟨k + P.limbs + P.witnessLimbs, P.witnessLimbs⟩).toList)) := by
  unfold Gadget.identity
  apply bind_nothing (requireHeadroom k P)
  apply bind (alloc k (.field P))
  apply bind (allocArray _ rfl P.witnessLimbs)
  exact bind_pure (allocArray _ rfl P.witnessLimbs)

theorem identityBlock {set : FieldRegister P → Record Unit} {a b result : FieldRegister P → FieldRegister P}
    {f : Identity P → Instruction}
    (hset : ∀ r, set r = do Record.append (f (← Gadget.identity (a r) (b r) (result r)))) (k : Nat) :
    (do
      let r ← Record.alloc (.field P)
      set r
      return r : Record (FieldRegister P)).AddsAt k ⟨k⟩ (Identity.blockSize P)
      (Identity.rules P k ++
        [f (Identity.allocated (a ⟨k⟩) (b ⟨k⟩) (result ⟨k⟩) (k + P.limbs))]) := by
  unfold Identity.rules
  rw [List.append_assoc]
  apply bind (alloc k (.field P))
  apply bind_pure
  rw [hset]
  exact bind_append (identity (a ⟨k⟩) (b ⟨k⟩) (result ⟨k⟩) (k + P.limbs))

end Record.AddsAt

end Block

end ForeignCurve
