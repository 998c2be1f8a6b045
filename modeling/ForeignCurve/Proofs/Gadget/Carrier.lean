import ForeignCurve.Proofs.Gadget.Block

/-!
What every block carries on holds behind all gadgets. The blocks of a recording only ever take their
operands from cells that are known by then.
-/

namespace ForeignCurve

/-- A property of the states of a recording that is carried on by every block. -/
structure Carrier where
  Known : CellSlice → Prop
  Covers : Builder → Prop
  Reaches : Builder → Prop
  part : ∀ {s : CellSlice} {first len : Nat}, Known s → first + len ≤ s.len →
    Known ⟨s.start + first, len⟩
  covers : ∀ {b b' : Builder}, b.Extends b' → Covers b' → Covers b
  block : ∀ {b b' : Builder} {operands : List CellSlice} {n : Nat} {rules : List Instruction}
    {i : Instruction}, Reaches b → Covers b' → b.Adds n (rules ++ [i]) b' →
    Block operands b.numCells (b.numCells + n) rules i → (∀ s ∈ operands, Known s) →
    Reaches b' ∧ ∀ s, s.stop ≤ b'.numCells → Known s

namespace Carrier

variable {v : Carrier} {α β : Type}

def Step (v : Carrier) (g : Record α) (Q : α → Prop) : Prop :=
  ∀ ⦃b a b'⦄, g.run b = .ok (a, b') → v.Covers b' → v.Reaches b → v.Reaches b' ∧ Q a

theorem step_of_addsBlock {g : Record α} {operands : List CellSlice} {results : α → List CellSlice}
    (hg : g.AddsBlock operands results) (hoperands : ∀ s ∈ operands, v.Known s) :
    v.Step g fun a => ∀ s ∈ results a, v.Known s := by
  intro b a b' hrun hcovers hb
  obtain ⟨a₁, n, rules, i, hat, hblock, hresults⟩ := hg b.numCells
  obtain ⟨rfl, hadds⟩ := hat.of_run hrun
  obtain ⟨hb', hknown⟩ := v.block hb hcovers hadds hblock hoperands
  refine ⟨hb', fun s hs => hknown s ?_⟩
  rw [hadds.numCells]
  exact hresults s hs

def Related (v : Carrier) (g _ : Record α) (R : α → α → Prop) : Prop :=
  v.Step g fun a => ∃ a', R a a'

theorem related_of_addsBlock {g g' : Record α} {operands : List CellSlice} {results : α → List CellSlice}
    {R : α → α → Prop} (hg : g.AddsBlock operands results) (hoperands : ∀ s ∈ operands, v.Known s)
    (hR : ∀ a, (∀ s ∈ results a, v.Known s) → R a a) : v.Related g g' R := by
  intro b a b' hrun hcovers hb
  obtain ⟨hb', hresults⟩ := step_of_addsBlock hg hoperands hrun hcovers hb
  exact ⟨hb', a, hR a hresults⟩

def Same (v : Carrier) (s s' : CellSlice) : Prop :=
  s = s' ∧ v.Known s

theorem related_register {k : Kind} {g g' : Record (Register k)} {operands : List CellSlice}
    (hg : g.AddsBlock operands fun r => [r.slice]) (hoperands : ∀ s ∈ operands, v.Known s) :
    v.Related g g' fun r r' => v.Same r.slice r'.slice :=
  related_of_addsBlock hg hoperands fun _ h => ⟨rfl, h _ (List.mem_singleton_self _)⟩

theorem related_nothing {g g' : Record Unit} {operands : List CellSlice}
    (hg : g.AddsBlock operands fun _ => []) (hoperands : ∀ s ∈ operands, v.Known s) :
    v.Related g g' fun _ _ => True :=
  related_of_addsBlock hg hoperands fun _ _ => trivial

def logic (v : Carrier) : RecordLogic where
  Run := v.Same
  Admits P := P.headroom = .ok ()
  Step := v.Related
  part h _ hlen := by
    obtain ⟨rfl, hs⟩ := h
    exact ⟨rfl, v.part hs hlen⟩
  pure hR := by
    intro b a b' hrun _ hb
    cases hrun
    exact ⟨hb, _, hR⟩
  bind := by
    intro α β g g' f f' R S hgrows hg hf b c b'' hrun hcovers hb
    obtain ⟨a, b', hrun₁, hrun₂⟩ := Record.run_bind_eq_ok_iff.mp hrun
    obtain ⟨hb', a', ha⟩ := hg hrun₁ (v.covers ((hgrows a).grows hrun₂) hcovers) hb
    exact hf a a' ha hrun₂ hcovers hb'
  lift x := by
    intro b a b' hrun _ hb
    cases x with
    | error e => contradiction
    | ok a₁ =>
      cases hrun
      exact ⟨hb, _, rfl⟩
  throw e R := by
    intro b a b' hrun
    contradiction
  constant {P} value hP := by
    have hheadroom : P.HasHeadroom := ⟨hP⟩
    intro b r b' hrun
    have hencodes : P.Encodes value := Needs.needs (g := Gadget.constant P value) hrun
    have hne : NeZero P.modulus := ⟨hencodes.modulus_ne_zero⟩
    have hrelated : v.Related _ (Gadget.constant P value) _ :=
      related_register (.constant value) (by simp)
    exact hrelated hrun
  assertEqualConstant {P a a'} value hP ha := by
    have hheadroom : P.HasHeadroom := ⟨hP⟩
    intro b r b' hrun
    have hencodes : P.Encodes value := Needs.needs (g := Gadget.assertEqualConstant a value) hrun
    have hne : NeZero P.modulus := ⟨hencodes.modulus_ne_zero⟩
    have hrelated : v.Related _ (Gadget.assertEqualConstant a' value) _ :=
      related_nothing (.assertEqualConstant a value) (by simpa using ha.2)
    exact hrelated hrun
  add {P a a' b b'} hP ha hb :=
    have hheadroom : P.HasHeadroom := ⟨hP⟩
    related_register (.add a b) (by simpa using ⟨ha.2, hb.2⟩)
  sub {P a a' b b'} hP ha hb :=
    have hheadroom : P.HasHeadroom := ⟨hP⟩
    related_register (.sub a b) (by simpa using ⟨ha.2, hb.2⟩)
  mul {P a a' b b'} hP ha hb :=
    have hheadroom : P.HasHeadroom := ⟨hP⟩
    related_register (.mul a b) (by simpa using ⟨ha.2, hb.2⟩)
  inverseHint {P a a'} allowZero hP ha :=
    have hheadroom : P.HasHeadroom := ⟨hP⟩
    related_register (.inverseHint a allowZero) (by simpa using ha.2)
  assertCanonical {P a a'} hP ha :=
    have hheadroom : P.HasHeadroom := ⟨hP⟩
    related_nothing (.assertCanonical a) (by simpa using ha.2)
  select {k bit bit' a a' b b'} hbit ha hb :=
    related_register (.select bit a b) (by simpa using ⟨hbit.2, ha.2, hb.2⟩)
  decompose {value value'} count hvalue :=
    related_of_addsBlock (.decompose value count) (by simpa using hvalue.2) fun bits hbits => by
      rw [List.forall_mem_map] at hbits
      exact List.forall₂_same.mpr fun r hr => ⟨rfl, hbits r hr⟩
  greaterThan {s s'} bound limbBits hs :=
    related_register (.greaterThan s bound limbBits) (by simpa using hs.2)
  slack {P a a'} total hP ha :=
    have hheadroom : P.HasHeadroom := ⟨hP⟩
    related_register (.slack a total) (by simpa using ha.2)
  slope {E p p' q q'} hE hpx hpy hqx hqy :=
    have hheadroom : E.base.HasHeadroom := ⟨hE⟩
    related_register (.slope p q) (by simpa using ⟨hpx.2, hpy.2, hqx.2, hqy.2⟩)

end Carrier

end ForeignCurve
