import ForeignCurve.Proofs.Builder
import ForeignCurve.Proofs.Run

/-!
Scenarios. What a gadget guarantees is proved once, for both ways in which cells get their values: a
table that anyone filled and that is accepted, and a witness pass. In the first every instruction
holds. In the second every instruction has to be shown to be written; then it is shown to hold.
All values are those of one final store, so facts about them do not age.
-/

namespace ForeignCurve

variable {α β : Type}

structure Accepted where
  schedule : List Instruction
  numCells : Nat
  store : Store
  holds : ∀ i ∈ schedule, i.Holds store numCells

/-- One of the two ways in which the cells of an arena get their values. -/
inductive Scenario where
  | accepted (a : Accepted)
  | computed (p : Pass) (given : List Instruction) (reserved : Nat → Prop)

namespace Scenario

def schedule : Scenario → List Instruction
  | accepted a => a.schedule
  | computed p _ _ => p.schedule

def numCells : Scenario → Nat
  | accepted a => a.numCells
  | computed p _ _ => p.stop.numCells

def store : Scenario → Store
  | accepted a => a.store
  | computed p _ _ => p.stop.store

def Honest : Scenario → Prop
  | accepted _ => False
  | computed .. => True

def Reads (w : Scenario) (s : CellSlice) (xs : List Native) : Prop :=
  w.store.Reads w.numCells s xs

def Holds (w : Scenario) (i : Instruction) : Prop :=
  i.Holds w.store w.numCells

structure Covers (w : Scenario) (b : Builder) : Prop where
  instructions : b.instructions.toList <+: w.schedule
  numCells : b.numCells ≤ w.numCells

theorem Covers.of_extends {w : Scenario} {b b' : Builder} (h : w.Covers b') (hb : b.Extends b') :
    w.Covers b :=
  ⟨hb.instructions.trans h.instructions, Nat.le_trans hb.numCells h.numCells⟩

structure Behind (p : Pass) (given : List Instruction) (reserved : Nat → Prop) (b : Builder)
    (t : Trace) : Prop where
  steps : Steps p.start b.instructions.toList t
  fresh : t.store.Fresh b.numCells t.numCells
  reserved : ∀ i, reserved i → i < b.numCells ∧ t.store i = none
  holds : ∀ i ∈ b.instructions.toList, i ∈ given ∨ i.Holds p.stop.store p.stop.numCells

def Reaches (w : Scenario) (b : Builder) : Prop :=
  match w with
  | accepted _ => True
  | computed p given reserved => ∃ t, Behind p given reserved b t

/--
A recording step whose result has the property `Q`, in every scenario that covers it and reaches its
start; and then the scenario also reaches its end.
-/
def Triple (w : Scenario) (g : Record α) (Q : α → Prop) : Prop :=
  ∀ ⦃b a b'⦄, g.run b = .ok (a, b') → w.Covers b' → w.Reaches b → w.Reaches b' ∧ Q a

namespace Triple

variable {w : Scenario} {g : Record α} {Q R : α → Prop}

theorem pure {a : α} (h : Q a) : w.Triple (pure a) Q := by
  intro b a' b' hrun _ hb
  cases hrun
  exact ⟨hb, h⟩

theorem bind {f : α → Record β} {S : β → Prop} [hgrows : ∀ a, Grows (f a)] (hg : w.Triple g Q)
    (hf : ∀ a, Q a → w.Triple (f a) S) : w.Triple (g >>= f) S := by
  intro b c b'' hrun hcovers hb
  obtain ⟨a, b', hrun₁, hrun₂⟩ := Record.run_bind_eq_ok_iff.mp hrun
  obtain ⟨hb', ha⟩ := hg hrun₁ (hcovers.of_extends ((hgrows a).grows hrun₂)) hb
  exact hf a ha hrun₂ hcovers hb'

theorem bind_with {γ : Type} {f : α → Record γ} {rest : α → Record β} {S : β → Prop}
    [∀ a, Grows (rest a)] (hg : w.Triple (do let a ← g; let _ ← f a; return a) Q)
    (hrest : ∀ a, Q a → w.Triple (rest a) S) :
    w.Triple (do let a ← g; let _ ← f a; rest a) S := by
  have h := Triple.bind hg hrest
  simp only [bind_assoc, pure_bind] at h
  exact h

theorem weaken (hg : w.Triple g Q) (h : ∀ a, Q a → R a) : w.Triple g R := by
  intro b a b' hrun hcovers hb
  obtain ⟨hb', ha⟩ := hg hrun hcovers hb
  exact ⟨hb', h a ha⟩

theorem lift {x : Except Abort α} (h : ∀ a, x = .ok a → Q a) : w.Triple (liftM x) Q := by
  intro b a b' hrun _ hb
  cases x with
  | error e => contradiction
  | ok c =>
    cases hrun
    exact ⟨hb, h _ rfl⟩

theorem of_addsAt_nothing {a : Nat → α} (hg : ∀ k, g.AddsAt k (a k) 0 []) (h : ∀ k, Q (a k)) :
    w.Triple g Q := by
  intro b a' b' hrun _ hb
  obtain ⟨rfl, hadds⟩ := (hg b.numCells).of_run hrun
  refine ⟨?_, h _⟩
  cases w with
  | accepted _ => trivial
  | computed p given reserved =>
    obtain ⟨t, ht⟩ := hb
    refine ⟨t, ?_, ?_, ?_, ?_⟩
    · rw [hadds.instructions, List.append_nil]
      exact ht.steps
    · rw [hadds.numCells]
      exact ht.fresh
    · rw [hadds.numCells]
      exact ht.reserved
    · rw [hadds.instructions, List.append_nil]
      exact ht.holds

end Triple

theorem Triple.of_addsAt_accepted {w : Scenario} {g : Record α} {n : Nat} {a : Nat → α} {Q : α → Prop}
    {is : Nat → List Instruction} (hw : ¬ w.Honest) (hg : ∀ k, g.AddsAt k (a k) n (is k))
    (hsound : ∀ k, k + n ≤ w.numCells → (∀ j ∈ is k, w.Holds j) → Q (a k)) : w.Triple g Q := by
  intro b a' b' hrun hcovers hb
  obtain ⟨rfl, hadds⟩ := (hg b.numCells).of_run hrun
  have hbound := hcovers.numCells
  rw [hadds.numCells] at hbound
  cases w with
  | computed p given reserved => exact absurd trivial hw
  | accepted acc =>
    refine ⟨trivial, hsound b.numCells hbound ?_⟩
    intro j hj
    apply acc.holds
    apply hcovers.instructions.subset
    rw [hadds.instructions]
    exact List.mem_append_right _ hj

section Block

variable {n : Nat} {rules : List Instruction} {i : Instruction}

theorem Behind.block {p : Pass} {given : List Instruction} {reserved : Nat → Prop}
    {b b' : Builder} {t : Trace} {plan : Plan} {xs : List Native}
    (ht : Behind p given reserved b t) (hadds : b.Adds n (rules ++ [i]) b')
    (hinit : b'.instructions.toList <+: p.schedule) (hbound : b'.numCells ≤ p.stop.numCells)
    (hrules : ∀ r ∈ rules, r.Passive) (hplan : i.plan p.stop = .ok plan)
    (hfills : plan.Fills b.numCells xs) (hlen : xs.length = n)
    (hholds : p.stop.store.Reads p.stop.numCells ⟨b.numCells, n⟩ xs →
      ∀ j ∈ rules ++ [i], j.Holds p.stop.store p.stop.numCells) :
    p.stop.store.Reads p.stop.numCells ⟨b.numCells, n⟩ xs ∧ ∃ t', Behind p given reserved b' t' := by
  subst hlen
  rw [hadds.numCells] at hbound
  rw [hadds.instructions, ← List.append_assoc] at hinit
  have hsteps := ht.steps.append (Steps.passive t hrules)
  have hextends := Pass.extends_stop ((List.prefix_append _ _).trans hinit) hsteps
  have hnum : t.numCells = p.stop.numCells := hextends.numCells.symm
  have hfresh : t.store.Fresh b.numCells (b.numCells + xs.length) :=
    fun j hj hj' => ht.fresh j hj (by omega)
  obtain ⟨t', hsteps', hfilled⟩ :=
    Pass.exists_step hinit hsteps hplan hfills (by omega) hfresh
  -- what is written stays, so it can also be read in the end
  have hreads : p.stop.store.Reads p.stop.numCells ⟨b.numCells, xs.length⟩ xs := by
    have h := Store.reads_fill (σ := t.store) hbound
    rw [← hfilled.store] at h
    exact h.mono (Pass.extends_stop hinit hsteps').store
  refine ⟨hreads, t', ?_, ?_, ?_, ?_⟩
  · rw [hadds.instructions, ← List.append_assoc]
    exact hsteps'
  · rw [hadds.numCells, hfilled.numCells]
    exact hfilled.fresh ht.fresh
  · -- the reserved cells are below the ones that are filled
    intro j hj
    have hj' := ht.reserved j hj
    rw [hadds.numCells, hfilled.store, Store.fill_of_lt hj'.1]
    exact ⟨by omega, hj'.2⟩
  · rw [hadds.instructions]
    intro j hj
    rw [List.mem_append] at hj
    cases hj with
    | inl hj => exact ht.holds j hj
    | inr hj => exact .inr (hholds hreads j hj)

theorem Triple.of_addsAt {w : Scenario} {g : Record α} {a : Nat → α} {Q : α → Prop}
    {r : Nat → List Instruction} {i : Nat → Instruction}
    (hg : ∀ k, g.AddsAt k (a k) n (r k ++ [i k]))
    (hrules : ∀ k, ∀ j ∈ r k, j.Passive)
    (hsound : ¬ w.Honest → ∀ k, k + n ≤ w.numCells →
      (∀ j ∈ r k ++ [i k], w.Holds j) → Q (a k))
    (hcomplete : w.Honest → ∀ k, k + n ≤ w.numCells → ∃ xs : List Native, xs.length = n ∧
      (∀ t : Trace, t.store = w.store → t.numCells = w.numCells →
        ∃ plan, (i k).plan t = .ok plan ∧ plan.Fills k xs) ∧
      (w.Reads ⟨k, n⟩ xs → (∀ j ∈ r k ++ [i k], w.Holds j) ∧ Q (a k))) :
    w.Triple g Q := by
  cases w with
  | accepted acc =>
    have hw : ¬ Honest (accepted acc) := fun h => h
    exact of_addsAt_accepted hw hg (hsound hw)
  | computed p given reserved =>
    intro b a' b' hrun hcovers hb
    obtain ⟨rfl, hadds⟩ := (hg b.numCells).of_run hrun
    have hbound := hcovers.numCells
    rw [hadds.numCells] at hbound
    obtain ⟨t, ht⟩ := hb
    obtain ⟨xs, hlen, hplan, hpost⟩ := hcomplete trivial b.numCells hbound
    obtain ⟨plan, hplan, hfills⟩ := hplan p.stop rfl rfl
    obtain ⟨hreads, hb'⟩ := ht.block hadds hcovers.instructions hcovers.numCells (hrules _) hplan
      hfills hlen fun h => (hpost h).1
    exact ⟨hb', (hpost hreads).2⟩

end Block

end Scenario

end ForeignCurve
