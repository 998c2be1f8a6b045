import ForeignCurve.Proofs.Scenario

/-!
Recordings that divide. A witness pass goes through them, or it stops at a division by zero; in an
accepted table there always is a quotient. The reason for which a pass may stop is carried along, so that
in the end it is known both when a pass stops and when it does not.
-/

namespace ForeignCurve

namespace Scenario

variable {α β : Type}

def Halted : Scenario → Prop
  | accepted _ => False
  | computed p _ _ => ∃ i ∈ p.unwritten.head?, i.plan p.stop = .error (.fault .divisionByZero)

theorem Behind.written_eq {p : Pass} {given : List Instruction} {reserved : Nat → Prop}
    {b b' : Builder} {t : Trace} {n : Nat} {rules : List Instruction} {i : Instruction} {f : Failure}
    (h : Behind p given reserved b t) (hadds : b.Adds n (rules ++ [i]) b')
    (hinit : b'.instructions.toList <+: p.schedule) (hrules : ∀ r ∈ rules, r.Passive)
    (hplan : i.plan p.stop = .error f) :
    p.written = b.instructions.toList ++ rules ∧ i ∈ p.unwritten.head? := by
  rw [hadds.instructions, ← List.append_assoc] at hinit
  have hwritten := Pass.written_eq_of_plan_eq_error hinit (h.steps.append (.passive t hrules)) hplan
  exact ⟨hwritten, Pass.head?_unwritten hinit hwritten⟩

/--
A recording step as in a triple, except that the witness pass may halt in it, and then for the reason `C`.
-/
def Attempt (w : Scenario) (g : Record α) (Q : α → Prop) (C : Prop) : Prop :=
  ∀ ⦃b a b'⦄, g.run b = .ok (a, b') → w.Covers b' → w.Reaches b →
    (w.Reaches b' ∧ Q a) ∨ (w.Halted ∧ C)

variable {w : Scenario} {g : Record α} {Q R : α → Prop} {C D : Prop}

theorem Halted.honest (h : w.Halted) : w.Honest := by
  cases w with
  | accepted a => exact h
  | computed p given reserved => trivial

theorem Halted.writeWitness {p : Pass} {given : List Instruction} {reserved : Nat → Prop} {c : Chip}
    (h : (computed p given reserved).Halted) (hp : p.schedule = c.instructions.toList) :
    c.writeWitness p.start =
      .error (.fault (.atInstruction p.written.length .divisionByZero)) p.stop := by
  obtain ⟨i, hi, hplan⟩ := h
  exact Chip.writeWitness_eq_error hp hi (Instruction.write_eq_error hplan)

theorem Triple.attempt (h : w.Triple g Q) : w.Attempt g Q C :=
  fun _ _ _ hrun hcovers hb => .inl (h hrun hcovers hb)

namespace Attempt

theorem triple (h : w.Attempt g Q C) (hC : w.Honest → ¬ C) : w.Triple g Q := by
  intro b a b' hrun hcovers hb
  obtain hok | ⟨hhalted, hc⟩ := h hrun hcovers hb
  · exact hok
  · exact absurd hc (hC hhalted.honest)

theorem bind {f : α → Record β} {S : β → Prop} [hgrows : ∀ a, Grows (f a)] (hg : w.Attempt g Q C)
    (hf : ∀ a, Q a → w.Attempt (f a) S C) : w.Attempt (g >>= f) S C := by
  intro b c b'' hrun hcovers hb
  obtain ⟨a, b', hrun₁, hrun₂⟩ := Record.run_bind_eq_ok_iff.mp hrun
  obtain ⟨hb', ha⟩ | hhalted := hg hrun₁ (hcovers.of_extends ((hgrows a).grows hrun₂)) hb
  · exact hf a ha hrun₂ hcovers hb'
  · exact .inr hhalted

theorem weaken (h : w.Attempt g Q C) (hQ : ∀ a, Q a → R a) (hC : C → D) : w.Attempt g R D :=
  fun _ _ _ hrun hcovers hb => (h hrun hcovers hb).imp (.imp_right (hQ _)) (.imp_right hC)

theorem halt {n : Nat} {a : Nat → α} {rules : Nat → List Instruction} {i : Nat → Instruction}
    (hw : w.Honest) (hg : ∀ k, g.AddsAt k (a k) n (rules k ++ [i k]))
    (hrules : ∀ k, ∀ j ∈ rules k, j.Passive)
    (hplan : ∀ k (t : Trace), t.store = w.store → t.numCells = w.numCells →
      (i k).plan t = .error (.fault .divisionByZero)) (hC : C) : w.Attempt g Q C := by
  cases w with
  | accepted acc => exact absurd hw id
  | computed p given reserved =>
    intro b a' b' hrun hcovers hb
    obtain ⟨rfl, hadds⟩ := (hg b.numCells).of_run hrun
    obtain ⟨t, ht⟩ := hb
    have hstop := hplan b.numCells p.stop rfl rfl
    obtain ⟨-, hi⟩ := ht.written_eq hadds hcovers.instructions (hrules _) hstop
    exact .inr ⟨⟨_, hi, hstop⟩, hC⟩

end Attempt

end Scenario

end ForeignCurve
