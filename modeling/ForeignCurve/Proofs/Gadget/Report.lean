import ForeignCurve.Proofs.Gadget.Preconditions
import ForeignCurve.Proofs.Gadget.Primitive

namespace ForeignCurve

variable {α : Type}

def Builder.Reports (A : FieldParams → Prop) (b b' : Builder) : Prop :=
  b'.headroomFault? = b.headroomFault? ∨ b.headroomFault? = none ∧
    ∃ P v, A P ∧ P.headroom = .error v ∧ b'.headroomFault? = some v

namespace Builder.Reports

variable {A : FieldParams → Prop} {b b' b'' : Builder}

theorem of_adds {n : Nat} {is : List Instruction} (h : b.Adds n is b') : b.Reports A b' :=
  .inl h.headroomFault?

protected theorem trans (h : b.Reports A b') (h' : b'.Reports A b'') : b.Reports A b'' := by
  obtain h | ⟨hnone, P, v, hA, hv, h⟩ := h
  · unfold Reports at h' ⊢
    rwa [h] at h'
  · obtain h' | ⟨hnone', -⟩ := h'
    · exact .inr ⟨hnone, P, v, hA, hv, h'.trans h⟩
    · rw [h] at hnone'
      contradiction

theorem eq_of_headroom (h : b.Reports A b') (hA : ∀ P, A P → P.headroom = .ok ()) :
    b'.headroomFault? = b.headroomFault? := by
  obtain h | ⟨-, P, v, hP, hv, -⟩ := h
  · exact h
  · rw [hA P hP] at hv
    contradiction

theorem requireHeadroom {P : FieldParams} (hP : A P)
    (hrun : (Record.requireHeadroom P).run b = .ok ((), b')) : b.Reports A b' := by
  cases hrun
  cases hb : b.headroomFault? with
  | some v =>
    left
    simp [hb]
  | none =>
    cases hv : P.headroom with
    | ok u =>
      left
      simp [hb]
    | error v => exact .inr ⟨hb, P, v, hP, hv, by simp [hb]⟩

end Builder.Reports

namespace PrimitiveLogic

def reporting (A : FieldParams → Prop) : PrimitiveLogic where
  Run s s' := s'.len = s.len
  Admits := A
  Step g _ R := ∀ b a b', g.run b = .ok (a, b') → b.Reports A b' ∧ ∃ a', R a a'
  part _ _ _ := rfl
  pure hR b a b' hrun := by
    cases hrun
    exact ⟨.inl rfl, _, hR⟩
  bind hg hf b c b'' hrun := by
    obtain ⟨a, b', hrun₁, hrun₂⟩ := Record.run_bind_eq_ok_iff.mp hrun
    obtain ⟨hb', a', ha⟩ := hg b a b' hrun₁
    obtain ⟨hb'', hc⟩ := hf a a' ha b' c b'' hrun₂
    exact ⟨hb'.trans hb'', hc⟩
  lift x b a b' hrun := by
    cases x with
    | error e => contradiction
    | ok a₁ =>
      cases hrun
      exact ⟨.inl rfl, _, rfl⟩
  throw e R b a b' hrun := by contradiction
  len h := h
  requireHeadroom hP b _ b' hrun := ⟨.requireHeadroom hP hrun, (), trivial⟩
  alloc k b r b' hrun := by
    obtain ⟨rfl, hadds⟩ := (Record.AddsAt.alloc b.numCells k).of_run hrun
    exact ⟨.of_adds hadds, _, rfl⟩
  allocArray length hk b a b' hrun := by
    obtain ⟨rfl, hadds⟩ := (Record.AddsAt.allocArray b.numCells hk length).of_run hrun
    exact ⟨.of_adds hadds, _, ⟨rfl, rfl⟩, Nat.le_refl _⟩
  append {i i'} _ b _ b' hrun := by
    obtain ⟨-, hadds⟩ := (Record.AddsAt.append b.numCells i).of_run hrun
    exact ⟨.of_adds hadds, (), trivial⟩

end PrimitiveLogic

end ForeignCurve
