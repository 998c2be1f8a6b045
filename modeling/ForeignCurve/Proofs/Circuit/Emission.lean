import ForeignCurve.Chip
import ForeignCurve.Proofs.Instruction.Emission

namespace ForeignCurve

theorem Builder.build_eq_ok_iff {b : Builder} {c : Chip} :
    b.build = .ok c ↔ b.headroomFault? = none ∧ c = ⟨b.instructions, b.numCells, b.manifest⟩ := by
  unfold build
  cases b.headroomFault? with
  | none => simp [eq_comm]
  | some f => simp

namespace Circuit

theorem append_def (c c' : Circuit) :
    c ++ c' = ⟨c.gates ++ c'.gates, c.lookups ++ c'.lookups, c.copies ++ c'.copies⟩ := rfl

theorem empty_append (c : Circuit) : empty ++ c = c := by
  simp [append_def, empty]

theorem append_empty (c : Circuit) : c ++ empty = c := by
  simp [append_def, empty]

theorem append_assoc (c c' c'' : Circuit) : c ++ c' ++ c'' = c ++ (c' ++ c'') := by
  simp [append_def, Array.append_assoc]

def concat (cs : List Circuit) : Circuit :=
  cs.foldr (· ++ ·) empty

theorem concat_cons (c : Circuit) (cs : List Circuit) : concat (c :: cs) = c ++ concat cs := rfl

theorem concat_append (cs ds : List Circuit) : concat (cs ++ ds) = concat cs ++ concat ds := by
  induction cs with
  | nil => exact (empty_append _).symm
  | cons c cs ih => rw [List.cons_append, concat_cons, ih, concat_cons, append_assoc]

theorem concat_singleton (c : Circuit) : concat [c] = c :=
  append_empty c

end Circuit

def Instruction.circuit (l : Layout) (n : Nat) (i : Instruction) : Except Abort Circuit :=
  (i.assertions (Emitter.empty l n).cells >>= Assertion.checked).map (.ofAssertions l)

theorem Instruction.circuit_eq_ok_iff {l : Layout} {n : Nat} {i : Instruction} {c : Circuit} :
    i.circuit l n = .ok c ↔ ∃ as, i.assertions (Emitter.empty l n).cells = .ok as ∧
      Assertion.Linked as ∧ c = .ofAssertions l as := by
  unfold circuit
  rw [map_eq_ok_iff]
  constructor
  · rintro ⟨as', h, rfl⟩
    obtain ⟨as, has, hchecked⟩ := bind_eq_ok_iff.mp h
    unfold Assertion.checked at hchecked
    split at hchecked
    · next hlinked =>
      cases hchecked
      exact ⟨_, has, hlinked, rfl⟩
    · contradiction
  · rintro ⟨as, has, hlinked, rfl⟩
    exact ⟨as, bind_eq_ok_iff.mpr ⟨as, has, if_pos hlinked⟩, rfl⟩

namespace Chip

variable {l : Layout}

theorem emitAll_eq (l : Layout) (n : Nat) (c : Circuit) (is : List Instruction) :
    emitAll (.empty l n) c is =
      (is.mapM (Instruction.circuit l n)).map fun cs => c ++ Circuit.concat cs := by
  induction is generalizing c with
  | nil => exact congrArg Except.ok (Circuit.append_empty c).symm
  | cons i is ih =>
    have hasserts := i.asserts_emit (.empty l n)
    rw [emitAll, List.mapM_cons, Instruction.circuit]
    cases hi : i.assertions (Emitter.empty l n).cells >>= Assertion.checked with
    | error a =>
      rw [hi] at hasserts
      obtain ⟨e, hemit⟩ := hasserts
      rw [hemit]
      rfl
    | ok as =>
      rw [hi] at hasserts
      obtain ⟨u, e, hemit, hrec, -⟩ := hasserts
      rw [hemit]
      -- the flush leaves the emitter as it was before this instruction
      dsimp only
      rw [hrec.flush, ih, map_ok]
      cases is.mapM (Instruction.circuit l n) with
      | error a => rfl
      | ok cs => exact congrArg Except.ok (Circuit.append_assoc c _ _)

theorem layout_eq_ok (c : Chip) (h : c.manifest.required ≤ l.width) : c.layout l.width = .ok l := by
  unfold Chip.layout Manifest.check Layout.ofWidth
  rw [if_pos h, dif_pos l.width_pos]
  rfl

theorem newTrace_eq_ok (c : Chip) (h : c.manifest.required ≤ l.width) :
    c.newTrace l.width = .ok (.empty l c.numCells) := by
  unfold newTrace
  rw [c.layout_eq_ok h]
  rfl

theorem emit_eq (c : Chip) (h : c.manifest.required ≤ l.width) :
    c.emit l.width = ((c.instructions.toList.mapM (Instruction.circuit l c.numCells)).map
      Circuit.concat).mapError Failure.abort := by
  unfold emit
  rw [c.layout_eq_ok h]
  change (emitAll (.empty l c.numCells) .empty c.instructions.toList).mapError _ = _
  rw [emitAll_eq]
  simp only [Circuit.empty_append]

theorem emit_eq_ok_iff {c : Chip} {circuit : Circuit} (h : c.manifest.required ≤ l.width) :
    c.emit l.width = .ok circuit ↔ ∃ cs,
      List.Forall₂ (fun i c' => i.circuit l c.numCells = .ok c') c.instructions.toList cs ∧
        circuit = .concat cs := by
  rw [emit_eq c h]
  simp only [← mapM_eq_ok_iff]
  cases c.instructions.toList.mapM (Instruction.circuit l c.numCells) with
  | error a => simp [Except.map, Except.mapError]
  | ok cs => simp [Except.map, Except.mapError, eq_comm]

end Chip

end ForeignCurve
