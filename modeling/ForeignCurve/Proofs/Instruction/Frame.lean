import ForeignCurve.Proofs.Frame
import ForeignCurve.Proofs.Run

namespace ForeignCurve

namespace Plan

inductive Targets : Plan → List CellSlice → Prop where
  | done : Targets .done []
  | fail (f : Failure) (runs : List CellSlice) : Targets (.fail f) runs
  | write (s : CellSlice) (xs : List Native) {rest : Plan} {runs : List CellSlice}
      (hrest : Targets rest runs) : Targets (.write s xs rest) (s :: runs)
  | writeArray {k : Kind} (a : RegisterArray k) (xs : List Native) {rest : Plan} {runs : List CellSlice}
      (hrest : Targets rest runs) : Targets (.writeArray k a xs rest) (a.runs ++ runs)

theorem Targets.writes_perform {p : Plan} {runs : List CellSlice} (h : p.Targets runs) :
    TraceM.Writes runs p.perform := by
  induction h with
  | done => exact .pure ()
  | fail f runs => exact .failing fun t => ⟨f, rfl⟩
  | write s xs hrest ih => exact (TraceM.Writes.writeSlice s xs).bind fun _ => ih
  | writeArray a xs hrest ih => exact (TraceM.Writes.writeArray a _).bind fun _ => ih

theorem Targets.write_done (s : CellSlice) (xs : List Native) : Targets (.write s xs .done) [s] :=
  .write s xs .done

theorem Targets.writeArray_done {k : Kind} (a : RegisterArray k) (xs : List Native) :
    Targets (.writeArray k a xs .done) a.runs := by
  have h := Targets.writeArray a xs .done
  rwa [List.append_nil] at h

def Targeting (runs : List CellSlice) (x : Except Failure Plan) : Prop :=
  ∀ p, x = .ok p → p.Targets runs

namespace Targeting

variable {runs : List CellSlice} {α : Type}

theorem pure {p : Plan} (h : p.Targets runs) : Targeting runs (pure p) := by
  intro q hq
  cases hq
  exact h

theorem throw (f : Failure) : Targeting runs (throw f) := by
  intro p hp
  contradiction

theorem bind {x : Except Failure α} {f : α → Except Failure Plan}
    (hf : ∀ a, x = .ok a → Targeting runs (f a)) : Targeting runs (x >>= f) := by
  intro p hp
  obtain ⟨a, hx, hp⟩ := bind_eq_ok_iff.mp hp
  exact hf a hx p hp

theorem guard {c : Prop} [Decidable c] {f : Failure} {x : Except Failure Plan} (h : Targeting runs x) :
    Targeting runs (if c then x else do MonadExcept.throw f; x) :=
  fun p hp => h p (of_unless hp).2

theorem write_done (s : CellSlice) (xs : List Native) : Targeting [s] (Pure.pure (.write s xs .done)) :=
  .pure (.write_done s xs)

theorem write_ofExcept {s : CellSlice} {xs : List Native} {rest : Except Failure Plan}
    (h : Targeting runs rest) : Targeting (s :: runs) (Pure.pure (.write s xs (.ofExcept rest))) := by
  refine pure (.write s xs ?_)
  cases rest with
  | error f => exact .fail f runs
  | ok p => exact h p rfl

end Targeting

end Plan

section Outputs

variable {P : FieldParams}

def Identity.witnessRuns (m : Identity P) : List CellSlice :=
  m.carry.slice :: (m.low.runs ++ m.high.runs)

def LimbSum.outputs (sum : LimbSum) : List CellSlice :=
  match sum.result with
  | .cells result => result :: sum.carries.runs
  | .const _ => sum.b.runs ++ sum.carries.runs

namespace Instruction

def outputs : Instruction → List CellSlice
  | constant target _ assign => if assign then [target] else []
  | copy _ target => [target]
  | boolean _ | range .. => []
  | select _ _ _ result => [result]
  | decompose _ bits => bits.runs
  | limbSum sum => sum.outputs
  | greaterThan _ _ _ result => [result.slice]
  | fieldSum _ m | fieldProduct _ m => m.result.slice :: m.witnessRuns
  | fieldDifference _ m => m.b.slice :: m.witnessRuns
  | inverse _ _ result _ | slope _ _ _ result => [result.slice]

end Instruction

open Plan (Targeting)

theorem Identity.targeting_witnessPlan (m : Identity P) (lhs : Poly) (result : List Native) (carry : Nat) :
    Targeting m.witnessRuns (m.witnessPlan lhs result carry) := by
  refine .bind fun modulus _ => .bind fun carry _ => .bind fun w _ => .bind fun low _ =>
    .bind fun high _ => .pure ?_
  exact .write _ _ (.writeArray _ _ (.writeArray_done _ _))

theorem Identity.targeting_sumPlan (m : Identity P) (a b : List Native) :
    Targeting (m.result.slice :: m.witnessRuns) (m.sumPlan a b) :=
  .bind fun _ _ => .bind fun _ _ => .write_ofExcept (m.targeting_witnessPlan _ _ _)

theorem Identity.targeting_differencePlan (m : Identity P) (a result : List Native) :
    Targeting (m.b.slice :: m.witnessRuns) (m.differencePlan a result) := by
  refine .bind fun _ _ => .bind fun _ _ => .bind fun _ _ => .bind fun _ _ => .guard ?_
  exact .bind fun _ _ => .bind fun _ _ => .write_ofExcept (m.targeting_witnessPlan _ _ _)

theorem Identity.targeting_productPlan (m : Identity P) (a b : List Native) :
    Targeting (m.result.slice :: m.witnessRuns) (m.productPlan a b) := by
  refine .bind fun _ _ => .guard ?_
  exact .bind fun _ _ => .bind fun p hp => .pure (.write _ _ (m.targeting_witnessPlan _ _ _ p hp))

theorem LimbSum.targeting_carriesPlan (s : LimbSum) (a b result : List Nat) :
    Targeting s.carries.runs (s.carriesPlan a b result) :=
  .bind fun _ _ => .pure (.writeArray_done _ _)

theorem LimbSum.targeting_plan (s : LimbSum) (t : Trace) : Targeting s.outputs (s.plan t) := by
  obtain ⟨a, b, result, carries, limbBits⟩ := s
  refine .bind fun _ _ => ?_
  cases result with
  | cells result =>
    exact .bind fun _ _ => .guard (.bind fun _ _ => .write_ofExcept (targeting_carriesPlan _ _ _ _))
  | const result =>
    cases b with
    | cells b =>
      exact .guard (.bind fun _ _ => .bind fun _ _ => .write_ofExcept (targeting_carriesPlan _ _ _ _))
    | const b => exact targeting_carriesPlan _ _ _ _

namespace Instruction

theorem targeting_selectPlan (bit : Register .bit) (ifTrue ifFalse result : CellSlice) (t : Trace) :
    Targeting [result] (selectPlan bit ifTrue ifFalse result t) := by
  refine .guard (.bind fun b _ => ?_)
  split
  · exact .bind fun _ _ => .write_done result _
  · split
    · exact .bind fun _ _ => .write_done result _
    · exact .throw _

theorem targeting_inversePlan (a result : FieldRegister P) (allowZero : Bool) (t : Trace) :
    Targeting [result.slice] (inversePlan P a result allowZero t) := by
  refine .bind fun x _ => .bind fun x _ => ?_
  split
  · exact .guard (.bind fun _ _ => .write_done _ _)
  · exact .bind fun _ _ => .bind fun _ _ => .write_done _ _

theorem targeting_plan (i : Instruction) (t : Trace) : Targeting i.outputs (i.plan t) := by
  cases i with
  | constant target values assign =>
    cases assign with
    | true => exact .write_done target values
    | false => exact .pure .done
  | boolean cells | range bits cells => exact .pure .done
  | copy source target => exact .bind fun _ _ => .write_done target _
  | select bit ifTrue ifFalse result => exact targeting_selectPlan bit ifTrue ifFalse result t
  | decompose value bits => exact .bind fun _ _ => .guard (.pure (.writeArray_done bits _))
  | limbSum sum => exact sum.targeting_plan t
  | greaterThan value bound limbBits result => exact .bind fun _ _ => .write_done result.slice _
  | fieldSum P m => exact .bind fun _ _ => .bind fun _ _ => m.targeting_sumPlan _ _
  | fieldDifference P m => exact .bind fun _ _ => .bind fun _ _ => m.targeting_differencePlan _ _
  | fieldProduct P m => exact .bind fun _ _ => .bind fun _ _ => m.targeting_productPlan _ _
  | inverse P a result allowZero => exact targeting_inversePlan a result allowZero t
  | slope E p q result =>
    exact .bind fun _ _ => .bind fun _ _ => .bind fun _ _ => .bind fun _ _ => .bind fun _ _ =>
      .bind fun _ _ => .write_done _ _

theorem writes_write (i : Instruction) : TraceM.Writes i.outputs i.write where
  assigns t := by
    cases hplan : i.plan t with
    | error f =>
      rw [TraceM.after_of_error (write_eq_error hplan)]
      exact .refl t _
    | ok p =>
      have hperform := (i.targeting_plan t p hplan).writes_perform.assigns t
      unfold TraceM.after at hperform ⊢
      rw [write_eq_perform hplan]
      exact hperform
  takes {t} _ _ hok := by
    obtain ⟨p, hplan, hperform⟩ := write_eq_ok_iff.mp hok
    exact (i.targeting_plan t p hplan).writes_perform.takes hperform

end Instruction

end Outputs

namespace TraceM

/--
Whatever is written to a trace, and however the write ends, cells that are assigned keep their values, and
the cells that become assigned are of the run, of the registers of the array, or of the outputs of the
instruction. They are all of these if the write ends well. Of the run, they are in any case the cells before
the first one that was assigned.
-/
theorem writes_framed (t : Trace) :
    (∀ (s : CellSlice) (xs : List Native),
      t.Assigns [s] ((writeSlice s xs).after t) ∧
        if s.stop ≤ t.numCells ∧ s.len = xs.length then
          t.Filled s.start (xs.take (t.vacancy s)) ((writeSlice s xs).after t) ∧
            ((∃ t', writeSlice s xs t = .ok () t') ↔ t.vacancy s = s.len)
        else
          (writeSlice s xs).after t = t ∧ ∀ u t', writeSlice s xs t ≠ .ok u t') ∧
    (∀ (k : Kind) (a : RegisterArray k) (values : List (List Native)),
      t.Assigns a.runs ((writeArray a values).after t) ∧
        (∀ t', writeArray a values t = .ok () t' → t.Takes a.runs t') ∧
        ∀ s, RegisterArray.ofSlice k s = .ok a → t.Assigns [s] ((writeArray a values).after t)) ∧
    ∀ i : Instruction,
      t.Assigns i.outputs (i.write.after t) ∧
        (∀ t', i.write t = .ok () t' → t.Takes i.outputs t') ∧
        ∀ s ∈ i.operands, ∀ j ∈ s.indices, (∀ r ∈ i.outputs, j ∉ r.indices) →
          (i.write.after t).store j = t.store j := by
  refine ⟨fun s xs => ?_, fun k a values => ?_, fun i => ?_⟩
  · exact ⟨(Writes.writeSlice s xs).assigns t, writeSlice_outcome s xs t⟩
  · have harray := (Writes.writeArray a values).assigns t
    refine ⟨harray, fun _ => (Writes.writeArray a values).takes, fun s hs => harray.mono fun r hr j hj => ?_⟩
    exact ⟨s, List.mem_singleton_self s, RegisterArray.mem_of_mem_runs hs hr hj⟩
  · have hwrite := i.writes_write.assigns t
    exact ⟨hwrite, fun _ => i.writes_write.takes, fun _ _ _ _ hj => hwrite.store_eq hj⟩

end TraceM

end ForeignCurve
