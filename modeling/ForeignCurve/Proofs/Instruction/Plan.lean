import ForeignCurve.Builder
import ForeignCurve.Proofs.Trace

namespace ForeignCurve

namespace Plan

inductive Fills : Plan → Nat → List Native → Prop where
  | done (i : Nat) : Fills .done i []
  | write {s : CellSlice} {i : Nat} {xs ys : List Native} {rest : Plan} (hstart : s.start = i)
      (hlen : xs.length = s.len) (hrest : Fills rest (i + s.len) ys) :
      Fills (.write s xs rest) i (xs ++ ys)
  | writeArray {k : Kind} (hk : k.size = 1) {a : RegisterArray k} {i : Nat} {xs ys : List Native}
      {rest : Plan} (hstart : a.slice.start = i) (hlen : xs.length = a.length)
      (hrest : Fills rest (i + a.length) ys) : Fills (.writeArray k a xs rest) i (xs ++ ys)

theorem Fills.write_done {s : CellSlice} {i : Nat} {xs : List Native} (hstart : s.start = i)
    (hlen : xs.length = s.len) : Fills (.write s xs .done) i xs := by
  have h := Fills.write hstart hlen (.done _)
  rwa [List.append_nil] at h

theorem Fills.writeArray_done {k : Kind} (hk : k.size = 1) {a : RegisterArray k} {i : Nat}
    {xs : List Native} (hstart : a.slice.start = i) (hlen : xs.length = a.length) :
    Fills (.writeArray k a xs .done) i xs := by
  have h := Fills.writeArray hk hstart hlen (.done _)
  rwa [List.append_nil] at h

theorem Fills.perform {p : Plan} {i : Nat} {xs : List Native} (h : p.Fills i xs) {t : Trace}
    (hbound : i + xs.length ≤ t.numCells) (hfresh : t.store.Fresh i (i + xs.length)) :
    ∃ t', p.perform t = .ok () t' ∧ t.Filled i xs t' := by
  induction h generalizing t with
  | done i => exact ⟨t, rfl, .nil t i⟩
  | @write s i xs ys rest hstart hlen hrest ih =>
    subst hstart
    rw [List.length_append] at hbound hfresh
    have hstop : s.stop = s.start + xs.length := by rw [CellSlice.stop, hlen]
    have hfirst : t.store.Fresh s.start s.stop := fun j hj hj' => hfresh j hj (by omega)
    obtain ⟨t₁, hwrite, hfilled⟩ := TraceM.writeSlice_eq_ok hlen (by omega) hfirst
    rw [← hlen] at ih
    have hsecond : t₁.store.Fresh (s.start + xs.length) (s.start + xs.length + ys.length) := by
      apply hfilled.fresh
      intro j hj hj'
      exact hfresh j hj (by omega)
    obtain ⟨t₂, hperform, hfilled'⟩ := ih (by rw [hfilled.numCells]; omega) hsecond
    exact ⟨t₂, run_bind_eq_ok_iff.mpr ⟨(), t₁, hwrite, hperform⟩, hfilled.append hfilled'⟩
  | @writeArray k hk a i xs ys rest hstart hlen hrest ih =>
    subst hstart
    rw [List.length_append] at hbound hfresh
    have hfirst : t.store.Fresh a.slice.start (a.slice.start + a.length) :=
      fun j hj hj' => hfresh j hj (by omega)
    obtain ⟨t₁, hwrite, hfilled⟩ := TraceM.writeArray_eq_ok hk hlen (by omega) hfirst
    rw [← hlen] at ih
    have hsecond : t₁.store.Fresh (a.slice.start + xs.length)
        (a.slice.start + xs.length + ys.length) := by
      apply hfilled.fresh
      intro j hj hj'
      exact hfresh j hj (by omega)
    obtain ⟨t₂, hperform, hfilled'⟩ := ih (by rw [hfilled.numCells]; omega) hsecond
    exact ⟨t₂, run_bind_eq_ok_iff.mpr ⟨(), t₁, hwrite, hperform⟩, hfilled.append hfilled'⟩

theorem extends_perform {p : Plan} {t t' : Trace} (h : p.perform t = .ok () t') : t.Extends t' := by
  induction p generalizing t with
  | done =>
    cases h
    exact .refl _
  | fail f => contradiction
  | write s xs rest ih =>
    obtain ⟨u, t₁, hwrite, hrest⟩ := run_bind_eq_ok_iff.mp h
    exact (TraceM.extends_writeSlice hwrite).trans (ih hrest)
  | writeArray k a xs rest ih =>
    obtain ⟨u, t₁, hwrite, hrest⟩ := run_bind_eq_ok_iff.mp h
    exact (TraceM.extends_writeArray hwrite).trans (ih hrest)

def Written (σ : Store) (n : Nat) : Plan → Prop
  | done => True
  | fail _ => False
  | write s xs rest => σ.Reads n s xs ∧ rest.Written σ n
  | writeArray _ a xs rest =>
    (a.toList.mapM fun r => (σ.cells n).get r.start) = .ok (xs.map some) ∧ rest.Written σ n

theorem written_of_perform {p : Plan} {t t' : Trace} {σ : Store} (h : p.perform t = .ok () t')
    (hle : t'.store ≤ σ) : p.Written σ t.numCells := by
  induction p generalizing t with
  | done => trivial
  | fail f => contradiction
  | write s xs rest ih =>
    obtain ⟨u, t₁, hwrite, hrest⟩ := run_bind_eq_ok_iff.mp h
    have hwritten := ih hrest
    rw [(TraceM.extends_writeSlice hwrite).numCells] at hwritten
    have hreads := (TraceM.reads_writeSlice hwrite).mono (extends_perform hrest).store
    exact ⟨hreads.mono hle, hwritten⟩
  | writeArray k a xs rest ih =>
    obtain ⟨u, t₁, hwrite, hrest⟩ := run_bind_eq_ok_iff.mp h
    have hwritten := ih hrest
    rw [(TraceM.extends_writeArray hwrite).numCells] at hwritten
    have hle' := Store.le_trans (extends_perform hrest).store hle
    exact ⟨TraceM.mapM_get_writeArray hwrite hle', hwritten⟩

end Plan

theorem Instruction.write_eq_ok_iff {i : Instruction} {t t' : Trace} :
    i.write t = .ok () t' ↔ ∃ p, i.plan t = .ok p ∧ p.perform t = .ok () t' := by
  unfold write
  cases i.plan t with
  | ok p => simp
  | error f => simp

theorem Instruction.write_eq_perform {i : Instruction} {t : Trace} {p : Plan} (h : i.plan t = .ok p) :
    i.write t = p.perform t := by
  unfold write
  rw [h]

theorem Instruction.write_eq_error {i : Instruction} {t : Trace} {f : Failure} (h : i.plan t = .error f) :
    i.write t = .error f t := by
  unfold write
  rw [h]

theorem Instruction.extends_write {i : Instruction} {t t' : Trace} (h : i.write t = .ok () t') :
    t.Extends t' := by
  obtain ⟨p, hplan, hperform⟩ := write_eq_ok_iff.mp h
  exact Plan.extends_perform hperform

def Instruction.Passive (i : Instruction) : Prop :=
  ∀ t, i.plan t = .ok .done

theorem Record.passive_ruleInstruction? (rule : CellRule) (s : CellSlice) :
    ∀ i ∈ (ruleInstruction? rule s).toList, i.Passive := by
  intro i hi t
  unfold ruleInstruction? at hi
  split at hi
  · simp at hi
  · split at hi
    · simp at hi
    · simp at hi
      rw [hi]
      rfl
    · simp at hi
      rw [hi]
      rfl

section Operands

def LimbOperand.runs : LimbOperand → List CellSlice
  | cells s => [s]
  | const _ => []

def LimbSum.operands (sum : LimbSum) : List CellSlice :=
  match sum.result with
  | .cells _ => sum.a :: sum.b.runs
  | .const _ => [sum.a]

namespace Instruction

def operands : Instruction → List CellSlice
  | constant .. | boolean _ | range .. => []
  | copy source _ => [source]
  | select bit ifTrue ifFalse _ => [bit.slice, ifTrue, ifFalse]
  | decompose value _ => [value.slice]
  | limbSum sum => sum.operands
  | greaterThan value _ _ _ => [value]
  | fieldSum _ m | fieldProduct _ m => [m.a.slice, m.b.slice]
  | fieldDifference _ m => [m.a.slice, m.result.slice]
  | inverse _ a _ _ => [a.slice]
  | slope _ p q _ => [p.x.slice, p.y.slice, q.x.slice, q.y.slice]

end Instruction

variable {t t' : Trace}

namespace Trace

theorem readFirst_of_readSlice {k : Kind} (hk : k.size = 1) {r : Register k}
    (h : SucceedsAs (t.readSlice r.slice) (t'.readSlice r.slice)) :
    SucceedsAs (t.readFirst r) (t'.readFirst r) := by
  have hread {u : Trace} {x : Native} : u.readFirst r = .ok x ↔ u.readSlice r.slice = .ok [x] := by
    rw [readFirst_eq_ok_iff, readSlice_eq_ok_iff, Store.reads_iff]
    unfold Register.slice
    rw [hk]
    simp [CellSlice.indices]
  intro x hx
  exact hread.mpr (h _ (hread.mp hx))

theorem readField_of_readSlice {P : FieldParams} {r : FieldRegister P}
    (h : SucceedsAs (t.readSlice r.slice) (t'.readSlice r.slice)) :
    SucceedsAs (t.readField r) (t'.readField r) :=
  .bind h fun _ => .refl _

theorem readPoint_of_readSlice {P : FieldParams} {r : PointRegister P}
    (hx : SucceedsAs (t.readSlice r.x.slice) (t'.readSlice r.x.slice))
    (hy : SucceedsAs (t.readSlice r.y.slice) (t'.readSlice r.y.slice)) :
    SucceedsAs (t.readPoint r) (t'.readPoint r) :=
  .bind (readField_of_readSlice hx) fun _ => .bind (readField_of_readSlice hy) fun _ => .refl _

end Trace

theorem LimbOperand.read_of_readSlice {o : LimbOperand}
    (h : ∀ s ∈ o.runs, SucceedsAs (t.readSlice s) (t'.readSlice s)) :
    SucceedsAs (o.read t) (o.read t') := by
  cases o with
  | cells s => exact .bind (h s (List.mem_singleton_self s)) fun _ => .refl _
  | const limbs => exact .refl _

theorem LimbSum.plan_of_operands {sum : LimbSum}
    (h : ∀ s ∈ sum.operands, SucceedsAs (t.readSlice s) (t'.readSlice s)) :
    SucceedsAs (sum.plan t) (sum.plan t') := by
  obtain ⟨a, b, result, carries, limbBits⟩ := sum
  cases result with
  | cells s =>
    apply SucceedsAs.bind (.lift (h a List.mem_cons_self))
    intro xs
    apply SucceedsAs.bind (.lift (LimbOperand.read_of_readSlice fun s hs => h s (List.mem_cons_of_mem _ hs)))
    exact fun _ => .refl _
  | const limbs =>
    apply SucceedsAs.bind (.lift (h a List.mem_cons_self))
    intro xs
    cases b with
    | cells s => exact .refl _
    | const limbs' => exact .refl _

namespace Instruction

theorem selectPlan_of_operands {bit : Register .bit} {ifTrue ifFalse result : CellSlice}
    (hbit : SucceedsAs (t.readSlice bit.slice) (t'.readSlice bit.slice))
    (htrue : SucceedsAs (t.readSlice ifTrue) (t'.readSlice ifTrue))
    (hfalse : SucceedsAs (t.readSlice ifFalse) (t'.readSlice ifFalse)) :
    SucceedsAs (selectPlan bit ifTrue ifFalse result t) (selectPlan bit ifTrue ifFalse result t') := by
  unfold selectPlan
  split
  · apply SucceedsAs.bind (.lift (Trace.readFirst_of_readSlice rfl hbit))
    intro b
    split
    · exact .bind (.lift htrue) fun _ => .refl _
    · split
      · exact .bind (.lift hfalse) fun _ => .refl _
      · exact .refl _
  · exact fun _ hthrow => by contradiction

theorem plan_of_operands {i : Instruction}
    (h : ∀ s ∈ i.operands, SucceedsAs (t.readSlice s) (t'.readSlice s)) :
    SucceedsAs (i.plan t) (i.plan t') := by
  cases i with
  | constant target values assign => exact .refl _
  | boolean cells => exact .refl _
  | range bits cells => exact .refl _
  | copy source target => exact .bind (.lift (h source (by simp [operands]))) fun _ => .refl _
  | select bit ifTrue ifFalse result =>
    exact selectPlan_of_operands (h bit.slice (by simp [operands])) (h ifTrue (by simp [operands]))
      (h ifFalse (by simp [operands]))
  | decompose value bits =>
    exact .bind (.lift (Trace.readFirst_of_readSlice rfl (h value.slice (by simp [operands]))))
      fun _ => .refl _
  | limbSum sum => exact LimbSum.plan_of_operands h
  | greaterThan value bound limbBits result =>
    exact .bind (.lift (h value (by simp [operands]))) fun _ => .refl _
  | fieldSum P m | fieldDifference P m | fieldProduct P m =>
    apply SucceedsAs.bind (.lift (h _ (by simp [operands])))
    exact fun _ => .bind (.lift (h _ (by simp [operands]))) fun _ => .refl _
  | inverse P a result allowZero =>
    exact .bind (.lift (Trace.readField_of_readSlice (h a.slice (by simp [operands]))))
      fun _ => .refl _
  | slope E p q result =>
    apply SucceedsAs.bind (.lift (Trace.readPoint_of_readSlice (h _ (by simp [operands]))
      (h _ (by simp [operands]))))
    exact fun _ => .bind (.lift (Trace.readPoint_of_readSlice (h _ (by simp [operands]))
      (h _ (by simp [operands])))) fun _ => .refl _

theorem plan_mono (h : t.Extends t') (i : Instruction) : SucceedsAs (i.plan t) (i.plan t') :=
  plan_of_operands fun _ _ _ => h.readSlice

end Instruction

end Operands

end ForeignCurve
