import ForeignCurve.Proofs.Instruction.Plan

/-!
Runs of the witness pass. A pass goes through some of its schedule, and where it stops the next
instruction has no successful write.
-/

namespace ForeignCurve

inductive Steps : Trace → List Instruction → Trace → Prop where
  | nil (t : Trace) : Steps t [] t
  | cons {t t₁ t' : Trace} {i : Instruction} {is : List Instruction}
      (hwrite : i.write t = .ok () t₁) (hrest : Steps t₁ is t') : Steps t (i :: is) t'

namespace Steps

variable {t t₁ t₂ t' : Trace} {i : Instruction} {is js : List Instruction}

theorem append (h : Steps t is t₁) (h' : Steps t₁ js t') : Steps t (is ++ js) t' := by
  induction h with
  | nil t => exact h'
  | cons hwrite _ ih => exact .cons hwrite (ih h')

theorem singleton (h : i.write t = .ok () t') : Steps t [i] t' :=
  .cons h (.nil t')

theorem split (h : Steps t (is ++ js) t') : ∃ t₁, Steps t is t₁ ∧ Steps t₁ js t' := by
  induction is generalizing t with
  | nil => exact ⟨t, .nil t, h⟩
  | cons i is ih =>
    cases h with
    | cons hwrite hrest =>
      obtain ⟨t₁, his, hjs⟩ := ih hrest
      exact ⟨t₁, .cons hwrite his, hjs⟩

theorem unique (h : Steps t is t₁) (h' : Steps t is t₂) : t₁ = t₂ := by
  induction h with
  | nil t =>
    cases h'
    rfl
  | cons hwrite _ ih =>
    cases h' with
    | cons hwrite' hrest' =>
      rw [hwrite] at hwrite'
      cases hwrite'
      exact ih hrest'

theorem passive (t : Trace) (h : ∀ i ∈ is, i.Passive) : Steps t is t := by
  induction is with
  | nil => exact .nil t
  | cons i is ih =>
    rw [List.forall_mem_cons] at h
    exact .cons (Instruction.write_eq_ok_iff.mpr ⟨.done, h.1 t, rfl⟩) (ih h.2)

theorem toExtends (h : Steps t is t') : t.Extends t' := by
  induction h with
  | nil t => exact .refl t
  | cons hwrite _ ih => exact (Instruction.extends_write hwrite).trans ih

theorem exists_write (h : Steps t is t') (hi : i ∈ is) :
    ∃ t₁ t₂, t.Extends t₁ ∧ i.write t₁ = .ok () t₂ ∧ t₂.Extends t' := by
  induction h with
  | nil t => contradiction
  | cons hwrite hrest ih =>
    rcases List.mem_cons.mp hi with rfl | hi
    · exact ⟨_, _, .refl _, hwrite, hrest.toExtends⟩
    · obtain ⟨t₁, t₂, h₁, hi, h₂⟩ := ih hi
      exact ⟨t₁, t₂, (Instruction.extends_write hwrite).trans h₁, hi, h₂⟩

end Steps

namespace Chip

theorem atInstruction_eq_ok_iff {x : TraceM Unit} {index : Nat} {t t' : Trace} :
    atInstruction index x t = .ok () t' ↔ x t = .ok () t' := by
  unfold atInstruction
  cases x t with
  | ok u t₁ => rfl
  | error f t₁ => cases f <;> simp

theorem runFrom_eq_ok_iff {index : Nat} {is : List Instruction} {t t' : Trace} :
    runFrom index is t = .ok () t' ↔ Steps t is t' := by
  induction is generalizing index t with
  | nil =>
    constructor
    · intro h
      cases h
      exact .nil _
    · intro h
      cases h
      rfl
  | cons i is ih =>
    rw [runFrom, run_bind_eq_ok_iff]
    constructor
    · rintro ⟨u, t₁, hwrite, hrest⟩
      exact .cons (atInstruction_eq_ok_iff.mp hwrite) (ih.mp hrest)
    · intro h
      cases h with
      | cons hwrite hrest => exact ⟨(), _, atInstruction_eq_ok_iff.mpr hwrite, ih.mpr hrest⟩

theorem runFrom_append {index : Nat} {is : List Instruction} {t t' : Trace} (h : Steps t is t')
    (js : List Instruction) : runFrom index (is ++ js) t = runFrom (index + is.length) js t' := by
  induction h generalizing index with
  | nil t => rfl
  | @cons t t₁ t' i is hwrite _ ih =>
    have hbind : runFrom index (i :: is ++ js) t = runFrom (index + 1) (is ++ js) t₁ :=
      run_bind_of_ok (atInstruction_eq_ok_iff.mpr hwrite)
    rw [hbind, ih, List.length_cons, Nat.add_right_comm, Nat.add_assoc]

theorem runFrom_eq_error {index : Nat} {is js : List Instruction} {i : Instruction} {cause : Fault}
    {t t₁ t' : Trace} (h : Steps t is t₁) (hi : i.write t₁ = .error (.fault cause) t') :
    runFrom index (is ++ i :: js) t = .error (.fault (.atInstruction (index + is.length) cause)) t' := by
  rw [runFrom_append h]
  apply run_bind_eq_error
  unfold atInstruction
  rw [hi]

theorem writeWitness_eq_ok_iff {c : Chip} {t t' : Trace} :
    c.writeWitness t = .ok () t' ↔ Steps t c.instructions.toList t' :=
  runFrom_eq_ok_iff

end Chip

/-- A witness pass that went as far as it could. -/
structure Pass where
  start : Trace
  written : List Instruction
  stop : Trace
  unwritten : List Instruction
  steps : Steps start written stop
  stuck : ∀ i ∈ unwritten.head?, ∀ t, i.write stop ≠ .ok () t

namespace Pass

def schedule (p : Pass) : List Instruction :=
  p.written ++ p.unwritten

theorem exists_of_schedule (t : Trace) (is : List Instruction) :
    ∃ p : Pass, p.start = t ∧ p.schedule = is := by
  induction is generalizing t with
  | nil => exact ⟨⟨t, [], t, [], .nil t, by simp⟩, rfl, rfl⟩
  | cons i is ih =>
    -- where the next write fails, the pass stops
    by_cases hwrite : ∃ t₁, i.write t = .ok () t₁
    · obtain ⟨t₁, hwrite⟩ := hwrite
      obtain ⟨p, rfl, rfl⟩ := ih t₁
      exact ⟨⟨t, i :: p.written, p.stop, p.unwritten, .cons hwrite p.steps, p.stuck⟩, rfl, rfl⟩
    · refine ⟨⟨t, [], t, i :: is, .nil t, ?_⟩, rfl, rfl⟩
      intro j hj t₁ hj'
      cases hj
      exact hwrite ⟨t₁, hj'⟩

theorem exists_steps_of_prefix {p : Pass} {is : List Instruction} {t : Trace}
    (hinit : is <+: p.schedule) (h : Steps p.start is t) :
    ∃ js, p.written = is ++ js ∧ Steps t js p.stop := by
  obtain ⟨rest, hrest⟩ := hinit
  obtain ⟨js, hjs, -⟩ | ⟨js, hjs, hunwritten⟩ := List.append_eq_append_iff.mp hrest
  · refine ⟨js, hjs, ?_⟩
    have hsteps := p.steps
    rw [hjs] at hsteps
    obtain ⟨t₁, his, hstop⟩ := hsteps.split
    rw [h.unique his]
    exact hstop
  · -- here `is` reaches past the last instruction that was written
    rw [hjs] at h
    obtain ⟨t₁, hwritten, hjs'⟩ := h.split
    rw [← p.steps.unique hwritten] at hjs'
    cases hjs' with
    | nil => exact ⟨[], by rw [hjs, List.append_nil, List.append_nil], .nil _⟩
    | cons hwrite _ =>
      exact absurd hwrite (p.stuck _ (by rw [hunwritten]; rfl) _)

theorem extends_stop {p : Pass} {is : List Instruction} {t : Trace}
    (hinit : is <+: p.schedule) (h : Steps p.start is t) : t.Extends p.stop := by
  obtain ⟨js, -, hjs⟩ := exists_steps_of_prefix hinit h
  exact hjs.toExtends

theorem unwritten_eq_nil {p : Pass} {t : Trace} (h : Steps p.start p.schedule t) : p.unwritten = [] := by
  obtain ⟨js, hjs, -⟩ := exists_steps_of_prefix List.prefix_rfl h
  have hlen := congrArg List.length hjs
  simp only [schedule, List.length_append] at hlen
  exact List.length_eq_zero_iff.mp (by omega)

theorem stop_eq {p : Pass} {t : Trace} (h : Steps p.start p.schedule t) : p.stop = t := by
  have hnil := unwritten_eq_nil h
  rw [schedule, hnil, List.append_nil] at h
  exact p.steps.unique h

theorem head?_unwritten {p : Pass} {is : List Instruction} {i : Instruction}
    (hinit : is ++ [i] <+: p.schedule) (h : p.written = is) : i ∈ p.unwritten.head? := by
  obtain ⟨rest, hrest⟩ := hinit
  rw [schedule, h, List.append_assoc, List.append_cancel_left_eq] at hrest
  rw [← hrest]
  rfl

theorem written_or_write {p : Pass} {is : List Instruction} {i : Instruction} {t : Trace}
    (hinit : is ++ [i] <+: p.schedule) (h : Steps p.start is t) :
    (p.written = is ∧ p.stop = t) ∨ ∃ t', i.write t = .ok () t' := by
  obtain ⟨js, hjs, hsteps⟩ := exists_steps_of_prefix ((List.prefix_append is [i]).trans hinit) h
  cases hsteps with
  | nil => exact .inl ⟨by rw [hjs, List.append_nil], rfl⟩
  | @cons _ t₁ _ j js hwrite _ =>
    have hij : j = i := by
      unfold schedule at hinit
      rw [hjs, List.append_assoc, List.prefix_append_right_inj] at hinit
      exact (List.cons_prefix_cons.mp hinit).1.symm
    rw [← hij]
    exact .inr ⟨t₁, hwrite⟩

theorem written_eq_of_plan_eq_error {p : Pass} {is : List Instruction} {i : Instruction} {t : Trace}
    {f : Failure} (hinit : is ++ [i] <+: p.schedule) (h : Steps p.start is t)
    (hplan : i.plan p.stop = .error f) : p.written = is := by
  obtain ⟨hwritten, -⟩ | ⟨t', hwrite⟩ := written_or_write hinit h
  · exact hwritten
  · obtain ⟨plan, hplan', -⟩ := Instruction.write_eq_ok_iff.mp hwrite
    have hsame := Instruction.plan_mono
      (extends_stop ((List.prefix_append is [i]).trans hinit) h) i plan hplan'
    rw [hplan] at hsame
    contradiction

theorem exists_step {p : Pass} {is : List Instruction} {i : Instruction} {t : Trace} {plan : Plan}
    {first : Nat} {xs : List Native} (hinit : is ++ [i] <+: p.schedule) (h : Steps p.start is t)
    (hplan : i.plan p.stop = .ok plan) (hfills : plan.Fills first xs)
    (hbound : first + xs.length ≤ t.numCells)
    (hfresh : t.store.Fresh first (first + xs.length)) :
    ∃ t', Steps p.start (is ++ [i]) t' ∧ t.Filled first xs t' := by
  -- where the pass has gone on, it has carried out this very plan, and it cannot have stopped here
  obtain ⟨t', hperform, hfilled⟩ := hfills.perform hbound hfresh
  refine ⟨t', h.append (.singleton (Instruction.write_eq_ok_iff.mpr ⟨plan, ?_, hperform⟩)), hfilled⟩
  obtain ⟨-, rfl⟩ | ⟨t₁, hwrite⟩ := written_or_write hinit h
  · exact hplan
  · -- the pass went on here, and what it then planned is what is still planned in the end
    obtain ⟨plan', hplan', -⟩ := Instruction.write_eq_ok_iff.mp hwrite
    have hsame := Instruction.plan_mono
      (extends_stop ((List.prefix_append is [i]).trans hinit) h) i plan' hplan'
    rw [hplan] at hsame
    cases hsame
    exact hplan'

end Pass

theorem Chip.writeWitness_eq_error {c : Chip} {p : Pass} {i : Instruction} {f : Failure} {t : Trace}
    (hp : p.schedule = c.instructions.toList) (hi : i ∈ p.unwritten.head?)
    (h : i.write p.stop = .error f t) :
    c.writeWitness p.start = match f with
      | .fault cause => .error (.fault (.atInstruction p.written.length cause)) t
      | .abort a => .error (.abort a) t := by
  obtain ⟨rest, hrest⟩ := List.head?_eq_some_iff.mp hi
  have hrun : c.writeWitness p.start = runFrom (0 + p.written.length) (i :: rest) p.stop := by
    unfold writeWitness
    rw [← hp, Pass.schedule, hrest, runFrom_append p.steps]
  rw [hrun, Nat.zero_add]
  cases f with
  | fault cause =>
    apply run_bind_eq_error
    unfold atInstruction
    rw [h]
  | abort a =>
    apply run_bind_eq_error
    unfold atInstruction
    rw [h]

end ForeignCurve
