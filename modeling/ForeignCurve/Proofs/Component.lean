import ForeignCurve.Proofs.Gadget.Records
import ForeignCurve.Proofs.Gadget.Input

/-!
Components as a whole. What holds of an invocation in every scenario is a promise about the chip: of
every table that its circuit accepts, and of the witness pass on every input.
-/

namespace ForeignCurve

variable {α ι ο : Type}

namespace Chip

/-- The circuit of the chip can be emitted, and what it accepts has a certain property. -/
def Guarantees (c : Chip) (l : Layout) (Q : Table Native → Prop) : Prop :=
  ∃ circuit, c.emit l.width = .ok circuit ∧ ∀ t, circuit.check t = .ok () → Q t

/--
When the given input is written into a new trace, the witness pass goes through, the circuit accepts
its table, and the trace has a certain property.
-/
def Computes (c : Chip) (l : Layout) (writeInput : TraceM Unit) (Q : Trace → Prop) : Prop :=
  ∃ circuit t₀ t, c.emit l.width = .ok circuit ∧ c.newTrace l.width = .ok t₀ ∧
    (do writeInput; c.writeWitness) t₀ = .ok () t ∧ circuit.check t.table = .ok () ∧ Q t

def DividesByZero (c : Chip) (l : Layout) (writeInput : TraceM Unit) : Prop :=
  ∃ t₀ t₁ t index, c.newTrace l.width = .ok t₀ ∧ writeInput t₀ = .ok () t₁ ∧
    c.writeWitness t₁ = .error (.fault (.atInstruction index .divisionByZero)) t

structure ComputesIff (c : Chip) (l : Layout) (writeInput : TraceM Unit) (D : Prop) (Q : Trace → Prop) :
    Prop where
  succeeds_iff : (∃ t₀ t, c.newTrace l.width = .ok t₀ ∧
    (do writeInput; c.writeWitness) t₀ = .ok () t) ↔ D
  computes : D → c.Computes l writeInput Q
  divides : ¬ D → c.DividesByZero l writeInput

variable {c : Chip} {l : Layout} {writeInput : TraceM Unit} {D : Prop} {Q : Trace → Prop}

theorem DividesByZero.not_succeeds (h : c.DividesByZero l writeInput) :
    ¬ ∃ t₀ t, c.newTrace l.width = .ok t₀ ∧ (do writeInput; c.writeWitness) t₀ = .ok () t := by
  obtain ⟨t₀, t₁, t, index, hnew, hwrite, herror⟩ := h
  rintro ⟨t₀', t', hnew', hrun⟩
  obtain rfl : t₀ = t₀' := Except.ok.inj (hnew.symm.trans hnew')
  rw [run_bind_of_ok hwrite, herror] at hrun
  contradiction

theorem ComputesIff.of_or (h : (D ∧ c.Computes l writeInput Q) ∨ (¬ D ∧ c.DividesByZero l writeInput)) :
    c.ComputesIff l writeInput D Q := by
  obtain ⟨hD, hcomputes⟩ | ⟨hD, hdivides⟩ := h
  · obtain ⟨-, t₀, t, -, hnew, hrun, -⟩ := id hcomputes
    exact ⟨⟨fun _ => hD, fun _ => ⟨t₀, t, hnew, hrun⟩⟩, fun _ => hcomputes, fun h => absurd hD h⟩
  · exact ⟨⟨fun h => absurd h hdivides.not_succeeds, fun h => absurd h hD⟩, fun h => absurd h hD,
      fun _ => hdivides⟩

theorem Computes.weaken {R : Trace → Prop} (h : c.Computes l writeInput Q) (hQ : ∀ t, Q t → R t) :
    c.Computes l writeInput R := by
  obtain ⟨circuit, t₀, t, hemit, hnew, hrun, hcheck, ht⟩ := h
  exact ⟨circuit, t₀, t, hemit, hnew, hrun, hcheck, hQ t ht⟩

theorem ComputesIff.weaken {D' : Prop} {R : Trace → Prop} (h : c.ComputesIff l writeInput D Q)
    (hD : D ↔ D') (hQ : D → ∀ t, Q t → R t) : c.ComputesIff l writeInput D' R where
  succeeds_iff := h.succeeds_iff.trans hD
  computes hD' := (h.computes (hD.mpr hD')).weaken (hQ (hD.mpr hD'))
  divides hD' := h.divides (mt hD.mp hD')

theorem Guarantees.weaken {S T : Table Native → Prop} (h : c.Guarantees l S) (hT : ∀ t, S t → T t) :
    c.Guarantees l T := by
  obtain ⟨circuit, hemit, hS⟩ := h
  exact ⟨circuit, hemit, fun t ht => hT t (hS t ht)⟩

theorem computes_of_steps (hl : c.manifest.required ≤ l.width) {t₀ t : Trace}
    (hinput : writeInput (.empty l c.numCells) = .ok () t₀)
    (hextends : (Trace.empty l c.numCells).Extends t₀) (hsteps : Steps t₀ c.instructions.toList t)
    (hholds : ∀ i ∈ c.instructions.toList, i.Holds t.store t.numCells) (hQ : Q t) :
    c.Computes l writeInput Q := by
  have hall := hextends.trans hsteps.toExtends
  have hnum : t.numCells = c.numCells := hall.numCells
  have hstore : t.store = t.table.store l := by
    unfold Trace.store
    rw [hall.layout]
    rfl
  rw [hstore, hnum] at hholds
  obtain ⟨circuit, hemit⟩ := exists_emit hl hholds
  refine ⟨circuit, .empty l c.numCells, t, hemit, c.newTrace_eq_ok hl, ?_, ?_, hQ⟩
  · exact run_bind_eq_ok_iff.mpr ⟨(), t₀, hinput, writeWitness_eq_ok_iff.mpr hsteps⟩
  · exact (check_emit_iff hl hemit t.table).mpr hholds

theorem Computes.guarantees (h : c.Computes l writeInput Q) (hl : c.manifest.required ≤ l.width)
    {R : Table Native → Prop}
    (hR : ∀ t, (∀ i ∈ c.instructions.toList, i.Holds (t.store l) c.numCells) → R t) :
    c.Guarantees l R := by
  obtain ⟨circuit, -, -, hemit, -⟩ := h
  exact ⟨circuit, hemit, fun t ht => hR t ((check_emit_iff hl hemit t).mp ht)⟩

end Chip

namespace Component

structure Recorded (c : Component ι ο) where
  input : ι
  output : ο
  before : Builder
  after : Builder
  chip : Chip
  allocInput_eq : c.allocInput.run .empty = .ok (input, before)
  generate_eq : (c.generate input).run before = .ok (output, after)
  build_eq : after.build = .ok chip

def passing (p : Pass) (before : Builder) (n : Nat) : Scenario :=
  .computed p before.instructions.toList fun i => n ≤ i ∧ i < before.numCells

variable {c : Component ι ο} {input : ι} {n : Nat} {rules : List Instruction} {write : TraceM Unit}
  {H : Scenario → Prop}

theorem exists_recorded (hadds : c.allocInput.AddsAt 0 input n rules)
    [hrecords : Records (c.generate input)] : Nonempty c.Recorded := by
  obtain ⟨before, hinput, hbefore⟩ := hadds .empty rfl
  obtain ⟨output, after, hgenerate, hafter⟩ := hrecords.records before
  have hfault : after.headroomFault? = none := hafter.trans hbefore.headroomFault?
  refine ⟨⟨input, output, before, after, ⟨after.instructions, after.numCells, after.manifest⟩,
    hinput, hgenerate, ?_⟩⟩
  unfold Builder.build
  rw [hfault]

theorem exists_start {before : Builder} {cells : Nat} (hinput : Input c.allocInput 0 input n rules write H)
    (hn : n ≤ before.numCells) (hcells : before.numCells ≤ cells)
    (hpassive : ∀ i ∈ before.instructions.toList, i.Passive) (l : Layout) :
    ∃ t₀ : Trace, write (.empty l cells) = .ok () t₀ ∧ (Trace.empty l cells).Extends t₀ ∧
      t₀.store.Fresh n cells ∧ ∀ p : Pass, p.start = t₀ → p.stop.numCells = cells ∧
        H (passing p before n) ∧ (∀ i ∈ rules, (passing p before n).Holds i) ∧
          (passing p before n).Reaches before := by
  have hbound : n ≤ (Trace.empty l cells).numCells := Nat.le_trans hn hcells
  obtain ⟨t₀, hwrite, ht₀, hfresh, hwritten⟩ :=
    hinput.written (.empty l cells) (by rwa [Nat.zero_add]) fun i _ _ => Table.get?_empty _ _
  have hnum : t₀.numCells = cells := ht₀.numCells
  rw [Nat.zero_add, hnum] at hfresh
  refine ⟨t₀, hwrite, ht₀, hfresh, ?_⟩
  rintro p rfl
  have hstop := p.steps.toExtends
  obtain ⟨hH, hrules⟩ := hwritten (passing p before n) hstop.numCells hstop.store
  refine ⟨hstop.numCells.trans hnum, hH, hrules, p.start, .passive _ hpassive, ?_, ?_, fun i hi => .inl hi⟩
  · exact fun i hi hi' => hfresh i (by omega) (by omega)
  · exact fun i ⟨hi, hi'⟩ => ⟨hi', hfresh i hi (by omega)⟩

theorem exists_pass {g : Record α} {before after : Builder} {a : α}
    (hinput : Input c.allocInput 0 input n rules write H) (hrun : g.run before = .ok (a, after))
    (hextends : before.Extends after) (hn : n ≤ before.numCells)
    (hpassive : ∀ i ∈ before.instructions.toList, i.Passive) (rest : List Instruction) (l : Layout) :
    ∃ (t₀ : Trace) (p : Pass), write (.empty l after.numCells) = .ok () t₀ ∧
      (Trace.empty l after.numCells).Extends t₀ ∧ p.start = t₀ ∧
      p.schedule = after.instructions.toList ++ rest ∧ p.stop.numCells = after.numCells ∧
      H (passing p before n) ∧ (∀ i ∈ rules, (passing p before n).Holds i) ∧
      ∀ (Q : α → Prop) (C : Prop), (passing p before n).Attempt g Q C →
        ((∃ t, Scenario.Behind p before.instructions.toList
          (fun i => n ≤ i ∧ i < before.numCells) after t) ∧ Q a) ∨
          ((passing p before n).Halted ∧ C) := by
  obtain ⟨t₀, hwrite, ht₀, -, hstart⟩ := exists_start hinput hn hextends.numCells hpassive l
  obtain ⟨p, rfl, hschedule⟩ := Pass.exists_of_schedule t₀ (after.instructions.toList ++ rest)
  obtain ⟨hnum, hH, hrules, hreaches⟩ := hstart p rfl
  refine ⟨_, p, hwrite, ht₀, rfl, hschedule, hnum, hH, hrules, fun Q C hg => hg hrun ⟨?_, ?_⟩ hreaches⟩
  · change _ <+: p.schedule
    rw [hschedule]
    exact List.prefix_append _ _
  · exact Nat.le_of_eq hnum.symm

namespace Recorded

section Basic

variable (r : c.Recorded)

theorem chip_eq : r.chip = ⟨r.after.instructions, r.after.numCells, r.after.manifest⟩ := by
  have h := r.build_eq
  unfold Builder.build at h
  split at h
  · contradiction
  · exact (Except.ok.inj h).symm

theorem sample_eq : c.sample = .ok (r.before, r.after) :=
  bind_eq_ok_iff.mpr ⟨_, r.allocInput_eq, bind_eq_ok_iff.mpr ⟨_, r.generate_eq, rfl⟩⟩

theorem manifest_eq : c.manifest = .ok r.after.manifest :=
  bind_eq_ok_iff.mpr ⟨_, r.sample_eq, rfl⟩

theorem instructions_eq : r.chip.instructions = r.after.instructions := by
  rw [r.chip_eq]

theorem numCells_eq : r.chip.numCells = r.after.numCells := by
  rw [r.chip_eq]

theorem before_adds (hadds : c.allocInput.AddsAt 0 input n rules) :
    r.input = input ∧ r.before.numCells = n ∧ r.before.instructions.toList = rules := by
  obtain ⟨hinput, hb⟩ := Record.AddsAt.of_run (b := .empty) hadds r.allocInput_eq
  refine ⟨hinput, hb.numCells.trans (Nat.zero_add n), ?_⟩
  rw [hb.instructions]
  rfl

end Basic

variable (r : c.Recorded)

theorem exists_accepted [hgrows : ∀ i, Grows (c.generate i)]
    (hadds : c.allocInput.AddsAt 0 input n rules) {t : Table Native} {l : Layout}
    (h : ∀ i ∈ r.chip.instructions.toList, i.Holds (t.store l) r.chip.numCells) :
    ∃ w : Scenario, ¬ w.Honest ∧ w.store = t.store l ∧ n ≤ w.numCells ∧
      (∀ i ∈ rules, w.Holds i) ∧ ∀ Q : ο → Prop, w.Triple (c.generate input) Q → Q r.output := by
  obtain ⟨rfl, hnum, hrules⟩ := r.before_adds hadds
  rw [r.chip_eq] at h
  have hextends := (hgrows r.input).grows r.generate_eq
  refine ⟨.accepted ⟨r.after.instructions.toList, r.after.numCells, t.store l, h⟩, fun hw => hw, rfl,
    ?_, ?_, ?_⟩
  · rw [← hnum]
    exact hextends.numCells
  · intro i hi
    rw [← hrules] at hi
    exact h i (hextends.instructions.subset hi)
  · intro Q hQ
    exact (hQ r.generate_eq ⟨List.prefix_rfl, Nat.le_refl _⟩ trivial).2

theorem attempts [hgrows : ∀ i, Grows (c.generate i)] (hinput : Input c.allocInput 0 input n rules write H)
    {l : Layout} (hl : r.chip.manifest.required ≤ l.width) {Q : Scenario → ο → Prop} {C : Prop}
    (hspec : ∀ w : Scenario, w.Honest → H w → w.Attempt (c.generate input) (Q w) C) :
    (∃ w : Scenario, Q w r.output ∧ r.chip.Computes l write fun t =>
      w.store = t.store ∧ w.numCells = t.numCells) ∨ (C ∧ r.chip.DividesByZero l write) := by
  obtain ⟨rfl, hnum, hrules⟩ := r.before_adds hinput.adds
  have hpassive := hinput.passive
  rw [← hrules] at hpassive
  obtain ⟨t₀, p, hwrite, ht₀, hstart, hschedule, hcells, hH, hrulesHold, hpass⟩ :=
    exists_pass hinput r.generate_eq ((hgrows r.input).grows r.generate_eq) (Nat.le_of_eq hnum.symm)
      hpassive [] l
  rw [List.append_nil] at hschedule
  obtain ⟨⟨t, ht⟩, hQ⟩ | ⟨hhalted, hC⟩ := hpass _ _ (hspec _ trivial hH)
  case inr =>
    rw [r.chip_eq] at hl ⊢
    refine .inr ⟨hC, _, t₀, p.stop, p.written.length, Chip.newTrace_eq_ok _ hl, hwrite, ?_⟩
    rw [← hstart]
    exact hhalted.writeWitness hschedule
  refine .inl ⟨_, hQ, ?_⟩
  have hsteps := ht.steps
  rw [← hschedule] at hsteps
  -- the pass reached the end of the schedule, so its last trace is that of the chip
  rw [← Pass.stop_eq hsteps, hstart, hschedule] at hsteps
  rw [r.chip_eq] at hl ⊢
  apply Chip.computes_of_steps hl hwrite ht₀ hsteps
  · intro i hi
    cases ht.holds i hi with
    | inl hgiven =>
      rw [hrules] at hgiven
      exact hrulesHold i hgiven
    | inr hholds => exact hholds
  · exact ⟨rfl, rfl⟩

theorem computes [∀ i, Grows (c.generate i)] (hinput : Input c.allocInput 0 input n rules write H)
    {l : Layout} (hl : r.chip.manifest.required ≤ l.width) {Q : Scenario → ο → Prop}
    (hspec : ∀ w : Scenario, w.Honest → H w → w.Triple (c.generate input) (Q w)) :
    r.chip.Computes l write fun t =>
      ∃ w : Scenario, w.store = t.store ∧ w.numCells = t.numCells ∧ Q w r.output := by
  obtain ⟨w, hQ, hcomputes⟩ | ⟨hfalse, -⟩ :=
    r.attempts hinput hl fun w hw hH => (hspec w hw hH).attempt (C := False)
  · exact hcomputes.weaken fun t ⟨hstore, hnum⟩ => ⟨w, hstore, hnum, hQ⟩
  · exact hfalse.elim

end Recorded

section Into

variable {P : FieldParams} {c : Component ι (PointRegister P)}

def into (c : Component ι (PointRegister P)) : Component (ι × PointRegister P) Unit where
  allocInput := do
    let input ← c.allocInput
    let result ← Record.allocPoint P
    return (input, result)
  generate input := do
    Gadget.setToCopyPoint (← c.generate input.1) input.2

instance [∀ i, Grows (c.generate i)] (i : ι × PointRegister P) : Grows (c.into.generate i) := by
  unfold into
  infer_instance

instance [∀ i, Records (c.generate i)] (i : ι × PointRegister P) : Records (c.into.generate i) := by
  unfold into
  infer_instance

theorem addsAt_into (hadds : c.allocInput.AddsAt 0 input n rules) :
    c.into.allocInput.AddsAt 0 (input, .ofCell P n) (n + (P.limbs + P.limbs))
      (rules ++ Record.pointRules P n) := by
  apply Record.AddsAt.bind hadds
  apply Record.AddsAt.bind_pure
  rw [Nat.zero_add]
  exact .allocPoint P n

theorem Recorded.exists_accepted_into [P.HasHeadroom] [∀ i, Grows (c.generate i)]
    (r : c.into.Recorded) (hadds : c.allocInput.AddsAt 0 input n rules) {t : Table Native}
    {l : Layout} (h : ∀ i ∈ r.chip.instructions.toList, i.Holds (t.store l) r.chip.numCells) :
    ∃ w : Scenario, ¬ w.Honest ∧ w.store = t.store l ∧ n ≤ w.numCells ∧
      (∀ i ∈ rules, w.Holds i) ∧ ∀ (R : Point) (C : Prop),
        w.Triple (c.generate input) (fun result => w.Numbers result R ∧ C) →
          w.Numbers r.input.2 R ∧ C := by
  obtain ⟨w, hw, hstore, hbound, hholds, hpost⟩ := r.exists_accepted (addsAt_into hadds) h
  rw [List.forall_mem_append] at hholds
  refine ⟨w, hw, hstore, by omega, hholds.1, ?_⟩
  intro R C hspec
  obtain ⟨q, hq⟩ := (Scenario.holds_pointRules_iff hbound).mp hholds.2
  rw [(r.before_adds (addsAt_into hadds)).1]
  apply hpost (fun _ => w.Numbers (.ofCell P n) R ∧ C)
  apply Scenario.Triple.bind hspec
  rintro result ⟨hresult, hC⟩
  apply Scenario.Triple.weaken
    (Scenario.setToCopyPoint_spec hw hresult hq.x.reads.stop_le hq.y.reads.stop_le)
  exact fun _ h => ⟨h, hC⟩

theorem Recorded.computes_into [P.HasHeadroom] [hgrows : ∀ i, Grows (c.generate i)]
    (r : c.into.Recorded) (hinput : Input c.allocInput 0 input n rules write H) {l : Layout}
    (hl : r.chip.manifest.required ≤ l.width) {R : Point}
    (hspec : ∀ w : Scenario, w.Honest → H w →
      w.Triple (c.generate input) (fun result => w.Numbers result R)) :
    r.chip.Computes l write fun t => t.readPoint r.input.2 = .ok R := by
  obtain ⟨hr, hnum, hrules⟩ := r.before_adds (addsAt_into hinput.adds)
  obtain ⟨result, mid, hrun, hcopy⟩ := Record.run_bind_eq_ok_iff.mp r.generate_eq
  rw [hr] at hrun hcopy
  obtain ⟨-, hadds⟩ :=
    (Record.AddsAt.setToCopyPoint result (.ofCell P n) mid.numCells).of_run hcopy
  have hpassive : ∀ i ∈ r.before.instructions.toList, i.Passive := by
    rw [hrules, List.forall_mem_append]
    exact ⟨hinput.passive, Record.passive_pointRules⟩
  have hmid := (hgrows input).grows hrun
  obtain ⟨t₀, p, hwrite, ht₀, hstart, hschedule, hcells, hH, hrulesHold, hpass⟩ :=
    exists_pass hinput hrun hmid (by omega) hpassive
      [.copy result.x.slice ⟨n, P.limbs⟩, .copy result.y.slice ⟨n + P.limbs, P.limbs⟩] l
  obtain ⟨⟨t, ht⟩, hresult⟩ :=
    (hpass _ False (Scenario.Triple.attempt (hspec _ trivial hH))).resolve_right And.right
  have hbound : n + (P.limbs + P.limbs) ≤ p.stop.numCells := by
    rw [hcells, ← hnum]
    exact hmid.numCells
  have hsame : t.numCells = p.stop.numCells :=
    ht.steps.toExtends.numCells.trans p.steps.toExtends.numCells.symm
  obtain ⟨hsteps, htarget⟩ := ht.copyPoint hschedule hresult (by omega) fun i hi hi' => ⟨hi, by omega⟩
  have hinstructions : p.schedule = r.after.instructions.toList :=
    hschedule.trans hadds.instructions.symm
  have hnumCells : mid.numCells = r.after.numCells := hadds.numCells.symm
  rw [hnumCells] at hwrite ht₀
  rw [hinstructions, hstart] at hsteps
  have hread : p.stop.readPoint r.input.2 = .ok R := by
    rw [hr]
    exact htarget.readPoint rfl rfl
  rw [r.chip_eq] at hl ⊢
  -- the copies come last in the schedule, and are made when their source is known
  apply Chip.computes_of_steps hl hwrite ht₀ hsteps _ hread
  rw [← hinstructions, hschedule, List.forall_mem_append, List.forall_mem_cons,
    List.forall_mem_singleton]
  refine ⟨?_, ?_, ?_⟩
  · intro i hi
    cases ht.holds i hi with
    | inl hgiven =>
      rw [hrules, List.mem_append] at hgiven
      cases hgiven with
      | inl hgiven => exact hrulesHold i hgiven
      | inr hgiven =>
        exact (Scenario.holds_pointRules_iff hbound).mpr ⟨R, htarget⟩ i hgiven
    | inr hholds => exact hholds
  · exact (Instruction.holds_copy_iff hresult.x.reads htarget.x.reads.stop_le).mpr htarget.x.reads
  · exact (Instruction.holds_copy_iff hresult.y.reads htarget.y.reads.stop_le).mpr htarget.y.reads

end Into

end Component

end ForeignCurve
