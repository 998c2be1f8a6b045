import Mathlib
import ForeignCurve.Proofs.Recording
import ForeignCurve.Proofs.Safety
import ForeignCurve.Proofs.Width.Pass

/-!
Every cell of a recording has one owner: the caller, who allocated it, or the instruction that was
recorded behind it. So a witness pass that starts with the caller's cells assigned finds every operand
written and every result unwritten, and leaves no cell out.
-/

namespace ForeignCurve

namespace Pass

def Ended (p : Pass) : Prop :=
  ∃ i ∈ p.unwritten.head?, ∃ f t, i.write p.stop = .error f t ∧ f.OfValues

theorem not_ended {p : Pass} {t : Trace} (h : Steps p.start p.schedule t) : ¬ p.Ended := by
  rintro ⟨i, hi, -⟩
  rw [unwritten_eq_nil h] at hi
  contradiction

structure Owns (p : Pass) (b : Builder) (t : Trace) : Prop where
  steps : Steps p.start b.instructions.toList t
  assigned : ∀ j < b.numCells, (t.store j).isSome
  untouched : ∀ j, b.numCells ≤ j → t.store j = p.start.store j

variable {p : Pass}

theorem ended_or_step {is : List Instruction} {i : Instruction} {t : Trace} {k k' : Nat}
    (hinit : is ++ [i] <+: p.schedule) (h : Steps p.start is t)
    (hvalues : (Plan.ofExcept (i.plan p.stop)).OfValues)
    (hspans : ∀ plan, i.plan p.stop = .ok plan → plan.Spans k k') (hbound : k' ≤ t.numCells)
    (hfresh : t.store.Fresh k k') :
    p.Ended ∨ ∃ t' xs, Steps p.start (is ++ [i]) t' ∧ k + xs.length = k' ∧ t.Filled k xs t' := by
  obtain ⟨hwritten, rfl⟩ | ⟨t₁, hwrite⟩ := written_or_write hinit h
  · -- the pass has stopped right here
    have hhead := head?_unwritten hinit hwritten
    left
    cases hplan : i.plan p.stop with
    | error f =>
      rw [hplan] at hvalues
      cases hvalues with
      | fail _ hf => exact ⟨i, hhead, f, p.stop, Instruction.write_eq_error hplan, hf⟩
    | ok plan =>
      rw [hplan] at hvalues
      obtain ⟨f, t', hperform, hf⟩ | ⟨xs, t', hperform, -, -⟩ :=
        (hspans plan hplan).perform hvalues hbound hfresh
      · exact ⟨i, hhead, f, t', (Instruction.write_eq_perform hplan).trans hperform, hf⟩
      · exact absurd (Instruction.write_eq_ok_iff.mpr ⟨plan, hplan, hperform⟩) (p.stuck i hhead t')
  · obtain ⟨plan, hplan, hperform⟩ := Instruction.write_eq_ok_iff.mp hwrite
    have hlast := Instruction.plan_mono
      (extends_stop ((List.prefix_append is [i]).trans hinit) h) i plan hplan
    obtain ⟨xs, hlen, hfilled⟩ := (hspans plan hlast).filled hperform
    exact .inr ⟨t₁, xs, h.append (.singleton hwrite), hlen, hfilled⟩

namespace Owns

variable {b b' : Builder} {t : Trace}

theorem extends_stop (h : p.Owns b t) (hinit : b.instructions.toList <+: p.schedule) :
    t.Extends p.stop :=
  Pass.extends_stop hinit h.steps

theorem readable (h : p.Owns b t) (hinit : b.instructions.toList <+: p.schedule)
    (hle : b.numCells ≤ p.start.numCells) {s : CellSlice} (hs : s.stop ≤ b.numCells) :
    p.stop.Readable s := by
  have hextends := h.extends_stop hinit
  refine Trace.Readable.iff_assigned.mpr ⟨?_, fun j hj => ?_⟩
  · rw [p.steps.toExtends.numCells]
    exact Nat.le_trans hs hle
  · have hlt : j < b.numCells := Nat.lt_of_lt_of_le (CellSlice.mem_indices.mp hj).2 hs
    obtain ⟨x, hx⟩ := Option.isSome_iff_exists.mp (h.assigned j hlt)
    rw [hextends.store j x hx]
    rfl

theorem allocate (h : p.Owns b t) {n : Nat} {rules : List Instruction} (hadds : b.Adds n rules b')
    (hrules : ∀ i ∈ rules, i.IsRule (b.numCells + n))
    (hinputs : ∀ j, b.numCells ≤ j → j < b'.numCells → (p.start.store j).isSome) : p.Owns b' t := by
  refine ⟨?_, fun j hj => ?_, fun j hj => ?_⟩
  · rw [hadds.instructions]
    exact h.steps.append (.passive t fun i hi => (hrules i hi).passive)
  · by_cases hold : j < b.numCells
    · exact h.assigned j hold
    · rw [h.untouched j (by omega)]
      exact hinputs j (by omega) hj
  · rw [hadds.numCells] at hj
    exact h.untouched j (by omega)

theorem block (h : p.Owns b t) (hgo : ¬ p.Ended) {operands : List CellSlice} {n : Nat}
    {rules : List Instruction} {i : Instruction} (hadds : b.Adds n (rules ++ [i]) b')
    (hblock : Block operands b.numCells (b.numCells + n) rules i)
    (hoperands : ∀ s ∈ operands, p.stop.Readable s) (hinit : b'.instructions.toList <+: p.schedule)
    (hle : b'.numCells ≤ p.start.numCells)
    (hfresh : ∀ j, b.numCells ≤ j → j < b'.numCells → p.start.store j = none) :
    ∃ t', p.Owns b' t' := by
  have hrules : Steps p.start (b.instructions.toList ++ rules) t :=
    h.steps.append (.passive t fun j hj => (hblock.rule j hj).passive)
  obtain ⟨hvalues, hspans⟩ := hblock.perform hoperands
  rw [hadds.instructions, ← List.append_assoc] at hinit
  rw [hadds.numCells] at hle hfresh
  have hcells : t.numCells = p.start.numCells := hrules.toExtends.numCells
  obtain hended | ⟨t', xs, hsteps, hlen, hfilled⟩ :=
    ended_or_step hinit hrules hvalues hspans (by rwa [hcells]) fun j hj hj' => by
      rw [h.untouched j hj]
      exact hfresh j hj hj'
  · exact absurd hended hgo
  · refine ⟨t', ?_, fun j hj => ?_, fun j hj => ?_⟩
    · rwa [hadds.instructions, ← List.append_assoc]
    · rw [hfilled.store]
      by_cases hold : j < b.numCells
      · rw [Store.fill_of_lt hold]
        exact h.assigned j hold
      · obtain ⟨m, rfl⟩ := Nat.exists_eq_add_of_le (Nat.le_of_not_lt hold)
        rw [hadds.numCells] at hj
        rw [Store.fill_getElem (by omega)]
        rfl
    · rw [hadds.numCells] at hj
      rw [hfilled.store, Store.fill_of_le (by omega)]
      exact h.untouched j (by omega)

end Owns

def ownership (p : Pass) (hgo : ¬ p.Ended) (lo hi : Nat) (hhi : hi ≤ p.start.numCells)
    (hfresh : ∀ j, lo ≤ j → j < hi → p.start.store j = none) : Carrier where
  Known := p.stop.Readable
  Covers b := b.instructions.toList <+: p.schedule ∧ b.numCells ≤ hi
  Reaches b := lo ≤ b.numCells ∧ ∃ t, p.Owns b t
  part h hlen := Trace.Readable.part h hlen
  covers h hb' := ⟨h.instructions.trans hb'.1, Nat.le_trans h.numCells hb'.2⟩
  block := by
    rintro b b' operands n rules i ⟨hlo, t, howns⟩ ⟨hinit, hle⟩ hadds hblock hoperands
    obtain ⟨t', howns'⟩ := howns.block hgo hadds hblock hoperands hinit (Nat.le_trans hle hhi)
      fun j hj hj' => hfresh j (by omega) (by omega)
    have hlo' : lo ≤ b'.numCells := by
      rw [hadds.numCells]
      omega
    exact ⟨⟨hlo', t', howns'⟩, fun s hs => howns'.readable hinit (Nat.le_trans hle hhi) hs⟩

end Pass

namespace Session

variable {p : Pass} {b : Builder} {inputs : List CellSlice}

theorem exists_owns (h : Session b inputs) (hgo : ¬ p.Ended)
    (hinit : b.instructions.toList <+: p.schedule) (hle : b.numCells ≤ p.start.numCells)
    (hfault : b.headroomFault? = none)
    (hinputs : ∀ j < b.numCells, (p.start.store j).isSome ↔ ∃ s ∈ inputs, j ∈ s.indices) :
    ∃ t, p.Owns b t := by
  induction h with
  | start => exact ⟨p.start, .nil _, by simp [Builder.empty], fun _ _ => rfl⟩
  | @allocate b b' inputs runs c h hc hrun ih =>
    have hextends : b.Extends b' := Grows.grows hrun
    obtain ⟨n, rules, hadds, hrules, hcells⟩ := hc.exists_adds hrun
    obtain ⟨t, howns⟩ := ih (hextends.instructions.trans hinit) (Nat.le_trans hextends.numCells hle)
      (hextends.headroomFault?_eq_none hfault) fun j hj => by
        rw [hinputs j (Nat.lt_of_lt_of_le hj hextends.numCells)]
        simp only [List.mem_append, or_and_right, exists_or, hcells]
        exact or_iff_left (by omega)
    refine ⟨t, howns.allocate hadds hrules fun j hj hj' => (hinputs j hj').mpr ?_⟩
    rw [hadds.numCells] at hj'
    obtain ⟨s, hs, hmem⟩ := (hcells j).mpr ⟨hj, hj'⟩
    exact ⟨s, List.mem_append_right _ hs, hmem⟩
  | @compute b b' inputs operands runs c h hc hoperands hrun ih =>
    have hextends : b.Extends b' := Grows.grows hrun
    obtain ⟨t, howns⟩ := ih (hextends.instructions.trans hinit) (Nat.le_trans hextends.numCells hle)
      (hextends.headroomFault?_eq_none hfault) fun j hj =>
        hinputs j (Nat.lt_of_lt_of_le hj hextends.numCells)
    have hfresh : ∀ j, b.numCells ≤ j → j < b'.numCells → p.start.store j = none := by
      intro j hj hj'
      rw [← Option.not_isSome_iff_eq_none, hinputs j hj']
      exact fun hinput => absurd (h.input_lt hinput) (by omega)
    have hreadable : ∀ s ∈ operands, p.stop.Readable s := fun s hs =>
      howns.readable (hextends.instructions.trans hinit) (Nat.le_trans hextends.numCells hle)
        (hoperands s hs)
    exact (Carrier.reaches_of_call (v := p.ownership hgo b.numCells b'.numCells hle hfresh) hc hreadable
      hrun hfault ⟨hinit, Nat.le_refl _⟩ ⟨Nat.le_refl _, t, howns⟩).2

end Session

namespace Chip

open TraceM

theorem writeWitness_of_ended {c : Chip} {p : Pass} (hp : p.schedule = c.instructions.toList)
    (h : p.Ended) :
    ∃ f t, c.writeWitness p.start = .error f t ∧ ∀ cause, f = .fault cause → cause.misplaced = false := by
  obtain ⟨i, hi, f, t, hwrite, hf⟩ := h
  have hrun := writeWitness_eq_error hp hi hwrite
  cases f with
  | fault cause =>
    refine ⟨_, t, hrun, fun cause' hcause => ?_⟩
    cases hcause
    exact hf.not_misplaced cause rfl
  | abort a => exact ⟨_, t, hrun, fun _ hcause => by contradiction⟩

/--
Every cell is written once, after the cells that it is computed from, and none is left out. A session's
witness pass, started with the cells that its caller allocated, fails on values if it fails, with a modulus
of zero as the only abort. If it does not fail, it leaves all cells assigned and exactly the rows of the
arena.
-/
theorem writeWitness_of_session {b : Builder} {inputs : List CellSlice} {c : Chip} {l : Layout}
    (hsession : Session b inputs) (hbuild : b.build = .ok c) (hwidth : c.manifest.required ≤ l.width)
    (entries : List Entry) :
    ∃ t₀, c.newTrace l.width = .ok t₀ ∧
      let (_, start) := attemptAll (entries.map Entry.write) t₀
      (∀ j < c.numCells, (start.store j).isSome ↔ ∃ s ∈ inputs, j ∈ s.indices) →
        match c.writeWitness start with
        | .error f _ => (∀ cause, f = .fault cause → cause.misplaced = false) ∧
          ∀ cause, f = .abort cause → cause = .zeroModulus
        | .ok _ t => (∀ j < c.numCells, (t.store j).isSome) ∧
          c.rowsAmount l.width = .ok t.table.numRows := by
  refine ⟨.empty l c.numCells, ?_, fun hinputs => ?_⟩
  · rw [newTrace, c.layout_eq_ok hwidth]
    rfl
  obtain ⟨hfault, rfl⟩ := Builder.build_eq_ok_iff.mp hbuild
  have hstart := alike_entries l b.numCells entries
  dsimp only at hstart hinputs
  obtain ⟨p, hp, hschedule⟩ := Pass.exists_of_schedule
    (attemptAll (entries.map Entry.write) (.empty l b.numCells)).2 b.instructions.toList
  dsimp only
  rw [← hp] at hinputs hstart ⊢
  by_cases hended : p.Ended
  · obtain ⟨f, t, hwrite, hf⟩ := writeWitness_of_ended
      (c := ⟨b.instructions, b.numCells, b.manifest⟩) hschedule hended
    have haborts := abortsIn_writeWitness ⟨b.instructions, b.numCells, b.manifest⟩
      (hsession.guarded hfault) p.start
    rw [hwrite]
    refine ⟨hf, fun cause hcause => haborts cause t ?_⟩
    rw [← hcause]
    exact hwrite
  · obtain ⟨t, howns⟩ := hsession.exists_owns hended (hschedule ▸ List.prefix_rfl)
      (Nat.le_of_eq hstart.numCells.symm) hfault hinputs
    have hwrite : writeWitness ⟨b.instructions, b.numCells, b.manifest⟩ p.start = .ok () t :=
      writeWitness_eq_ok_iff.mpr howns.steps
    have halike := alike_writeWitness hstart hwrite
    rw [hwrite]
    refine ⟨howns.assigned, ?_⟩
    rw [halike.numRows_eq fun j hj => howns.assigned j (by omega), rowsAmount, Layout.ofWidth, dif_pos l.width_pos]
    rfl

def completes (c : Chip) (t : Trace) : Bool :=
  match c.writeWitness t with
  | .ok .. => true
  | .error .. => false

theorem completes_iff {c : Chip} {t : Trace} : c.completes t = true ↔ ∃ t', c.writeWitness t = .ok () t' := by
  unfold completes
  cases c.writeWitness t with
  | ok u t' => simp
  | error f t' => simp

theorem writeWitness_of_session_product :
    let P : FieldParams := ⟨4, 2, 2, 32, 251⟩
    let m : Identity P := ⟨⟨0⟩, ⟨2⟩, ⟨4⟩, ⟨6⟩, ⟨⟨8, 2⟩, 2⟩, ⟨⟨10, 2⟩, 2⟩⟩
    let c : Chip := ⟨#[.range 4 ⟨0, 2⟩, .range 4 ⟨2, 2⟩, .range 4 ⟨4, 2⟩, .range 4 ⟨6, 2⟩,
      .range 4 ⟨8, 2⟩, .range 4 ⟨10, 2⟩, .fieldProduct P m], 12, ⟨2⟩⟩
    let b : Builder := ⟨12, ⟨2⟩, c.instructions, none⟩
    let l : Layout := ⟨4, by decide⟩
    let inputs : List CellSlice := [⟨0, 2⟩, ⟨2, 2⟩]
    let entries : List Entry := [.slice ⟨0, 2⟩ [4, 2], .slice ⟨2, 2⟩ [3, 0]]
    Session b inputs ∧ b.build = .ok c ∧ c.manifest.required ≤ l.width ∧
      ∃ t₀ t, c.newTrace l.width = .ok t₀ ∧
        let (_, start) := attemptAll (entries.map Entry.write) t₀
        (∀ j < c.numCells, (start.store j).isSome ↔ ∃ s ∈ inputs, j ∈ s.indices) ∧
          c.writeWitness start = .ok () t ∧ (∀ j < c.numCells, (t.store j).isSome) ∧
          c.rowsAmount l.width = .ok t.table.numRows := by
  intro P m c b l inputs entries
  let b₁ : Builder := ⟨2, ⟨2⟩, #[.range 4 ⟨0, 2⟩], none⟩
  let b₂ : Builder := ⟨4, ⟨2⟩, #[.range 4 ⟨0, 2⟩, .range 4 ⟨2, 2⟩], none⟩
  have halloc₁ : (Call.alloc (.field P)).run.run .empty = .ok ([⟨0, 2⟩], b₁) := rfl
  have halloc₂ : (Call.alloc (.field P)).run.run b₁ = .ok ([⟨2, 2⟩], b₂) := rfl
  have hmul : (Call.mul P ⟨0⟩ ⟨2⟩).run.run b₂ = .ok ([⟨4, 2⟩], b) := by cbv
  have hsession : Session b inputs :=
    .compute (.allocate (.allocate .start (.alloc _) halloc₁) (.alloc _) halloc₂) (.mul _ _)
      (by decide) hmul
  have hwidth : c.manifest.required ≤ l.width := by decide
  let start := (attemptAll (entries.map Entry.write) (.empty l c.numCells)).2
  have hinputs : ∀ j < c.numCells, (start.store j).isSome ↔ ∃ s ∈ inputs, j ∈ s.indices := by
    decide +kernel
  have hcompletes : c.completes start = true := by decide +kernel
  obtain ⟨t₀, ht₀, hpass⟩ := writeWitness_of_session hsession rfl hwidth entries
  have hempty : c.newTrace l.width = .ok (.empty l c.numCells) := rfl
  obtain rfl : Trace.empty l c.numCells = t₀ := Except.ok.inj (hempty.symm.trans ht₀)
  dsimp only at hpass
  have hout := hpass hinputs
  obtain ⟨t, hwrite⟩ := completes_iff.mp hcompletes
  have hwrite' : writeWitness ⟨b.instructions, b.numCells, b.manifest⟩
      (attemptAll (entries.map Entry.write) (.empty l c.numCells)).2 = .ok () t := hwrite
  rw [hwrite'] at hout
  exact ⟨hsession, rfl, hwidth, _, t, ht₀, hinputs, hwrite, hout⟩

end Chip

end ForeignCurve
