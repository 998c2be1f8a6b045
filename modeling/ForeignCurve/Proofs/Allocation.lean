import ForeignCurve.Proofs.Circuit.Cells
import ForeignCurve.Proofs.Recording
import ForeignCurve.Proofs.Gadget.Primitive

/-!
The runs of cells that a recording hands out, to its caller and to its gadgets alike. They cover the arena
without overlap, and each of their cells carries the rule of its kind into the circuit.
-/

namespace ForeignCurve

structure Allocation where
  kind : Kind
  slice : CellSlice

/--
From the first builder to the second, a recording returns the given result, and the runs of cells handed
out on the way are those of the list, in order. Rules of single cells are recorded with such runs only.
-/
inductive Record.Allocates : {α : Type} → Record α → Builder → List Allocation → α → Builder → Prop where
  | pure {α : Type} (a : α) (b : Builder) : Allocates (pure a) b [] a b
  | bind {α β : Type} {g : Record α} {f : α → Record β} {b b' b'' : Builder} {log log' : List Allocation}
    {a : α} {c : β} (hg : Allocates g b log a b') (hf : Allocates (f a) b' log' c b'') :
    Allocates (g >>= f) b (log ++ log') c b''
  | lift {α : Type} (a : α) (b : Builder) : Allocates (liftM (.ok a : Except Abort α)) b [] a b
  | requireHeadroom {P : FieldParams} {b b' : Builder}
    (hrun : (Record.requireHeadroom P).run b = .ok ((), b')) :
    Allocates (Record.requireHeadroom P) b [] () b'
  | append {i : Instruction} {b b' : Builder} (hi : i.isCellRule = false)
    (hrun : (Record.append i).run b = .ok ((), b')) : Allocates (Record.append i) b [] () b'
  | alloc {k : Kind} {b b' : Builder} {r : Register k} (hrun : (Record.alloc k).run b = .ok (r, b')) :
    Allocates (Record.alloc k) b [⟨k, r.slice⟩] r b'
  | allocArray {k : Kind} {length : Nat} {b b' : Builder} {rs : RegisterArray k}
    (hrun : (Record.allocArray k length).run b = .ok (rs, b')) :
    Allocates (Record.allocArray k length) b [⟨k, rs.slice⟩] rs b'

structure Builder.Allocated (b : Builder) (log : List Allocation) : Prop where
  cells : log.flatMap (·.slice.indices) = List.range b.numCells
  rules : b.instructions.toList.filter (·.isCellRule) =
    log.flatMap fun a => (Record.ruleInstruction? a.kind.rule a.slice).toList

namespace Builder.Allocated

variable {b b' : Builder} {log log' : List Allocation}

theorem empty : Builder.empty.Allocated [] :=
  ⟨rfl, rfl⟩

theorem isCellRule_ruleInstruction? (rule : CellRule) (s : CellSlice) :
    ∀ i ∈ (Record.ruleInstruction? rule s).toList, i.isCellRule = true := by
  intro i hi
  rw [Option.mem_toList] at hi
  unfold Record.ruleInstruction? at hi
  split at hi
  · contradiction
  · split at hi
    · contradiction
    · cases hi
      rfl
    · cases hi
      rfl

theorem snoc (h : b.Allocated log) {k : Kind} {n : Nat}
    (hadds : b.Adds n (Record.ruleInstruction? k.rule ⟨b.numCells, n⟩).toList b') :
    b'.Allocated (log ++ [⟨k, ⟨b.numCells, n⟩⟩]) where
  cells := by
    rw [List.flatMap_append, List.flatMap_singleton, h.cells, hadds.numCells, List.range_eq_range',
      List.range_eq_range', CellSlice.indices]
    have happend := @List.range'_append 0 b.numCells n 1
    rwa [Nat.one_mul, Nat.zero_add] at happend
  rules := by
    rw [hadds.instructions, List.filter_append, h.rules, List.flatMap_append, List.flatMap_singleton,
      List.filter_eq_self.mpr (isCellRule_ruleInstruction? _ _)]

theorem extend {α : Type} {g : Record α} {a : α} (hg : g.Allocates b log' a b') (h : b.Allocated log) :
    b'.Allocated (log ++ log') := by
  induction hg generalizing log with
  | pure a b | lift a b => rwa [List.append_nil]
  | bind hg hf ihg ihf =>
    rw [← List.append_assoc]
    exact ihf (ihg h)
  | requireHeadroom hrun =>
    obtain ⟨hcells, hinstructions⟩ := Record.of_requireHeadroom hrun
    rw [List.append_nil]
    exact ⟨h.cells.trans (by rw [hcells]), by rw [hinstructions]; exact h.rules⟩
  | @append i b b' hi hrun =>
    obtain ⟨-, hadds⟩ := (Record.AddsAt.append b.numCells i).of_run hrun
    rw [List.append_nil]
    refine ⟨h.cells.trans (by rw [hadds.numCells, Nat.add_zero]), ?_⟩
    rw [hadds.instructions, List.filter_append, List.filter_singleton, hi, h.rules]
    exact List.append_nil _
  | @alloc k b b' r hrun =>
    obtain ⟨rfl, hadds⟩ := (Record.AddsAt.alloc b.numCells k).of_run hrun
    exact h.snoc hadds
  | @allocArray k length b b' rs hrun =>
    have hsize : k.size ≠ 0 := Needs.needs hrun
    obtain ⟨rfl, hadds⟩ := (Record.AddsAt.allocCellArray b.numCells hsize length).of_run hrun
    exact h.snoc hadds

section Owner

variable {a : Allocation} (h : b.Allocated log) (ha : a ∈ log) {j : Nat} (hj : j ∈ a.slice.indices)

include h ha hj

theorem flatMap_eq {β : Type} {f : Allocation → List β} (hf : ∀ a', j ∉ a'.slice.indices → f a' = []) :
    log.flatMap f = f a := by
  have hnodup : (log.flatMap (·.slice.indices)).Nodup := h.cells ▸ List.nodup_range
  clear h
  induction log with
  | nil => contradiction
  | cons x log ih =>
    rw [List.flatMap_cons, List.nodup_append'] at hnodup
    obtain ⟨-, hrest, hdisjoint⟩ := hnodup
    rw [List.flatMap_cons]
    cases List.mem_cons.mp ha with
    | inl hx =>
      subst hx
      have hnil : log.flatMap f = [] := List.flatMap_eq_nil_iff.mpr fun a' ha' =>
        hf a' fun hj' => hdisjoint hj (List.mem_flatMap.mpr ⟨a', ha', hj'⟩)
      rw [hnil, List.append_nil]
    | inr ha =>
      have hx : j ∉ x.slice.indices := fun hj' => hdisjoint hj' (List.mem_flatMap.mpr ⟨a, ha, hj⟩)
      rw [hf x hx, List.nil_append, ih ha hrest]

theorem flatMap_cellRules_eq : b.instructions.toList.flatMap (·.cellRules j) =
    if a.kind.rule = .free then [] else [a.kind.rule] := by
  have hfilter (is : List Instruction) :
      is.flatMap (·.cellRules j) = (is.filter (·.isCellRule)).flatMap (·.cellRules j) := by
    induction is with
    | nil => rfl
    | cons i is ih =>
      rw [List.flatMap_cons, List.filter_cons, ih]
      split
      · rfl
      · next hi => rw [Instruction.cellRules_of_not_isCellRule (Bool.eq_false_iff.mpr hi), List.nil_append]
  rw [hfilter, h.rules, List.flatMap_assoc]
  simp only [Instruction.cellRules_ruleInstruction?]
  rw [h.flatMap_eq ha hj fun a' hj' => if_neg fun hrule => hj' hrule.1]
  by_cases hfree : a.kind.rule = .free
  · rw [if_pos hfree, if_neg fun hrule => hrule.2 hfree]
  · rw [if_neg hfree, if_pos ⟨hj, hfree⟩]

end Owner

end Builder.Allocated

namespace PrimitiveLogic

def accounting : PrimitiveLogic where
  Run := Eq
  Admits _ := True
  Step g _ R := ∀ b a b', g.run b = .ok (a, b') → (∃ log, g.Allocates b log a b') ∧ ∃ a', R a a'
  part h _ _ := by rw [h]
  pure hR b a b' hrun := by
    cases hrun
    exact ⟨⟨_, .pure _ _⟩, _, hR⟩
  bind hg hf b c b'' hrun := by
    obtain ⟨a, b', hrun₁, hrun₂⟩ := Record.run_bind_eq_ok_iff.mp hrun
    obtain ⟨⟨log, hlog⟩, a', ha⟩ := hg b a b' hrun₁
    obtain ⟨⟨log', hlog'⟩, hc⟩ := hf a a' ha b' c b'' hrun₂
    exact ⟨⟨_, .bind hlog hlog'⟩, hc⟩
  lift x b a b' hrun := by
    obtain ⟨rfl, rfl⟩ := Record.run_lift_eq_ok_iff.mp hrun
    exact ⟨⟨_, .lift _ _⟩, _, rfl⟩
  throw e R b a b' hrun := by contradiction
  len h := by rw [h]
  requireHeadroom _ b _ b' hrun := ⟨⟨_, .requireHeadroom hrun⟩, (), trivial⟩
  alloc k b r b' hrun := ⟨⟨_, .alloc hrun⟩, r, rfl⟩
  allocArray length hk b a b' hrun := by
    obtain ⟨rfl, -⟩ := (Record.AddsAt.allocArray b.numCells hk length).of_run hrun
    exact ⟨⟨_, .allocArray hrun⟩, _, ⟨rfl, rfl⟩, Nat.le_refl _⟩
  append {i i'} hi b _ b' hrun := by
    have hrule : i.isCellRule = false := by
      cases hi
      all_goals rfl
    exact ⟨⟨_, .append hrule hrun⟩, (), trivial⟩

theorem step_append {i : Instruction} (hi : i.isCellRule = false) :
    accounting.Step (Record.append i) (Record.append i) (fun _ _ => True) :=
  fun _ _ _ hrun => ⟨⟨_, .append hi hrun⟩, (), trivial⟩

theorem step_copyPoint {P : FieldParams} {g : Record (PointRegister P)} (result : PointRegister P)
    {R : PointRegister P → PointRegister P → Prop} (hg : accounting.Step g g R) :
    accounting.Step (do Gadget.setToCopyPoint (← g) result) (do Gadget.setToCopyPoint (← g) result)
      (fun _ _ => True) := by
  refine accounting.bind hg fun p p' _ => ?_
  refine accounting.bind (step_append (i := .copy p.x.slice result.x.slice) rfl) fun _ _ _ => ?_
  exact step_append (i := .copy p.y.slice result.y.slice) rfl

end PrimitiveLogic

namespace Call

theorem step_accounting (c : Call) :
    PrimitiveLogic.accounting.Step c.run c.run (fun _ _ => True) := by
  -- A call is related to itself, with every operand standing for itself. The calls that only compute
  -- from their operands are one case, the last; those that allocate or append are taken one by one.
  let accounting := PrimitiveLogic.accounting
  let L := accounting.toRecordLogic
  have hnothing {g : Record Unit} (hg : accounting.Step g g (fun _ _ => True)) :
      accounting.Step (nothing g) (nothing g) (fun _ _ => True) :=
    accounting.bind hg fun _ _ _ => accounting.pure trivial
  cases c
  case alloc k => exact accounting.bind (accounting.alloc k) fun _ _ _ => accounting.pure trivial
  case allocArray k length =>
    intro b answer b' hrun
    obtain ⟨a, b₁, halloc, hpure⟩ := Record.run_bind_eq_ok_iff.mp hrun
    cases hpure
    exact ⟨⟨_, .bind (.allocArray halloc) (.pure _ _)⟩, [], trivial⟩
  case allocPoint P =>
    have hpoint : accounting.Step (Record.allocPoint P) (Record.allocPoint P) (fun _ _ => True) :=
      accounting.bind (accounting.alloc _) fun _ _ _ =>
        accounting.bind (accounting.alloc _) fun _ _ _ => accounting.pure trivial
    exact accounting.bind hpoint fun _ _ _ => accounting.pure trivial
  case setSelect | setConstant | assertConstant | setToCopy => exact hnothing (PrimitiveLogic.step_append rfl)
  case limbSum a x y limbBits =>
    have hself (o : LimbOperand) : o.Corresponds accounting.Run o := by
      cases o with
      | cells s => exact .cells rfl
      | const limbs => exact .const limbs
    have hsum : accounting.Step (Gadget.limbSum a x y limbBits) _ (fun _ _ => True) :=
      PrimitiveLogic.limbSum limbBits rfl (hself x) (hself y)
    exact accounting.bind hsum fun _ _ _ => accounting.pure trivial
  case setAdd P a x r =>
    have hset : accounting.Step (Gadget.setAdd a x r) _ (fun _ _ => True) :=
      PrimitiveLogic.setAdd trivial rfl rfl rfl
    exact hnothing hset
  case setSub P a x r =>
    have hset : accounting.Step (Gadget.setSub a x r) _ (fun _ _ => True) :=
      PrimitiveLogic.setSub trivial rfl rfl rfl
    exact hnothing hset
  case setMul P a x r =>
    have hset : accounting.Step (Gadget.setMul a x r) _ (fun _ _ => True) :=
      PrimitiveLogic.setMul trivial rfl rfl rfl
    exact hnothing hset
  case setAddPoint E p q result =>
    have hadd : L.Step (Gadget.addPoint E p q) (Gadget.addPoint E p q) L.SamePoint :=
      RecordLogic.addPoint trivial ⟨rfl, rfl⟩ ⟨rfl, rfl⟩
    exact hnothing (PrimitiveLogic.step_copyPoint result hadd)
  case setScalarMul E scalar p result =>
    have hmul : L.Step (Gadget.scalarMul E scalar p) (Gadget.scalarMul E scalar p) L.SamePoint :=
      RecordLogic.scalarMul trivial trivial (L := L) rfl ⟨rfl, rfl⟩
    exact hnothing (PrimitiveLogic.step_copyPoint result hmul)
  all_goals
    refine ComputesFrom.step (L := accounting.toRecordLogic) (by constructor) (fun _ _ => rfl) ?_
    exact fun _ _ => trivial

theorem exists_allocates {calls : List Call} {b b' : Builder} {answers : List (List CellSlice)}
    (hrun : (calls.mapM run).run b = .ok (answers, b')) :
    ∃ log, (calls.mapM run).Allocates b log answers b' := by
  induction calls generalizing b answers with
  | nil =>
    cases hrun
    exact ⟨_, .pure _ _⟩
  | cons c calls ih =>
    rw [List.mapM_cons] at hrun ⊢
    obtain ⟨answer, b₁, hc, hrun⟩ := Record.run_bind_eq_ok_iff.mp hrun
    obtain ⟨rest, b₂, hrest, hpure⟩ := Record.run_bind_eq_ok_iff.mp hrun
    cases hpure
    obtain ⟨⟨log, hlog⟩, -⟩ := step_accounting c b answer b₁ hc
    obtain ⟨log', hlog'⟩ := ih hrest
    exact ⟨_, .bind hlog (.bind hlog' (.pure _ _))⟩

end Call

/-- In the circuit, a cell is looked up as the rule says, and constrained to be a bit if the rule says so. -/
structure Circuit.Constrains (c : Circuit) (cell : Cell) (rule : CellRule) : Prop where
  tables : c.tables cell = rule.tables
  isBoolean : c.IsBoolean cell ↔ rule = .boolean

/--
The runs of cells that calls, and the gadgets that they record, allocate are all the cells of the chip,
each once and in order. Whatever the width, the circuit has for each of them what the rule of its kind
asks for and no more, and in the tables that it accepts the cell has a value that the rule allows.
-/
theorem Chip.allocations_constrained {calls : List Call} {answers : List (List CellSlice)} {b : Builder}
    {c : Chip} (hrun : (calls.mapM Call.run).run .empty = .ok (answers, b)) (hbuild : b.build = .ok c) :
    (∃ log, (calls.mapM Call.run).Allocates .empty log answers b) ∧
      ∀ log, (calls.mapM Call.run).Allocates .empty log answers b →
        log.flatMap (·.slice.indices) = List.range c.numCells ∧
          ∀ (l : Layout) (circuit : Circuit), c.manifest.required ≤ l.width →
            c.emit l.width = .ok circuit → ∀ a ∈ log, ∀ j ∈ a.slice.indices,
              circuit.Constrains (l.cell j) a.kind.rule ∧ ∀ t, circuit.check t = .ok () →
                a.kind.rule = .free ∨ ∃ x, t.get? (l.cell j) = some x ∧ a.kind.rule.Allows x := by
  obtain ⟨-, rfl⟩ := Builder.build_eq_ok_iff.mp hbuild
  refine ⟨Call.exists_allocates hrun, fun log hlog => ?_⟩
  have hall : b.Allocated log := Builder.Allocated.empty.extend hlog
  refine ⟨hall.cells, fun l circuit hwidth hemit a ha j hj => ?_⟩
  have hrules := hall.flatMap_cellRules_eq ha hj
  have htables := tables_emit hwidth hemit j
  have hboolean := isBoolean_emit_iff hwidth hemit j
  rw [hrules] at htables hboolean
  refine ⟨⟨?_, ?_⟩, fun t ht => ?_⟩
  · rw [htables]
    cases a.kind.rule with
    | free | boolean | range => rfl
  · rw [hboolean]
    cases a.kind.rule with
    | free | boolean | range => simp
  · by_cases hfree : a.kind.rule = .free
    · exact .inl hfree
    · rw [if_neg hfree] at hrules
      have hmem : a.kind.rule ∈ b.instructions.toList.flatMap (·.cellRules j) :=
        hrules ▸ List.mem_singleton_self _
      obtain ⟨i, hi, hrule⟩ := List.mem_flatMap.mp hmem
      exact .inr (((check_emit_iff hwidth hemit t).mp ht i hi).allows hrule)

def byteAboveTwo : List Call :=
  [.alloc (.limb 8), .alloc .element, .greaterThan ⟨0, 1⟩ 2 8]

def byteAboveTwoChip : Chip where
  instructions := #[.range 8 ⟨0, 1⟩, .boolean ⟨2, 1⟩, .greaterThan ⟨0, 1⟩ [2] 8 ⟨2⟩]
  numCells := 3
  manifest := ⟨1⟩

theorem Chip.allocations_constrained_byteAboveTwo :
    ∃ answers b log circuit, (byteAboveTwo.mapM Call.run).run .empty = .ok (answers, b) ∧
      b.build = .ok byteAboveTwoChip ∧ (byteAboveTwo.mapM Call.run).Allocates .empty log answers b ∧
      log.flatMap (·.slice.indices) = [0, 1, 2] ∧ byteAboveTwoChip.emit 1 = .ok circuit ∧
      ∀ a ∈ log, ∀ j ∈ a.slice.indices,
        circuit.Constrains (Layout.cell ⟨1, Nat.one_pos⟩ j) a.kind.rule := by
  have hrun : (byteAboveTwo.mapM Call.run).run .empty = .ok ([[⟨0, 1⟩], [⟨1, 1⟩], [⟨2, 1⟩]],
      ⟨3, ⟨1⟩, byteAboveTwoChip.instructions, none⟩) := rfl
  have hbuild : Builder.build ⟨3, ⟨1⟩, byteAboveTwoChip.instructions, none⟩ = .ok byteAboveTwoChip := rfl
  obtain ⟨circuit, hemit⟩ : ∃ circuit, byteAboveTwoChip.emit 1 = .ok circuit := ⟨_, rfl⟩
  obtain ⟨⟨log, hlog⟩, hall⟩ := Chip.allocations_constrained hrun hbuild
  obtain ⟨hcells, hconstrains⟩ := hall log hlog
  refine ⟨_, _, log, circuit, hrun, hbuild, hlog, hcells, hemit, fun a ha j hj => ?_⟩
  exact (hconstrains ⟨1, Nat.one_pos⟩ circuit (Nat.le_refl 1) hemit a ha j hj).1

end ForeignCurve
