import ForeignCurve.Proofs.Circuit.Acceptance
import ForeignCurve.Proofs.Width.Pass

/-!
Circuits of two widths. A schedule is emitted once over the logical indices of its cells, which are the
rows of a table of one column; the circuit of any width is that one with its cells put in place. So the
checker goes through the same constraints at all widths, and reports the same.
-/

namespace ForeignCurve

variable {l l' : Layout}

namespace Layout

def column : Layout :=
  ⟨1, Nat.one_pos⟩

theorem row_cell_column (i : Nat) : (column.cell i).row = i :=
  Nat.div_one i

end Layout

def Cell.place (l : Layout) (c : Cell) : Cell :=
  l.cell c.row

theorem Cell.place_cell (l : Layout) (i : Nat) : (Layout.column.cell i).place l = l.cell i := by
  rw [place, Layout.row_cell_column]

namespace Expr

def place (l : Layout) : Expr → Expr
  | const value => .const value
  | cell c => .cell (c.place l)
  | sum a b => .sum (a.place l) (b.place l)
  | difference a b => .difference (a.place l) (b.place l)
  | negation a => .negation (a.place l)
  | product a b => .product (a.place l) (b.place l)

theorem hom_place (l : Layout) : Arith.Hom (place l) where
  const _ := rfl
  add _ _ := rfl
  sub _ _ := rfl
  neg _ := rfl
  mul _ _ := rfl

end Expr

theorem Emitter.cells_empty_place (l : Layout) (n : Nat) :
    (Emitter.empty Layout.column n).cells.map (Expr.place l) = (Emitter.empty l n).cells := by
  simp only [Emitter.cells, Emitter.empty, Array.map_ofFn]
  congr 1
  funext i
  exact congrArg Expr.cell (Cell.place_cell l i)

namespace Circuit

def place (l : Layout) (c : Circuit) : Circuit where
  gates := c.gates.map (·.map (Expr.place l))
  lookups := c.lookups.map fun lookup => (lookup.1, lookup.2.map (Expr.place l))
  copies := c.copies.map fun copy => (copy.1.place l, copy.2.place l)

theorem place_append (l : Layout) (c c' : Circuit) : (c ++ c').place l = c.place l ++ c'.place l := by
  simp only [append_def, place, Array.map_append]

theorem place_concat (l : Layout) (cs : List Circuit) :
    (concat cs).place l = concat (cs.map (place l)) := by
  induction cs with
  | nil => simp [concat, place, empty]
  | cons c cs ih => rw [concat_cons, place_append, ih, List.map_cons, concat_cons]

theorem ofAssertions_place (l : Layout) (as : List (Assertion Expr)) :
    ofAssertions l (as.map (Assertion.map (Expr.place l))) = (ofAssertions .column as).place l := by
  have hcopies : (Assertion.copies .column as).map (fun copy => (copy.1.place l, copy.2.place l)) =
      Assertion.copies l as := by
    unfold Assertion.copies
    rw [List.map_flatMap]
    simp only [List.map_map, Function.comp_def, Cell.place_cell]
  have hempty : ((Assertion.vanishing as).map (Expr.place l)).isEmpty =
      (Assertion.vanishing as).isEmpty := List.isEmpty_map
  unfold ofAssertions place
  simp only [Assertion.vanishing_map, Assertion.lookups_map, hempty, List.map_toArray, hcopies]
  congr 1
  · split
    · rw [Array.map_empty]
    · rw [Array.map_singleton]
  · unfold Assertion.copies
    rw [Assertion.links_map]

end Circuit

theorem Instruction.circuit_eq_place (l : Layout) (n : Nat) (i : Instruction) :
    i.circuit l n = (i.circuit .column n).map (Circuit.place l) := by
  unfold circuit
  rw [← Emitter.cells_empty_place, i.assertions_map (Expr.hom_place l), bind_map]
  simp only [Assertion.checked_map, map_bind]
  refine bind_congr fun as => ?_
  cases Assertion.checked as with
  | error a => rfl
  | ok as => exact congrArg Except.ok (Circuit.ofAssertions_place l as)

namespace Chip

def columnCircuit (c : Chip) : Except Abort Circuit :=
  (c.instructions.toList.mapM (Instruction.circuit .column c.numCells)).map Circuit.concat

theorem emit_eq_place (c : Chip) (h : c.manifest.required ≤ l.width) :
    c.emit l.width = (c.columnCircuit.map (Circuit.place l)).mapError Failure.abort := by
  have hcircuit : Instruction.circuit l c.numCells =
      fun i => (i.circuit .column c.numCells).map (Circuit.place l) := by
    funext i
    exact i.circuit_eq_place l c.numCells
  rw [emit_eq c h, columnCircuit, hcircuit, mapM_map]
  cases c.instructions.toList.mapM (Instruction.circuit .column c.numCells) with
  | error a => rfl
  | ok cs => exact congrArg Except.ok (Circuit.place_concat l cs).symm

end Chip

inductive Cell.Alike (l l' : Layout) : Cell → Cell → Prop where
  | mk (i : Nat) : Alike l l' (l.cell i) (l'.cell i)

inductive Violation.Alike (l l' : Layout) : Violation → Violation → Prop where
  | gate (gate constraint : Nat) : Alike l l' (.gate gate constraint) (.gate gate constraint)
  | lookup (table : LookupTable) (lookup : Nat) : Alike l l' (.lookup table lookup) (.lookup table lookup)
  | copy (i j : Nat) : Alike l l' (.copy (l.cell i) (l.cell j)) (.copy (l'.cell i) (l'.cell j))
  | unassigned (i : Nat) : Alike l l' (.unassigned (l.cell i)) (.unassigned (l'.cell i))

section Lists

variable {α β γ : Type}

theorem forall₂_filterMap {R : β → γ → Prop} {f : α → Option β} {g : α → Option γ} {as : List α}
    (h : ∀ a, Option.Rel R (f a) (g a)) : List.Forall₂ R (as.filterMap f) (as.filterMap g) := by
  induction as with
  | nil => exact .nil
  | cons a as ih =>
    have ha := h a
    rw [List.filterMap_cons, List.filterMap_cons]
    generalize f a = b at ha ⊢
    generalize g a = c at ha ⊢
    cases ha with
    | none => exact ih
    | some hbc => exact .cons hbc ih

theorem forall₂_flatMap {R : β → γ → Prop} {f : α → List β} {g : α → List γ} {as : List α}
    (h : ∀ a, List.Forall₂ R (f a) (g a)) : List.Forall₂ R (as.flatMap f) (as.flatMap g) := by
  induction as with
  | nil => exact .nil
  | cons a as ih => exact List.rel_append (h a) ih

end Lists

namespace Trace.Alike

variable {n : Nat} {t t' : Trace} (h : t.Alike l l' n t')

include h

theorem get?_place (c : Cell) : t'.table.get? (c.place l') = t.table.get? (c.place l) := by
  have hstore := congrFun h.store c.row
  unfold Trace.store Table.store at hstore
  rwa [h.layout, h.layout'] at hstore

theorem evaluate (e : Expr) :
    Matches (Cell.Alike l l') (fun _ => True) ((e.place l).evaluate t.table)
      ((e.place l').evaluate t'.table) := by
  induction e with
  | const value => exact .ok trivial
  | cell c =>
    unfold Expr.place Expr.evaluate
    rw [h.get?_place]
    cases t.table.get? (c.place l) with
    | none => exact .error (.mk c.row)
    | some x => exact .ok trivial
  | sum a b iha ihb => exact iha.bind fun _ _ => ihb.bind fun _ _ => .ok trivial
  | difference a b iha ihb => exact iha.bind fun _ _ => ihb.bind fun _ _ => .ok trivial
  | negation a iha => exact iha.bind fun _ _ => .ok trivial
  | product a b iha ihb => exact iha.bind fun _ _ => ihb.bind fun _ _ => .ok trivial

theorem constraintViolation (gate constraint : Nat) (e : Expr) :
    Option.Rel (Violation.Alike l l')
      (Circuit.constraintViolation t.table gate constraint (e.place l))
      (Circuit.constraintViolation t'.table gate constraint (e.place l')) := by
  have heval := h.evaluate e
  unfold Circuit.constraintViolation
  generalize (e.place l).evaluate t.table = x at heval ⊢
  generalize (e.place l').evaluate t'.table = x' at heval ⊢
  cases heval with
  | @ok a _ =>
    dsimp only
    split
    · exact .none
    · exact .some (.gate gate constraint)
  | error hcell =>
    cases hcell with
    | mk i => exact .some (.unassigned i)

theorem lookupViolation (lookup : Nat) (table : LookupTable) (es : List Expr) :
    Option.Rel (Violation.Alike l l')
      (Circuit.lookupViolation t.table lookup table (es.map (Expr.place l)))
      (Circuit.lookupViolation t'.table lookup table (es.map (Expr.place l'))) := by
  have heval : Matches (Cell.Alike l l') (fun _ => True)
      ((es.map (Expr.place l)).mapM (Expr.evaluate t.table))
      ((es.map (Expr.place l')).mapM (Expr.evaluate t'.table)) := by
    rw [List.mapM_map, List.mapM_map]
    exact .mapM fun e _ => h.evaluate e
  unfold Circuit.lookupViolation
  generalize (es.map (Expr.place l)).mapM (Expr.evaluate t.table) = x at heval ⊢
  generalize (es.map (Expr.place l')).mapM (Expr.evaluate t'.table) = x' at heval ⊢
  cases heval with
  | ok _ =>
    dsimp only
    split
    · exact .none
    · exact .some (.lookup table lookup)
  | error hcell =>
    cases hcell with
    | mk i => exact .some (.unassigned i)

theorem copyViolation (a b : Cell) :
    Option.Rel (Violation.Alike l l')
      (Circuit.copyViolation t.table (a.place l) (b.place l))
      (Circuit.copyViolation t'.table (a.place l') (b.place l')) := by
  unfold Circuit.copyViolation
  rw [h.get?_place, h.get?_place]
  cases t.table.get? (a.place l) with
  | none => exact .some (.unassigned a.row)
  | some x =>
    cases t.table.get? (b.place l) with
    | none => exact .some (.unassigned b.row)
    | some y =>
      dsimp only
      split
      · exact .none
      · exact .some (.copy a.row b.row)

theorem exists_steps_iff (is : List Instruction) :
    (∃ u, Steps t is u) ↔ ∃ u, Steps t' is u := by
  have hout := TraceM.Uniform.runFrom 0 is t t' h
  simp only [← @Chip.runFrom_eq_ok_iff 0]
  generalize Chip.runFrom 0 is t = r at hout ⊢
  generalize Chip.runFrom 0 is t' = r' at hout ⊢
  cases hout with
  | ok a _ => simp
  | error _ _ => simp

theorem violations (c : Circuit) :
    List.Forall₂ (Violation.Alike l l') ((c.place l).violations t.table)
      ((c.place l').violations t'.table) := by
  unfold Circuit.violations Circuit.place Circuit.gateViolations
  simp only [Array.toList_map, List.zipIdx_map, List.flatMap_map, List.filterMap_map]
  refine List.rel_append (List.rel_append ?_ ?_) ?_
  · refine forall₂_flatMap fun p => ?_
    simp only [Prod.map_fst, Prod.map_snd, Function.comp_def, List.zipIdx_map, List.filterMap_map]
    exact forall₂_filterMap fun q => h.constraintViolation p.2 q.2 q.1
  · exact forall₂_filterMap fun p => h.lookupViolation p.2 p.1.1 p.1.2
  · exact forall₂_filterMap fun p => h.copyViolation p.1 p.2

end Trace.Alike

namespace Chip

open TraceM

/--
The width of a table does not change what a chip does. Whatever the caller writes, each of its writes
and the witness pass have the same outcome at both widths, and a pass that fails or aborts does so at
the same instruction; all registers then read the same; and either no circuit is emitted, for the same
reason, or both circuits report the same.
-/
theorem alike_at_widths (c : Chip) (l l' : Layout) (entries : List Entry)
    (h : c.manifest.required ≤ l.width) (h' : c.manifest.required ≤ l'.width) :
    ∃ t₀ t₀', c.newTrace l.width = .ok t₀ ∧ c.newTrace l'.width = .ok t₀' ∧
      let writes := entries.map Entry.write
      let (_, start) := attemptAll writes t₀
      let (_, start') := attemptAll writes t₀'
      let (outcomes, t) := attemptAll (writes ++ [c.writeWitness]) t₀
      let (outcomes', t') := attemptAll (writes ++ [c.writeWitness]) t₀'
      List.Forall₂ (Option.Rel (Failure.Alike l l')) outcomes outcomes' ∧
        (∀ is, is <+: c.instructions.toList →
          ((∃ u, Steps start is u) ↔ ∃ u, Steps start' is u)) ∧
        (∀ s, Matches (Fault.Alike l l') (fun _ => True) (t.readSlice s) (t'.readSlice s)) ∧
        Agree (fun circuit circuit' => List.Forall₂ (Violation.Alike l l')
          (circuit.violations t.table) (circuit'.violations t'.table))
          (c.emit l.width) (c.emit l'.width) := by
  refine ⟨.empty l c.numCells, .empty l' c.numCells, ?_, ?_, ?_⟩
  · rw [newTrace, c.layout_eq_ok h]
    rfl
  · rw [newTrace, c.layout_eq_ok h']
    rfl
  · intro writes
    have hwrites : ∀ x ∈ writes, Uniform l l' c.numCells x := by
      rw [List.forall_mem_map]
      exact fun e _ => .entry e
    have hprogram : ∀ x ∈ writes ++ [c.writeWitness], Uniform l l' c.numCells x := by
      rw [List.forall_mem_append, List.forall_mem_singleton]
      exact ⟨hwrites, .writeWitness c⟩
    obtain ⟨-, hstart⟩ := alike_attemptAll hwrites (.empty l l' c.numCells)
    obtain ⟨houtcomes, hlast⟩ := alike_attemptAll hprogram (.empty l l' c.numCells)
    refine ⟨houtcomes, fun is _ => hstart.exists_steps_iff is, fun s => hlast.readSlice s, ?_⟩
    rw [c.emit_eq_place h, c.emit_eq_place h']
    cases c.columnCircuit with
    | error a => exact Agree.error (Failure.abort a)
    | ok circuit => exact .ok (hlast.violations circuit)

theorem alike_at_widths_outOfRange :
    let P : FieldParams := ⟨4, 2, 2, 32, 251⟩
    let m : Identity P := ⟨⟨0⟩, ⟨2⟩, ⟨4⟩, ⟨6⟩, ⟨⟨8, 2⟩, 2⟩, ⟨⟨10, 2⟩, 2⟩⟩
    let c : Chip := ⟨#[.range 4 ⟨0, 2⟩, .fieldProduct P m], 12, ⟨2⟩⟩
    let l : Layout := ⟨2, by decide⟩
    let l' : Layout := ⟨4, by decide⟩
    let entries : List Entry := [.slice ⟨0, 2⟩ [20, 1], .slice ⟨2, 2⟩ [3, 0]]
    c.manifest.required ≤ l.width ∧ c.manifest.required ≤ l'.width ∧
      ∃ t₀ t₀', c.newTrace l.width = .ok t₀ ∧ c.newTrace l'.width = .ok t₀' ∧
        List.Forall₂ (Option.Rel (Failure.Alike l l'))
          (attemptAll (entries.map Entry.write ++ [c.writeWitness]) t₀).1
          (attemptAll (entries.map Entry.write ++ [c.writeWitness]) t₀').1 := by
  intro P m c l l' entries
  have h : c.manifest.required ≤ l.width := by decide
  have h' : c.manifest.required ≤ l'.width := by decide
  obtain ⟨t₀, t₀', ht₀, ht₀', houtcomes, -⟩ := alike_at_widths c l l' entries h h'
  exact ⟨h, h', t₀, t₀', ht₀, ht₀', houtcomes⟩

end Chip

end ForeignCurve
