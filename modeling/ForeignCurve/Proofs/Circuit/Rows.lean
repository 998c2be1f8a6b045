import ForeignCurve.Proofs.Circuit.Acceptance
import ForeignCurve.Proofs.Instruction.Plan

namespace ForeignCurve

def rowCount : Option Nat → Nat
  | none => 0
  | some row => row + 1

theorem rowCount_none_le (n : Nat) : rowCount none ≤ n :=
  Nat.zero_le n

namespace Expr

def cells : Expr → List Cell
  | const _ => []
  | cell c => [c]
  | negation a => a.cells
  | sum a b | difference a b | product a b => a.cells ++ b.cells

theorem rowCount_joinRows_le_iff {a b : Option Nat} {n : Nat} :
    rowCount (joinRows a b) ≤ n ↔ rowCount a ≤ n ∧ rowCount b ≤ n := by
  cases a with
  | none => simp [joinRows, rowCount]
  | some a =>
    cases b with
    | none => simp [joinRows, rowCount]
    | some b =>
      simp only [joinRows, rowCount]
      omega

theorem rowCount_maxRow_le_iff {e : Expr} {n : Nat} :
    rowCount e.maxRow ≤ n ↔ ∀ c ∈ e.cells, c.row < n := by
  induction e with
  | const value => simp [maxRow, rowCount, cells]
  | cell c => simp only [maxRow, rowCount, cells, List.mem_singleton, forall_eq, Nat.succ_le_iff]
  | negation a ih => exact ih
  | sum a b iha ihb | difference a b iha ihb | product a b iha ihb =>
    rw [maxRow, rowCount_joinRows_le_iff, iha, ihb, cells, List.forall_mem_append]

end Expr

theorem rowCount_foldl_le_iff {α : Type} {f : α → Option Nat} {as : List α} {row : Option Nat} {n : Nat} :
    rowCount (as.foldl (fun row a => Expr.joinRows row (f a)) row) ≤ n ↔
      rowCount row ≤ n ∧ ∀ a ∈ as, rowCount (f a) ≤ n := by
  induction as generalizing row with
  | nil => simp
  | cons a as ih =>
    rw [List.foldl_cons, ih, Expr.rowCount_joinRows_le_iff, List.forall_mem_cons, and_assoc]

namespace Circuit

inductive Refers (c : Circuit) (cell : Cell) : Prop where
  | gate (es : List Expr) (hes : es ∈ c.gates.toList) (e : Expr) (he : e ∈ es) (h : cell ∈ e.cells)
  | lookup (lookup : LookupTable × List Expr) (hlookup : lookup ∈ c.lookups.toList) (e : Expr)
    (he : e ∈ lookup.2) (h : cell ∈ e.cells)
  | copyLeft (copy : Cell × Cell) (hcopy : copy ∈ c.copies.toList) (h : cell = copy.1)
  | copyRight (copy : Cell × Cell) (hcopy : copy ∈ c.copies.toList) (h : cell = copy.2)

theorem rowCount_maxRow_le_iff {es : List Expr} {n : Nat} :
    rowCount (maxRow es) ≤ n ↔ ∀ e ∈ es, ∀ c ∈ e.cells, c.row < n := by
  unfold maxRow
  rw [rowCount_foldl_le_iff]
  simp only [Expr.rowCount_maxRow_le_iff, rowCount_none_le, true_and]

theorem rowsAmount_le_iff {c : Circuit} {n : Nat} :
    c.rowsAmount ≤ n ↔ ∀ cell, c.Refers cell → cell.row < n := by
  -- A maximum is described by what it is below, so that the three folds fall apart into their items.
  have hrows : c.rowsAmount ≤ n ↔
      ((∀ es ∈ c.gates.toList, ∀ e ∈ es, ∀ cell ∈ e.cells, cell.row < n) ∧
        ∀ lookup ∈ c.lookups.toList, ∀ e ∈ lookup.2, ∀ cell ∈ e.cells, cell.row < n) ∧
        ∀ copy ∈ c.copies.toList, copy.1.row < n ∧ copy.2.row < n := by
    have hcopy (copy : Cell × Cell) :
        rowCount (some (max copy.1.row copy.2.row)) ≤ n ↔ copy.1.row < n ∧ copy.2.row < n := by
      simp only [rowCount]
      omega
    simp only [← rowCount_maxRow_le_iff, ← hcopy]
    unfold rowsAmount
    simp only [← Array.foldl_toList]
    change rowCount _ ≤ n ↔ _
    rw [rowCount_foldl_le_iff, rowCount_foldl_le_iff, rowCount_foldl_le_iff]
    simp only [rowCount_none_le, true_and]
  rw [hrows]
  constructor
  · rintro ⟨⟨hgates, hlookups⟩, hcopies⟩ cell h
    cases h with
    | gate es hes e he h => exact hgates es hes e he cell h
    | lookup lookup hlookup e he h => exact hlookups lookup hlookup e he cell h
    | copyLeft copy hcopy h => exact h ▸ (hcopies copy hcopy).1
    | copyRight copy hcopy h => exact h ▸ (hcopies copy hcopy).2
  · intro h
    exact ⟨⟨fun es hes e he cell hcell => h cell (.gate es hes e he hcell),
      fun lookup hlookup e he cell hcell => h cell (.lookup lookup hlookup e he hcell)⟩,
      fun copy hcopy => ⟨h _ (.copyLeft copy hcopy rfl), h _ (.copyRight copy hcopy rfl)⟩⟩

theorem row_lt_rowsAmount {c : Circuit} {cell : Cell} (h : c.Refers cell) : cell.row < c.rowsAmount :=
  rowsAmount_le_iff.mp (Nat.le_refl _) cell h

theorem refers_empty (cell : Cell) : ¬ empty.Refers cell := by
  rintro (⟨_, h, _⟩ | ⟨_, h, _⟩ | ⟨_, h, _⟩ | ⟨_, h, _⟩)
  all_goals simp [empty] at h

theorem refers_append_iff {c c' : Circuit} {cell : Cell} :
    (c ++ c').Refers cell ↔ c.Refers cell ∨ c'.Refers cell := by
  rw [append_def]
  constructor
  · rintro (⟨es, hes, e, he, h⟩ | ⟨lookup, hlookup, e, he, h⟩ | ⟨copy, hcopy, h⟩ | ⟨copy, hcopy, h⟩)
    · rw [Array.toList_append, List.mem_append] at hes
      exact hes.imp (fun hes => .gate es hes e he h) fun hes => .gate es hes e he h
    · rw [Array.toList_append, List.mem_append] at hlookup
      exact hlookup.imp (fun hlookup => .lookup lookup hlookup e he h)
        fun hlookup => .lookup lookup hlookup e he h
    · rw [Array.toList_append, List.mem_append] at hcopy
      exact hcopy.imp (fun hcopy => .copyLeft copy hcopy h) fun hcopy => .copyLeft copy hcopy h
    · rw [Array.toList_append, List.mem_append] at hcopy
      exact hcopy.imp (fun hcopy => .copyRight copy hcopy h) fun hcopy => .copyRight copy hcopy h
  · have hmem {α : Type} {as bs : Array α} {a : α} (h : a ∈ as.toList ∨ a ∈ bs.toList) :
        a ∈ (as ++ bs).toList := by
      rwa [Array.toList_append, List.mem_append]
    rintro (h | h)
    · obtain ⟨es, hes, e, he, h⟩ | ⟨lookup, hlookup, e, he, h⟩ | ⟨copy, hcopy, h⟩ | ⟨copy, hcopy, h⟩ := h
      · exact .gate es (hmem (.inl hes)) e he h
      · exact .lookup lookup (hmem (.inl hlookup)) e he h
      · exact .copyLeft copy (hmem (.inl hcopy)) h
      · exact .copyRight copy (hmem (.inl hcopy)) h
    · obtain ⟨es, hes, e, he, h⟩ | ⟨lookup, hlookup, e, he, h⟩ | ⟨copy, hcopy, h⟩ | ⟨copy, hcopy, h⟩ := h
      · exact .gate es (hmem (.inr hes)) e he h
      · exact .lookup lookup (hmem (.inr hlookup)) e he h
      · exact .copyLeft copy (hmem (.inr hcopy)) h
      · exact .copyRight copy (hmem (.inr hcopy)) h

theorem refers_concat_iff {cs : List Circuit} {cell : Cell} :
    (concat cs).Refers cell ↔ ∃ c ∈ cs, c.Refers cell := by
  induction cs with
  | nil =>
    refine ⟨fun h => absurd h (refers_empty cell), ?_⟩
    rintro ⟨c, hc, -⟩
    contradiction
  | cons c cs ih => rw [concat_cons, refers_append_iff, ih, List.exists_mem_cons_iff]

section Assertions

variable {l : Layout} {as : List (Assertion Expr)}

theorem refers_of_vanishes {e : Expr} (he : .vanishes e ∈ as) {cell : Cell} (h : cell ∈ e.cells) :
    (ofAssertions l as).Refers cell := by
  have hmem := Assertion.mem_vanishing.mpr he
  refine .gate (Assertion.vanishing as) ?_ e hmem h
  have hne : ¬ (Assertion.vanishing as).isEmpty := by
    rw [List.isEmpty_iff]
    exact List.ne_nil_of_mem hmem
  simp [ofAssertions, hne]

theorem refers_of_lookup {table : LookupTable} {es : List Expr} (hes : .lookup table es ∈ as) {e : Expr}
    (he : e ∈ es) {cell : Cell} (h : cell ∈ e.cells) : (ofAssertions l as).Refers cell := by
  refine .lookup (table, es) ?_ e he h
  exact Assertion.mem_lookups.mpr hes

theorem forall_refers_ofAssertions {P : Cell → Prop} (hvanishes : ∀ e, .vanishes e ∈ as → ∀ c ∈ e.cells, P c)
    (hlookup : ∀ table es, .lookup table es ∈ as → ∀ e ∈ es, ∀ c ∈ e.cells, P c)
    (hlink : ∀ a b, .link a b ∈ as → ∀ i, i ∈ a.indices ∨ i ∈ b.indices → P (l.cell i)) {cell : Cell}
    (h : (ofAssertions l as).Refers cell) : P cell := by
  have hcopies : ∀ copy ∈ Assertion.copies l as, P copy.1 ∧ P copy.2 :=
    forall_mem_copies_iff.mpr fun a b hab p hp =>
      ⟨hlink a b hab _ (.inl (List.of_mem_zip hp).1), hlink a b hab _ (.inr (List.of_mem_zip hp).2)⟩
  cases h with
  | gate es hes e he h =>
    unfold ofAssertions at hes
    dsimp only at hes
    split at hes
    · contradiction
    · obtain rfl := List.mem_singleton.mp hes
      exact hvanishes e (Assertion.mem_vanishing.mp he) cell h
  | lookup lookup hmem e he h =>
    exact hlookup lookup.1 lookup.2 (Assertion.mem_lookups.mp hmem) e he cell h
  | copyLeft copy hcopy h => exact h ▸ (hcopies copy hcopy).1
  | copyRight copy hcopy h => exact h ▸ (hcopies copy hcopy).2

end Assertions

end Circuit

structure Expr.Placed (l : Layout) (n : Nat) where
  expr : Expr
  placed : ∀ c ∈ expr.cells, ∃ i < n, c = l.cell i

namespace Expr.Placed

variable {l : Layout} {n : Nat}

instance : Arith (Placed l n) where
  const c := ⟨.const c, by simp [cells]⟩
  add a b := ⟨.sum a.expr b.expr, List.forall_mem_append.mpr ⟨a.placed, b.placed⟩⟩
  sub a b := ⟨.difference a.expr b.expr, List.forall_mem_append.mpr ⟨a.placed, b.placed⟩⟩
  neg a := ⟨.negation a.expr, a.placed⟩
  mul a b := ⟨.product a.expr b.expr, List.forall_mem_append.mpr ⟨a.placed, b.placed⟩⟩

theorem hom_expr : Arith.Hom (expr : Placed l n → Expr) where
  const _ := rfl
  add _ _ := rfl
  sub _ _ := rfl
  neg _ := rfl
  mul _ _ := rfl

def cell (l : Layout) {n : Nat} (i : Fin n) : Placed l n :=
  ⟨.cell (l.cell i), fun _ hc => ⟨i, i.isLt, List.mem_singleton.mp hc⟩⟩

theorem map_expr_cells :
    (Array.ofFn (cell l) : CellValues (Placed l n)).map expr = (Emitter.empty l n).cells := by
  rw [Array.map_ofFn]
  rfl

end Expr.Placed

namespace Instruction

def runs : Instruction → List CellSlice
  | constant target _ _ => [target]
  | copy source target => [source, target]
  | boolean cells | range _ cells => [cells]
  | select bit ifTrue ifFalse result => [bit.slice, ifTrue, ifFalse, result]
  | decompose value bits => [value.slice, bits.slice]
  | limbSum sum => sum.a :: sum.b.runs ++ sum.result.runs ++ [sum.carries.slice]
  | greaterThan value _ _ result => [value, result.slice]
  | fieldSum _ m | fieldDifference _ m | fieldProduct _ m =>
    [m.a.slice, m.b.slice, m.result.slice, m.carry.slice, m.low.slice, m.high.slice]
  | inverse _ a result _ => [a.slice, result.slice]
  | slope _ p q result => [p.x.slice, p.y.slice, q.x.slice, q.y.slice, result.slice]

variable {i : Instruction} {l : Layout} {n : Nat} {c : Circuit}

theorem eq_copy_of_link {V : Type} [Arith V] {vs : CellValues V} {as : List (Assertion V)} {a b : CellSlice}
    (h : i.assertions vs = .ok as) (hab : .link a b ∈ as) : i = .copy a b := by
  -- all other instructions look up the cells that they assert something of
  cases i with
  | copy source target =>
    cases h
    cases List.mem_singleton.mp hab
    rfl
  | constant target values assign =>
    obtain ⟨xs, -, h⟩ := bind_eq_ok_iff.mp h
    obtain ⟨pairs, -, h⟩ := bind_eq_ok_iff.mp h
    cases h
    simp at hab
  | boolean cells | range bits cells =>
    obtain ⟨xs, -, h⟩ := bind_eq_ok_iff.mp h
    cases h
    simp at hab
  | select bit ifTrue ifFalse result =>
    obtain ⟨x, -, h⟩ := bind_eq_ok_iff.mp h
    obtain ⟨ts, -, h⟩ := bind_eq_ok_iff.mp h
    obtain ⟨fs, -, h⟩ := bind_eq_ok_iff.mp h
    obtain ⟨rs, -, h⟩ := bind_eq_ok_iff.mp h
    cases h
    simp at hab
  | decompose value bits =>
    obtain ⟨x, -, h⟩ := bind_eq_ok_iff.mp h
    obtain ⟨xs, -, h⟩ := bind_eq_ok_iff.mp h
    cases h
    simp at hab
  | limbSum sum =>
    obtain ⟨xs, -, h⟩ := bind_eq_ok_iff.mp h
    obtain ⟨ys, -, h⟩ := bind_eq_ok_iff.mp h
    obtain ⟨rs, -, h⟩ := bind_eq_ok_iff.mp h
    obtain ⟨cs, -, h⟩ := bind_eq_ok_iff.mp h
    obtain ⟨-, h⟩ := of_unless h
    obtain ⟨base, -, h⟩ := bind_eq_ok_iff.mp h
    cases h
    simp at hab
  | fieldSum P m | fieldDifference P m | fieldProduct P m =>
    obtain ⟨xs, -, h⟩ := bind_eq_ok_iff.mp h
    obtain ⟨ys, -, h⟩ := bind_eq_ok_iff.mp h
    obtain ⟨rs, -, h⟩ := bind_eq_ok_iff.mp h
    obtain ⟨cs, -, h⟩ := bind_eq_ok_iff.mp h
    obtain ⟨modulus, -, h⟩ := bind_eq_ok_iff.mp h
    obtain ⟨low, -, h⟩ := bind_eq_ok_iff.mp h
    obtain ⟨high, -, h⟩ := bind_eq_ok_iff.mp h
    cases h
    simp at hab
  | greaterThan | inverse | slope =>
    cases h
    contradiction

theorem refers_circuit (hruns : ∀ s ∈ i.runs, s.stop ≤ n) (h : i.circuit l n = .ok c) {cell : Cell}
    (hcell : c.Refers cell) : ∃ j < n, cell = l.cell j := by
  obtain ⟨as, has, -, rfl⟩ := circuit_eq_ok_iff.mp h
  -- Assertions commute with maps of the operand's expressions: over placed cells, that carry their own
  -- index, each cell shows where it lies.
  have hmap := i.assertions_map Expr.Placed.hom_expr (Array.ofFn (Expr.Placed.cell l (n := n)))
  rw [Expr.Placed.map_expr_cells, has, eq_comm, map_eq_ok_iff] at hmap
  obtain ⟨placed, hplaced, rfl⟩ := hmap
  refine Circuit.forall_refers_ofAssertions (P := fun c => ∃ j < n, c = l.cell j) ?_ ?_ ?_ hcell
  · intro e he
    obtain ⟨a, -, ha⟩ := List.mem_map.mp he
    cases a with
    | vanishes v =>
      cases ha
      exact v.placed
    | lookup | link => contradiction
  · intro table es hes e he
    obtain ⟨a, -, ha⟩ := List.mem_map.mp hes
    cases a with
    | lookup table' vs =>
      cases ha
      obtain ⟨v, -, rfl⟩ := List.mem_map.mp he
      exact v.placed
    | vanishes | link => contradiction
  · intro a b hab j hj
    obtain rfl := eq_copy_of_link has hab
    refine ⟨j, ?_, rfl⟩
    rw [CellSlice.mem_indices, CellSlice.mem_indices] at hj
    have ha := hruns a (by simp [runs])
    have hb := hruns b (by simp [runs])
    omega

def Pins (i : Instruction) (j : Nat) : Prop :=
  ∀ l n c, i.circuit l n = .ok c → c.Refers (l.cell j)

theorem slice_cells_eq_ok_iff {s : CellSlice} {es : List Expr} :
    (Emitter.empty l n).cells.slice s = .ok es ↔
      s.stop ≤ n ∧ es = s.indices.map fun j => .cell (l.cell j) := by
  have hslice : (Emitter.empty l n).cells.slice s = _ :=
    CellValues.slice_ofFn (fun j => Expr.cell (l.cell j)) n s
  rw [hslice]
  split
  · next h =>
    rw [Except.ok.injEq, eq_comm]
    exact (and_iff_right h).symm
  · next h => simp [h]

theorem pins_boolean {s : CellSlice} {j : Nat} (hj : j ∈ s.indices) : (boolean s).Pins j := by
  intro l n c hc
  obtain ⟨as, has, -, rfl⟩ := circuit_eq_ok_iff.mp hc
  obtain ⟨es, hes, has⟩ := bind_eq_ok_iff.mp has
  obtain ⟨-, rfl⟩ := slice_cells_eq_ok_iff.mp hes
  cases has
  let e := Expr.cell (l.cell j)
  refine Circuit.refers_of_vanishes (e := .difference (.product e e) e) ?_ ?_
  · exact List.mem_map.mpr ⟨e, List.mem_map_of_mem hj, rfl⟩
  · exact List.mem_append_right _ (List.mem_singleton_self _)

theorem pins_range {s : CellSlice} {bits j : Nat} (hj : j ∈ s.indices) : (range bits s).Pins j := by
  intro l n c hc
  obtain ⟨as, has, -, rfl⟩ := circuit_eq_ok_iff.mp hc
  obtain ⟨es, hes, has⟩ := bind_eq_ok_iff.mp has
  obtain ⟨-, rfl⟩ := slice_cells_eq_ok_iff.mp hes
  cases has
  let e := Expr.cell (l.cell j)
  have hlookup : .lookup (.range bits) [e] ∈ (s.indices.map fun i => Expr.cell (l.cell i)).map fun v =>
      Assertion.lookup (.range bits) [v] := List.mem_map.mpr ⟨e, List.mem_map_of_mem hj, rfl⟩
  exact Circuit.refers_of_lookup hlookup (List.mem_singleton_self e) (List.mem_singleton_self _)

theorem pins_select {bit : Register .bit} {ifTrue ifFalse result : CellSlice} {j : Nat}
    (htrue : ifTrue.len = result.len) (hfalse : ifFalse.len = result.len) (hj : j ∈ result.indices) :
    (select bit ifTrue ifFalse result).Pins j := by
  intro l n c hc
  obtain ⟨as, has, -, rfl⟩ := circuit_eq_ok_iff.mp hc
  obtain ⟨v, -, has⟩ := bind_eq_ok_iff.mp has
  obtain ⟨ts, hts, has⟩ := bind_eq_ok_iff.mp has
  obtain ⟨fs, hfs, has⟩ := bind_eq_ok_iff.mp has
  obtain ⟨rs, hrs, has⟩ := bind_eq_ok_iff.mp has
  obtain ⟨-, rfl⟩ := slice_cells_eq_ok_iff.mp hts
  obtain ⟨-, rfl⟩ := slice_cells_eq_ok_iff.mp hfs
  obtain ⟨-, rfl⟩ := slice_cells_eq_ok_iff.mp hrs
  cases has
  obtain ⟨m, hm, rfl⟩ := List.getElem_of_mem hj
  have hlen := CellSlice.length_indices
  have ht : m < ifTrue.indices.length := by rw [hlen, htrue, ← hlen]; exact hm
  have hf : m < ifFalse.indices.length := by rw [hlen, hfalse, ← hlen]; exact hm
  refine Circuit.refers_of_vanishes (List.mem_map.mpr ⟨((.cell (l.cell ifTrue.indices[m]),
    .cell (l.cell ifFalse.indices[m])), .cell (l.cell result.indices[m])), ?_, rfl⟩) ?_
  · rw [List.mem_iff_getElem]
    refine ⟨m, ?_, ?_⟩
    · simp only [List.length_zip, List.length_map]
      omega
    · simp only [List.getElem_zip, List.getElem_map]
  · exact List.mem_append_left _ (List.mem_singleton_self _)

end Instruction

namespace Chip

def Contained (c : Chip) : Prop :=
  ∀ i ∈ c.instructions.toList, ∀ s ∈ i.runs, s.stop ≤ c.numCells

variable {c : Chip} {l : Layout} {circuit : Circuit}

section Emitted

variable (hwidth : c.manifest.required ≤ l.width) (hemit : c.emit l.width = .ok circuit)

include hwidth hemit

theorem refers_of_pins {i : Instruction} (hi : i ∈ c.instructions.toList) {j : Nat} (hpins : i.Pins j) :
    circuit.Refers (l.cell j) := by
  obtain ⟨cs, hcs, rfl⟩ := (emit_eq_ok_iff hwidth).mp hemit
  obtain ⟨c', hc', hi'⟩ := exists_of_mem_right hcs.flip hi
  exact Circuit.refers_concat_iff.mpr ⟨c', hc', hpins l _ c' hi'⟩

theorem exists_cell_of_refers (hruns : c.Contained) {cell : Cell} (h : circuit.Refers cell) :
    ∃ j < c.numCells, cell = l.cell j := by
  obtain ⟨cs, hcs, rfl⟩ := (emit_eq_ok_iff hwidth).mp hemit
  obtain ⟨c', hc', h⟩ := Circuit.refers_concat_iff.mp h
  obtain ⟨i, hi, hic⟩ := exists_of_mem_right hcs hc'
  exact Instruction.refers_circuit (hruns i hi) hic h

theorem rowsAmount_circuit_le (hruns : c.Contained) : circuit.rowsAmount ≤ l.rowsAmount c.numCells := by
  rw [Circuit.rowsAmount_le_iff]
  intro cell hcell
  obtain ⟨j, hj, rfl⟩ := exists_cell_of_refers hwidth hemit hruns hcell
  exact l.row_cell_lt hj

theorem rowsAmount_circuit_eq_iff (hruns : c.Contained) :
    circuit.rowsAmount = l.rowsAmount c.numCells ↔
      c.numCells = 0 ∨ ∃ cell, circuit.Refers cell ∧ cell.row + 1 = l.rowsAmount c.numCells := by
  have hle := rowsAmount_circuit_le hwidth hemit hruns
  constructor
  · intro h
    by_cases hzero : l.rowsAmount c.numCells = 0
    · have hnone := l.rowsAmount_le_iff.mp (Nat.le_of_eq hzero)
      exact .inl (by omega)
    · -- otherwise one row less would be enough for the circuit
      by_contra hlast
      rw [not_or, not_exists] at hlast
      have hless : circuit.rowsAmount ≤ l.rowsAmount c.numCells - 1 := by
        rw [Circuit.rowsAmount_le_iff]
        intro cell hcell
        have hrow := Nat.lt_of_lt_of_le (Circuit.row_lt_rowsAmount hcell) hle
        have hne : cell.row + 1 ≠ l.rowsAmount c.numCells := fun h => hlast.2 cell ⟨hcell, h⟩
        omega
      omega
  · rintro (hzero | ⟨cell, hcell, hrow⟩)
    · have hnone : l.rowsAmount c.numCells ≤ 0 := l.rowsAmount_le_iff.mpr (by omega)
      omega
    · have hlt := Circuit.row_lt_rowsAmount hcell
      omega

end Emitted

end Chip

end ForeignCurve
