import Mathlib.Order.Bounds.Defs
import ForeignCurve.Proofs.Allocation
import ForeignCurve.Proofs.Table

/-!
The widest register of a recording. A table of that width has every register in one row or in two, wherever
in the arena it starts, and the passes of the chip ask for no more.
-/

namespace ForeignCurve

namespace Layout

def SpansTwoRows (l : Layout) (s : CellSlice) : Prop :=
  ∃ row, ∀ j ∈ s.indices, (l.cell j).row = row ∨ (l.cell j).row = row + 1

theorem spansTwoRows_of_le {l : Layout} {s : CellSlice} (h : s.len ≤ l.width) : l.SpansTwoRows s := by
  refine ⟨s.start / l.width, fun j hj => ?_⟩
  obtain ⟨hstart, hstop⟩ := CellSlice.mem_indices.mp hj
  have hfirst : s.start / l.width ≤ j / l.width := Nat.div_le_div_right hstart
  -- wherever the run starts, it ends before the cell below its first one
  have hlast : j / l.width ≤ s.start / l.width + 1 :=
    calc
      j / l.width ≤ (s.start + l.width) / l.width :=
        Nat.div_le_div_right (Nat.le_of_lt (Nat.lt_of_lt_of_le hstop (Nat.add_le_add_left h _)))
      _ = s.start / l.width + 1 := Nat.add_div_right _ l.width_pos
  exact (Nat.eq_or_lt_of_le hfirst).imp Eq.symm fun hlt => Nat.le_antisymm hlast hlt

/-- The cells of an arena have positions of their own in the table, and no column of them wraps around. -/
structure Houses (l : Layout) (numCells : Nat) : Prop where
  injective : Function.Injective l.cell
  column_lt : ∀ i < numCells, (l.cell i).column < l.width
  row_lt : ∀ i < numCells, (l.cell i).row < l.rowsAmount numCells
  wrap : ∀ i < numCells, l.wrap (l.cell i).column (l.cell i).row = l.cell i

theorem houses (l : Layout) (numCells : Nat) : l.Houses numCells where
  injective _ _ := cell_inj.mp
  column_lt i _ := l.column_cell_lt i
  row_lt _ hi := l.row_cell_lt hi
  wrap i _ := wrap_of_lt _ (l.column_cell_lt i)

end Layout

namespace Manifest

variable {m n : Manifest} {w : Nat}

theorem check_eq_ok_iff : m.check w = .ok () ↔ m.required ≤ w := by
  unfold check
  split
  · next h => exact iff_of_true rfl h
  · next h => exact iff_of_false (fun h' => by contradiction) h

theorem check_of_lt (h : w < m.required) : m.check w = .error (.narrowTable w m.required) :=
  if_neg (Nat.not_le.mpr h)

theorem required_merge (m n : Manifest) : (m.merge n).required = max m.required n.required := by
  simp only [required, merge]
  omega

theorem isLeast_required_merge (m n : Manifest) :
    IsLeast {w | m.check w = .ok () ∧ n.check w = .ok ()} (m.merge n).required := by
  simp only [check_eq_ok_iff, ← Nat.max_le, ← required_merge]
  exact ⟨Nat.le_refl _, fun _ hw => hw⟩

end Manifest

namespace RegisterArray

variable {k : Kind} {a : RegisterArray k}

theorem flatMap_toList (h : a.length * k.size = a.slice.len) :
    a.toList.flatMap (·.slice.indices) = a.slice.indices := by
  have hfirst (n : Nat) : (List.range n).flatMap (fun i => List.range' (a.slice.start + i * k.size) k.size) =
      List.range' a.slice.start (n * k.size) := by
    induction n with
    | zero =>
      rw [Nat.zero_mul]
      rfl
    | succ n ih =>
      rw [List.range_succ, List.flatMap_append, ih, List.flatMap_singleton, List.range'_append_1,
        Nat.succ_mul]
  unfold toList CellSlice.indices
  rw [List.flatMap_map, ← h]
  exact hfirst a.length

theorem forall_toList_le_iff {w : Nat} :
    (∀ r ∈ a.toList, r.slice.len ≤ w) ↔ (0 < a.length → k.size ≤ w) := by
  unfold toList
  rw [List.forall_mem_map]
  dsimp only [Register.slice]
  constructor
  · intro h hpos
    exact h 0 (List.mem_range.mpr hpos)
  · intro h i hi
    exact h (Nat.zero_lt_of_lt (List.mem_range.mp hi))

end RegisterArray

namespace Record

variable {k : Kind} {b b' : Builder} {w : Nat}

theorem manifest_of_requireHeadroom {P : FieldParams} (hrun : (requireHeadroom P).run b = .ok ((), b')) :
    b'.manifest = b.manifest := by
  cases hrun
  dsimp only
  split
  · rfl
  · rfl

theorem manifest_of_allocCells {size : Nat} {rule : CellRule} {s : CellSlice}
    (hrun : (allocCells size rule).run b = .ok (s, b')) : b'.manifest = b.manifest := by
  obtain ⟨_, _, hget, hrun⟩ := run_bind_eq_ok_iff.mp hrun
  obtain ⟨_, _, hmodify, hrun⟩ := run_bind_eq_ok_iff.mp hrun
  cases hget
  cases hmodify
  split at hrun
  · cases hrun
    rfl
  · obtain ⟨_, _, happend, hrun⟩ := run_bind_eq_ok_iff.mp hrun
    cases happend
    cases hrun
    rfl

theorem manifest_of_alloc {r : Register k} (hrun : (alloc k).run b = .ok (r, b')) :
    b'.manifest = b.manifest.merge ⟨k.size⟩ := by
  obtain ⟨_, _, hwidth, hrest⟩ := run_bind_eq_ok_iff.mp hrun
  cases hwidth
  obtain ⟨_, _, hcells, hpure⟩ := run_bind_eq_ok_iff.mp hrest
  cases hpure
  exact manifest_of_allocCells hcells

theorem manifest_of_allocArray {length : Nat} {rs : RegisterArray k}
    (hrun : (allocArray k length).run b = .ok (rs, b')) :
    b'.manifest = if 0 < length then b.manifest.merge ⟨k.size⟩ else b.manifest := by
  have hcells {b : Builder} (h : (do
      let s ← allocCells (k.size * length) k.rule
      RegisterArray.ofSlice k s : Record (RegisterArray k)).run b = .ok (rs, b')) :
      b'.manifest = b.manifest := by
    obtain ⟨_, _, hcells, hslice⟩ := run_bind_eq_ok_iff.mp h
    obtain ⟨-, rfl⟩ := run_lift_eq_ok_iff.mp hslice
    exact manifest_of_allocCells hcells
  unfold allocArray at hrun
  split at hrun
  · next hpos =>
    obtain ⟨_, _, hwidth, hrest⟩ := run_bind_eq_ok_iff.mp hrun
    cases hwidth
    rw [hcells hrest, if_pos hpos]
  · next hpos => rw [hcells hrun, if_neg hpos]

theorem minWidth_le_iff_of_alloc {r : Register k} (hrun : (alloc k).run b = .ok (r, b')) :
    b'.manifest.minWidth ≤ w ↔ b.manifest.minWidth ≤ w ∧ r.slice.len ≤ w := by
  rw [manifest_of_alloc hrun]
  exact Nat.max_le

theorem minWidth_le_iff_of_allocArray {length : Nat} {rs : RegisterArray k}
    (hrun : (allocArray k length).run b = .ok (rs, b')) :
    b'.manifest.minWidth ≤ w ↔ b.manifest.minWidth ≤ w ∧ ∀ r ∈ rs.toList, r.slice.len ≤ w := by
  have hk : k.size ≠ 0 := Needs.needs hrun
  have hmanifest := manifest_of_allocArray hrun
  obtain ⟨rfl, -⟩ := (AddsAt.allocCellArray b.numCells hk length).of_run hrun
  rw [hmanifest, RegisterArray.forall_toList_le_iff]
  dsimp only
  split
  · next hpos =>
    rw [forall_prop_of_true hpos]
    exact Nat.max_le
  · next hpos => rw [forall_prop_of_false hpos, and_true]

end Record

namespace Allocation

def registers (a : Allocation) : List (Register a.kind) :=
  RegisterArray.toList ⟨a.slice, a.slice.len / a.kind.size⟩

theorem flatMap_registers {a : Allocation} (h : a.kind.size ∣ a.slice.len) :
    a.registers.flatMap (·.slice.indices) = a.slice.indices :=
  RegisterArray.flatMap_toList (Nat.div_mul_cancel h)

variable {k : Kind}

theorem registers_of_register (hk : k.size ≠ 0) (r : Register k) : registers ⟨k, r.slice⟩ = [r] := by
  unfold registers RegisterArray.toList
  dsimp only [Register.slice]
  rw [Nat.div_self (Nat.pos_of_ne_zero hk)]
  simp

theorem registers_of_array (hk : k.size ≠ 0) (start length : Nat) :
    registers ⟨k, ⟨start, k.size * length⟩⟩ =
      RegisterArray.toList (k := k) ⟨⟨start, k.size * length⟩, length⟩ := by
  unfold registers
  dsimp only
  rw [Nat.mul_div_cancel_left length (Nat.pos_of_ne_zero hk)]

end Allocation

structure Builder.Measures (b : Builder) (log : List Allocation) : Prop where
  size_dvd : ∀ a ∈ log, a.kind.size ∣ a.slice.len
  minWidth_le_iff : ∀ w, b.manifest.minWidth ≤ w ↔ ∀ a ∈ log, ∀ r ∈ a.registers, r.slice.len ≤ w

namespace Builder.Measures

variable {b b' : Builder} {log log' : List Allocation}

theorem empty : Builder.empty.Measures [] :=
  ⟨fun a ha => by contradiction, fun w => iff_of_true (Nat.zero_le w) fun a ha => by contradiction⟩

theorem snoc (h : b.Measures log) {a : Allocation} (hdvd : a.kind.size ∣ a.slice.len)
    (hwidth : ∀ w, b'.manifest.minWidth ≤ w ↔
      b.manifest.minWidth ≤ w ∧ ∀ r ∈ a.registers, r.slice.len ≤ w) : b'.Measures (log ++ [a]) where
  size_dvd := by
    rw [List.forall_mem_append, List.forall_mem_singleton]
    exact ⟨h.size_dvd, hdvd⟩
  minWidth_le_iff w := by
    rw [hwidth, h.minWidth_le_iff, List.forall_mem_append, List.forall_mem_singleton]

theorem of_manifest_eq (h : b.Measures log) (hmanifest : b'.manifest = b.manifest) : b'.Measures log :=
  ⟨h.size_dvd, fun w => hmanifest ▸ h.minWidth_le_iff w⟩

theorem extend {α : Type} {g : Record α} {a : α} (hg : g.Allocates b log' a b') (h : b.Measures log) :
    b'.Measures (log ++ log') := by
  induction hg generalizing log with
  | pure a b | lift a b => rwa [List.append_nil]
  | bind hg hf ihg ihf =>
    rw [← List.append_assoc]
    exact ihf (ihg h)
  | requireHeadroom hrun =>
    rw [List.append_nil]
    exact h.of_manifest_eq (Record.manifest_of_requireHeadroom hrun)
  | append hi hrun =>
    cases hrun
    rw [List.append_nil]
    exact h.of_manifest_eq rfl
  | @alloc k b b' r hrun =>
    refine h.snoc (Nat.dvd_refl k.size) fun w => ?_
    rw [Record.minWidth_le_iff_of_alloc hrun]
    refine and_congr_right fun _ => ?_
    by_cases hk : k.size = 0
    · -- a register without cells is no wider than any table
      exact iff_of_true (hk.le.trans (Nat.zero_le w)) fun r hr => hk.le.trans (Nat.zero_le w)
    · rw [Allocation.registers_of_register hk, List.forall_mem_singleton]
  | @allocArray k length b b' rs hrun =>
    have hk : k.size ≠ 0 := Needs.needs hrun
    have hwidth (w : Nat) := Record.minWidth_le_iff_of_allocArray (w := w) hrun
    obtain ⟨rfl, -⟩ := (Record.AddsAt.allocCellArray b.numCells hk length).of_run hrun
    refine h.snoc (Nat.dvd_mul_right k.size length) fun w => ?_
    rw [hwidth, Allocation.registers_of_array hk]

theorem spansTwoRows (h : b.Measures log) {l : Layout} (hl : b.manifest.minWidth ≤ l.width) :
    ∀ a ∈ log, ∀ r ∈ a.registers, l.SpansTwoRows r.slice :=
  fun a ha r hr => Layout.spansTwoRows_of_le ((h.minWidth_le_iff l.width).mp hl a ha r hr)

end Builder.Measures

namespace Chip

structure Refuses (c : Chip) (width : Nat) : Prop where
  newTrace : c.newTrace width = .error (.narrowTable width c.manifest.required)
  emit : c.emit width = .error (.fault (.narrowTable width c.manifest.required))

theorem refuses_of_lt {c : Chip} {w : Nat} (h : w < c.manifest.required) : c.Refuses w := by
  have hlayout : c.layout w = .error (.narrowTable w c.manifest.required) := by
    unfold layout
    rw [Manifest.check_of_lt h]
    rfl
  constructor
  · unfold Chip.newTrace
    rw [hlayout]
    rfl
  · unfold Chip.emit
    rw [hlayout]
    rfl

/--
The manifest of a recording is as wide as the widest register that its calls, and the gadgets that they
record, hand out. In a table of that width all cells have positions of their own and every register is in
one row or in two, wherever it starts; on one that is less wide, neither pass starts. Merged manifests ask
for the least width that is enough for both.
-/
theorem manifest_bounds_rows {calls : List Call} {answers : List (List CellSlice)} {b : Builder}
    (hrun : (calls.mapM Call.run).run .empty = .ok (answers, b)) :
    ((∃ log, (calls.mapM Call.run).Allocates .empty log answers b) ∧
      ∀ log, (calls.mapM Call.run).Allocates .empty log answers b →
        (log.flatMap fun a => a.registers.flatMap (·.slice.indices)) = List.range b.numCells ∧
          (∀ w, b.manifest.minWidth ≤ w ↔ ∀ a ∈ log, ∀ r ∈ a.registers, r.slice.len ≤ w) ∧
          ∀ l : Layout, b.manifest.minWidth ≤ l.width →
            l.Houses b.numCells ∧ ∀ a ∈ log, ∀ r ∈ a.registers, l.SpansTwoRows r.slice) ∧
      (∀ c, b.build = .ok c → c.numCells = b.numCells ∧ c.manifest = b.manifest ∧
        ∀ w, (w < c.manifest.required → c.Refuses w) ∧
          (c.manifest.required ≤ w → ∃ t, c.newTrace w = .ok t)) ∧
      ∀ m n : Manifest,
        IsLeast {w | m.check w = .ok () ∧ n.check w = .ok ()} (m.merge n).required := by
  refine ⟨⟨Call.exists_allocates hrun, fun log hlog => ?_⟩, fun c hbuild => ?_, Manifest.isLeast_required_merge⟩
  · have hall : b.Allocated log := Builder.Allocated.empty.extend hlog
    have hmeasures : b.Measures log := Builder.Measures.empty.extend hlog
    refine ⟨?_, hmeasures.minWidth_le_iff, fun l hl => ⟨l.houses _, hmeasures.spansTwoRows hl⟩⟩
    rw [← hall.cells]
    exact List.flatMap_congr fun a ha => Allocation.flatMap_registers (hmeasures.size_dvd a ha)
  · obtain ⟨-, rfl⟩ := Builder.build_eq_ok_iff.mp hbuild
    refine ⟨rfl, rfl, fun w => ⟨refuses_of_lt, fun hw => ?_⟩⟩
    have hpos : 0 < w := Nat.lt_of_lt_of_le (Nat.le_max_right _ _) hw
    exact ⟨_, newTrace_eq_ok (l := ⟨w, hpos⟩) _ hw⟩

def unaligned : List Call :=
  [.alloc .bit, .allocArray (.field ⟨4, 2, 2, 32, 251⟩) 2, .allocArray (.field ⟨4, 5, 8, 80, 251⟩) 0]

def unalignedChip : Chip where
  instructions := #[.boolean ⟨0, 1⟩, .range 4 ⟨1, 4⟩]
  numCells := 5
  manifest := ⟨2⟩

theorem manifest_bounds_rows_unaligned :
    ∃ answers b log, (unaligned.mapM Call.run).run .empty = .ok (answers, b) ∧
      (unaligned.mapM Call.run).Allocates .empty log answers b ∧
      (log.flatMap fun a => a.registers.flatMap (·.slice.indices)) = [0, 1, 2, 3, 4] ∧
      (∀ a ∈ log, ∀ r ∈ a.registers, Layout.SpansTwoRows ⟨2, Nat.two_pos⟩ r.slice) ∧
      b.build = .ok unalignedChip ∧ unalignedChip.Refuses 1 := by
  have hrun : (unaligned.mapM Call.run).run .empty = .ok ([[⟨0, 1⟩], [⟨1, 4⟩], [⟨5, 0⟩]],
      ⟨5, ⟨2⟩, unalignedChip.instructions, none⟩) := rfl
  have hbuild : Builder.build ⟨5, ⟨2⟩, unalignedChip.instructions, none⟩ = .ok unalignedChip := rfl
  obtain ⟨⟨⟨log, hlog⟩, hall⟩, hchip, -⟩ := manifest_bounds_rows hrun
  obtain ⟨hcells, -, hrows⟩ := hall log hlog
  obtain ⟨-, -, hwidths⟩ := hchip unalignedChip hbuild
  obtain ⟨-, hspans⟩ := hrows ⟨2, Nat.two_pos⟩ (Nat.le_refl 2)
  have hrefuses : unalignedChip.Refuses 1 := (hwidths 1).1 (by decide)
  exact ⟨_, _, log, hrun, hlog, hcells, hspans, hbuild, hrefuses⟩

end Chip

end ForeignCurve
