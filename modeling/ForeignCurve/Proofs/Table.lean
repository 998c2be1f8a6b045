import Mathlib.Data.List.Nodup
import ForeignCurve.Table

/-!
Histories of a witness table. After any sequence of writes the table is the partial map of those that
succeeded, by the positions that they wrap to; the others have changed nothing.
-/

namespace ForeignCurve

theorem Layout.cell_inj {l : Layout} {i j : Nat} : l.cell i = l.cell j ↔ i = j := by
  constructor
  · intro h
    rw [← l.index_cell i, h, l.index_cell]
  · rintro rfl
    rfl

variable {α : Type}

structure Writing (α : Type) where
  column : Nat
  row : Nat
  value : α

def Writing.cell (l : Layout) (w : Writing α) : Cell :=
  l.wrap w.column w.row

namespace Table

variable {t t' : Table α} {cell : Cell} {x y : α}

theorem numRows_mul_width (t : Table α) : t.numRows * t.layout.width = t.cells.size :=
  Nat.div_mul_cancel t.width_dvd

theorem get?_of_lt (h : cell.column < t.layout.width) :
    t.get? cell = t.cells[t.layout.index cell]?.join :=
  if_pos h

theorem column_lt_of_get? (h : t.get? cell = some x) : cell.column < t.layout.width := by
  by_contra hcolumn
  rw [get?, if_neg hcolumn] at h
  contradiction

theorem row_lt_of_get? (h : t.get? cell = some x) : cell.row < t.numRows := by
  have hcolumn := column_lt_of_get? h
  rw [get?_of_lt hcolumn] at h
  have hindex : t.layout.index cell < t.numRows * t.layout.width := by
    rw [numRows_mul_width]
    by_contra hsize
    rw [Array.getElem?_eq_none (Nat.le_of_not_lt hsize)] at h
    contradiction
  rw [← t.layout.row_cell_lt_iff, Layout.cell_index hcolumn] at hindex
  exact hindex

section Rows

theorem ensureRows_of_le {rows : Nat} (h : rows ≤ t.numRows) : t.ensureRows rows = t := by
  have hsize := Nat.mul_le_mul_right t.layout.width h
  rw [numRows_mul_width] at hsize
  exact dif_neg (Nat.not_lt.mpr hsize)

theorem numRows_ensureRows (t : Table α) (rows : Nat) : (t.ensureRows rows).numRows = max t.numRows rows := by
  have hmul := numRows_mul_width (t.ensureRows rows)
  rw [layout_ensureRows] at hmul
  apply Nat.eq_of_mul_eq_mul_right t.layout.width_pos
  rw [hmul, ← Nat.mul_max_mul_right, numRows_mul_width]
  unfold ensureRows
  split
  · simp only [Array.size_append, Array.size_replicate]
    omega
  · omega

theorem numAssigned_ensureRows (t : Table α) (rows : Nat) :
    (t.ensureRows rows).numAssigned = t.numAssigned := by
  unfold ensureRows numAssigned
  split
  · simp [Array.countP_append, Array.countP_replicate]
  · rfl

end Rows

structure Wrote (t : Table α) (cell : Cell) (x : α) (t' : Table α) : Prop where
  layout : t'.layout = t.layout
  get? : ∀ c, t'.get? c = if c = cell then some x else t.get? c
  numAssigned : t'.numAssigned = t.numAssigned + 1
  numRows : t'.numRows = max t.numRows (cell.row + 1)

theorem wrote_set (hcolumn : cell.column < t.layout.width) (hrow : cell.row < t.numRows)
    (hnone : t.get? cell = none) (x : α) :
    t.Wrote cell x (t.set (t.layout.index cell) (some x)) := by
  have hindex := Layout.index_lt hcolumn hrow
  rw [numRows_mul_width] at hindex
  refine ⟨rfl, fun c => ?_, ?_, ?_⟩
  · unfold get? set
    dsimp only
    by_cases hc : c.column < t.layout.width
    · rw [if_pos hc, if_pos hc]
      by_cases heq : c = cell
      · subst heq
        rw [Array.getElem?_setIfInBounds_self, if_pos hindex, if_pos rfl]
        rfl
      · have hne : t.layout.index cell ≠ t.layout.index c := by
          intro h
          -- Within the width, the index determines the cell.
          apply heq
          rw [← Layout.cell_index hc, ← h, Layout.cell_index hcolumn]
        rw [Array.getElem?_setIfInBounds_ne hne, if_neg heq]
    · rw [if_neg hc, if_neg hc, if_neg]
      rintro rfl
      exact hc hcolumn
  · rw [get?_of_lt hcolumn, Array.getElem?_eq_getElem hindex] at hnone
    change t.cells[t.layout.index cell] = none at hnone
    unfold numAssigned set
    dsimp only
    rw [Array.setIfInBounds, dif_pos hindex, Array.countP_set, hnone]
    simp
  · rw [Nat.max_eq_left hrow]
    unfold numRows set
    dsimp only
    rw [Array.size_setIfInBounds]

section Write

variable {column row : Nat}

theorem write_of_assigned (h : t.get? (t.layout.wrap column row) = some x) (y : α) :
    write column row y t = .error (.alreadyAssigned (t.layout.wrap column row)) t := by
  have hcell := h
  rw [get?_of_lt (column_lt_of_get? h)] at hcell
  simp only [write, ensureRows_of_le (row_lt_of_get? h), hcell]
  rfl

theorem write_of_unassigned (h : t.get? (t.layout.wrap column row) = none) (x : α) :
    ∃ t', write column row x t = .ok () t' ∧ t.Wrote (t.layout.wrap column row) x t' := by
  have hcolumn := t.layout.column_wrap_lt column row
  generalize hcell : t.layout.wrap column row = cell at h hcolumn ⊢
  have hwrite : write column row x t =
      .ok () ((t.ensureRows (cell.row + 1)).set (t.layout.index cell) (some x)) := by
    rw [get?_of_lt hcolumn] at h
    simp only [write, hcell, join_getElem?_ensureRows, h]
    rfl
  have hlayout := layout_ensureRows t (cell.row + 1)
  have hset : (t.ensureRows (cell.row + 1)).Wrote cell x
      ((t.ensureRows (cell.row + 1)).set (t.layout.index cell) (some x)) := by
    rw [← hlayout] at hcolumn ⊢
    refine wrote_set hcolumn ?_ (by rw [get?_ensureRows, h]) x
    rw [numRows_ensureRows]
    exact Nat.lt_of_lt_of_le (Nat.lt_succ_self _) (Nat.le_max_right _ _)
  refine ⟨_, hwrite, hset.layout.trans hlayout, fun c => ?_, ?_, ?_⟩
  · rw [hset.get?, get?_ensureRows]
  · rw [hset.numAssigned, numAssigned_ensureRows]
  · rw [hset.numRows, numRows_ensureRows, Nat.max_assoc, Nat.max_self]

end Write

section History

def writeAll : List (Writing α) → Table α → List (Writing α) × Table α
  | [], t => ([], t)
  | w :: ws, t =>
    match write w.column w.row w.value t with
    | .ok () t =>
      let (done, t) := writeAll ws t
      (w :: done, t)
    | .error _ t => writeAll ws t

/-- A table is what successful calls have made of a new one. -/
structure Logs (l : Layout) (done : List (Writing α)) (t : Table α) : Prop where
  layout : t.layout = l
  nodup : (done.map (Writing.cell l)).Nodup
  get?_eq_some_iff : ∀ c x, t.get? c = some x ↔ ∃ d ∈ done, d.cell l = c ∧ d.value = x
  numAssigned : t.numAssigned = done.length
  numRows : t.numRows = (done.map fun d => (d.cell l).row + 1).foldl max 0

namespace Logs

variable {l : Layout} {done : List (Writing α)}

protected theorem empty (l : Layout) : Logs l [] (empty l : Table α) where
  layout := rfl
  nodup := List.nodup_nil
  get?_eq_some_iff c x := by simp
  numAssigned := rfl
  numRows := Nat.zero_div _

theorem get?_eq_none_iff (h : Logs l done t) {c : Cell} :
    t.get? c = none ↔ ∀ d ∈ done, d.cell l ≠ c := by
  rw [Option.eq_none_iff_forall_ne_some]
  constructor
  · intro hnone d hd hcell
    exact hnone d.value ((h.get?_eq_some_iff c d.value).mpr ⟨d, hd, hcell, rfl⟩)
  · intro hne x hx
    obtain ⟨d, hd, hcell, -⟩ := (h.get?_eq_some_iff c x).mp hx
    exact hne d hd hcell

theorem wrote (h : Logs l done t) {w : Writing α} (hw : ∀ d ∈ done, d.cell l ≠ w.cell l)
    (ht : t.Wrote (w.cell l) w.value t') : Logs l (done ++ [w]) t' where
  layout := ht.layout.trans h.layout
  nodup := by
    rw [List.map_append, List.map_singleton, List.nodup_append]
    refine ⟨h.nodup, List.nodup_singleton _, ?_⟩
    rintro c hc _ hc'
    obtain ⟨d, hd, rfl⟩ := List.mem_map.mp hc
    rw [List.mem_singleton.mp hc']
    exact hw d hd
  get?_eq_some_iff c x := by
    rw [ht.get?]
    simp only [List.mem_append, List.mem_singleton, or_and_right, exists_or, exists_eq_left]
    rw [← h.get?_eq_some_iff]
    split
    · next hc =>
      subst hc
      simp [h.get?_eq_none_iff.mpr hw]
    · next hc => simp [Ne.symm hc]
  numAssigned := by
    rw [ht.numAssigned, h.numAssigned, List.length_append, List.length_singleton]
  numRows := by
    rw [ht.numRows, h.numRows, List.map_append, List.foldl_append]
    rfl

theorem write (h : Logs l done t) (w : Writing α) :
    (∃ d ∈ done, d.cell l = w.cell l) ∧
        Table.write w.column w.row w.value t = .error (.alreadyAssigned (w.cell l)) t ∨
      (∀ d ∈ done, d.cell l ≠ w.cell l) ∧
        ∃ t', Table.write w.column w.row w.value t = .ok () t' ∧ Logs l (done ++ [w]) t' := by
  have hcell : t.layout.wrap w.column w.row = w.cell l := by
    rw [h.layout]
    rfl
  cases hget : t.get? (w.cell l) with
  | some x =>
    obtain ⟨d, hd, hsame, -⟩ := (h.get?_eq_some_iff _ x).mp hget
    rw [← hcell] at hget
    have hwrite := write_of_assigned hget w.value
    rw [hcell] at hwrite
    exact .inl ⟨⟨d, hd, hsame⟩, hwrite⟩
  | none =>
    have hne := h.get?_eq_none_iff.mp hget
    rw [← hcell] at hget
    obtain ⟨t', hwrite, hwrote⟩ := write_of_unassigned hget w.value
    rw [hcell] at hwrote
    exact .inr ⟨hne, t', hwrite, h.wrote hne hwrote⟩

theorem writeAll (h : Logs l done t) (ws : List (Writing α)) :
    Logs l (done ++ (t.writeAll ws).1) (t.writeAll ws).2 := by
  induction ws generalizing done t with
  | nil =>
    unfold Table.writeAll
    rwa [List.append_nil]
  | cons w ws ih =>
    unfold Table.writeAll
    obtain ⟨-, hwrite⟩ | ⟨-, t', hwrite, ht'⟩ := h.write w
    · rw [hwrite]
      exact ih h
    · rw [hwrite]
      have hrest := ih ht'
      rw [List.append_assoc] at hrest
      exact hrest

end Logs

end History

section Rows

theorem rows_eq (t : Table α) :
    t.rows = (List.range t.numRows).map fun row =>
      (List.range t.layout.width).map fun column => t.get? ⟨column, row⟩ := by
  refine List.map_congr_left fun row hrow => ?_
  have hsize := Nat.mul_le_mul_right t.layout.width (List.mem_range.mp hrow)
  rw [numRows_mul_width, Nat.succ_mul] at hsize
  rw [Nat.succ_mul]
  apply List.ext_getElem
  · simp only [Array.length_toList, Array.size_extract, List.length_map, List.length_range]
    omega
  · intro column hcolumn hwidth
    rw [List.length_map, List.length_range] at hwidth
    have hindex : row * t.layout.width + column < t.cells.size :=
      Nat.lt_of_lt_of_le (Nat.add_lt_add_left hwidth _) hsize
    rw [List.getElem_map, List.getElem_range, get?_of_lt hwidth, Array.getElem_toList, Array.getElem_extract]
    change _ = t.cells[row * t.layout.width + column]?.join
    rw [Array.getElem?_eq_getElem hindex]
    rfl

end Rows

section WriteOnce

variable {l : Layout} {done : List (Writing α)}

theorem Logs.get?_eq_find? (h : Logs l done t) (c : Cell) :
    t.get? c = (done.find? (·.cell l = c)).map Writing.value := by
  cases hfind : done.find? (·.cell l = c) with
  | none =>
    refine h.get?_eq_none_iff.mpr fun d hd => ?_
    simpa using List.find?_eq_none.mp hfind d hd
  | some d =>
    have hcell := List.find?_some hfind
    exact (h.get?_eq_some_iff c _).mpr ⟨d, List.mem_of_find?_eq_some hfind, of_decide_eq_true hcell, rfl⟩

theorem Logs.read_eq_find? (h : Logs l done t) (column row : Nat) :
    t.read column row =
      match done.find? (·.cell l = l.wrap column row) with
      | some d => .ok d.value
      | none => .error (.notAssigned (l.wrap column row)) := by
  unfold read
  dsimp only
  rw [h.layout, h.get?_eq_find?]
  cases done.find? (·.cell l = l.wrap column row) <;> rfl

theorem get?_eq_read (t : Table α) (c : Cell) :
    t.get? c = if c.column < t.layout.width then (t.read c.column c.row).toOption else none := by
  split
  · next hcolumn =>
    unfold read
    dsimp only
    rw [Layout.wrap_of_lt c.row hcolumn]
    cases t.get? c <;> rfl
  · next hcolumn => exact if_neg hcolumn

/--
A table is an exact write-once partial map with wraparound: after any sequence of calls it is told by
those of them that succeeded, no two of which have the same position.
-/
theorem writeOnce (l : Layout) (ws : List (Writing α)) :
    ∃ done t, (empty l).writeAll ws = (done, t) ∧
      (done.map (Writing.cell l)).Nodup ∧
      (∀ w : Writing α, if ∃ d ∈ done, d.cell l = w.cell l then
          write w.column w.row w.value t = .error (.alreadyAssigned (w.cell l)) t
        else
          ∃ t', write w.column w.row w.value t = .ok () t') ∧
      (∀ column row, t.read column row =
        match done.find? (·.cell l = l.wrap column row) with
        | some d => .ok d.value
        | none => .error (.notAssigned (l.wrap column row))) ∧
      (∀ c, t.get? c = if c.column < l.width then (t.read c.column c.row).toOption else none) ∧
      t.numAssigned = done.length ∧
      t.numRows = (done.map fun d => (d.cell l).row + 1).foldl max 0 ∧
      t.rows = (List.range t.numRows).map fun row => (List.range l.width).map fun column =>
        t.get? ⟨column, row⟩ := by
  have h : Logs l _ ((empty l).writeAll ws).2 := (Logs.empty l).writeAll ws
  rw [List.nil_append] at h
  refine ⟨_, _, rfl, h.nodup, fun w => ?_, h.read_eq_find?, fun c => ?_, h.numAssigned, h.numRows, ?_⟩
  · obtain ⟨hsame, hwrite⟩ | ⟨hne, t', hwrite, -⟩ := h.write w
    · rwa [if_pos hsame]
    · rw [if_neg]
      · exact ⟨t', hwrite⟩
      · rintro ⟨d, hd, hsame⟩
        exact hne d hd hsame
  · have hget := get?_eq_read ((empty l).writeAll ws).2 c
    rwa [h.layout] at hget
  · have hrows := rows_eq ((empty l).writeAll ws).2
    rwa [h.layout] at hrows

end WriteOnce

end Table

end ForeignCurve
