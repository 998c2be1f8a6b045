import ForeignCurve.Instruction.Plan
import ForeignCurve.Proofs.Circuit.Acceptance
import ForeignCurve.Proofs.Table

namespace ForeignCurve

namespace Table

variable {t : Table Native}

theorem store_eq (t : Table Native) (i : Nat) : t.store t.layout i = t.cells[i]?.join := by
  unfold store get?
  rw [if_pos (Layout.column_cell_lt t.layout i), Layout.index_cell]

theorem wrap_cell (t : Table Native) (i : Nat) :
    t.layout.wrap (t.layout.cell i).column (t.layout.cell i).row = t.layout.cell i :=
  Layout.wrap_of_lt _ (Layout.column_cell_lt t.layout i)

theorem write_eq_ok {i : Nat} (h : t.store t.layout i = none) (x : Native) :
    ∃ t', write (t.layout.cell i).column (t.layout.cell i).row x t = .ok () t' ∧
      t'.layout = t.layout ∧
      ∀ j, t'.store t'.layout j = if j = i then some x else t.store t.layout j := by
  change t.get? (t.layout.cell i) = none at h
  rw [← wrap_cell t i] at h
  obtain ⟨t', hwrite, hwrote⟩ := write_of_unassigned h x
  refine ⟨t', hwrite, hwrote.layout, fun j => ?_⟩
  unfold store
  rw [hwrote.layout, hwrote.get?, wrap_cell]
  exact if_congr Layout.cell_inj rfl rfl

theorem write_assigned {i : Nat} {x : Native} (h : t.get? (t.layout.cell i) = some x) (y : Native) :
    write (t.layout.cell i).column (t.layout.cell i).row y t = .error (.alreadyAssigned (t.layout.cell i)) t := by
  rw [← wrap_cell t i] at h
  rw [write_of_assigned h, wrap_cell]

theorem read_eq_ok_iff {column row : Nat} {x : Native} :
    t.read column row = .ok x ↔ t.get? (t.layout.wrap column row) = some x := by
  unfold read
  cases hget : t.get? (t.layout.wrap column row) with
  | none => simp [hget]
  | some y => simp [hget]

end Table

namespace Store

def fill (σ : Store) (i : Nat) (xs : List Native) : Store := fun j =>
  if i ≤ j ∧ j < i + xs.length then xs[j - i]? else σ j

def Fresh (σ : Store) (i k : Nat) : Prop :=
  ∀ j, i ≤ j → j < k → σ j = none

variable {σ : Store} {i j : Nat} {xs ys : List Native}

theorem fill_nil (σ : Store) (i : Nat) : σ.fill i [] = σ := by
  funext j
  exact if_neg (by simp)

theorem fill_of_lt (h : j < i) : σ.fill i xs j = σ j :=
  if_neg (by omega)

theorem fill_of_le (h : i + xs.length ≤ j) : σ.fill i xs j = σ j :=
  if_neg (by omega)

theorem fill_getElem {k : Nat} (hk : k < xs.length) : σ.fill i xs (i + k) = some xs[k] := by
  unfold fill
  rw [if_pos (by omega), Nat.add_sub_cancel_left, List.getElem?_eq_getElem hk]

theorem fill_singleton (σ : Store) (i : Nat) (x : Native) :
    σ.fill i [x] = fun j => if j = i then some x else σ j := by
  funext j
  unfold fill
  by_cases hj : j = i
  · subst hj
    simp
  · rw [if_neg hj, if_neg]
    rw [List.length_singleton]
    omega

theorem fill_fill (σ : Store) (i : Nat) (xs ys : List Native) :
    (σ.fill i xs).fill (i + xs.length) ys = σ.fill i (xs ++ ys) := by
  funext j
  unfold fill
  rw [List.length_append]
  by_cases hlow : j < i + xs.length
  · rw [if_neg (by omega)]
    by_cases hi : i ≤ j
    · rw [if_pos (by omega), if_pos (by omega), List.getElem?_append_left (by omega)]
    · rw [if_neg (by omega), if_neg (by omega)]
  · by_cases hhigh : j < i + (xs.length + ys.length)
    · rw [if_pos (by omega), if_pos (by omega), List.getElem?_append_right (by omega)]
      congr 1
      omega
    · rw [if_neg (by omega), if_neg (by omega), if_neg (by omega)]

theorem le_fill (h : σ.Fresh i (i + xs.length)) : σ ≤ σ.fill i xs := by
  intro j x hx
  unfold fill
  split
  · next hj =>
    rw [h j hj.1 hj.2] at hx
    contradiction
  · exact hx

theorem reads_fill {n : Nat} (h : i + xs.length ≤ n) :
    (σ.fill i xs).Reads n ⟨i, xs.length⟩ xs :=
  reads_of_getElem h rfl fun _ hk => fill_getElem hk

end Store

namespace Trace

def store (t : Trace) : Store :=
  t.table.store t.layout

structure Extends (t t' : Trace) : Prop where
  layout : t'.layout = t.layout
  numCells : t'.numCells = t.numCells
  store : t.store ≤ t'.store

structure Filled (t : Trace) (i : Nat) (xs : List Native) (t' : Trace) : Prop where
  layout : t'.layout = t.layout
  numCells : t'.numCells = t.numCells
  store : t'.store = t.store.fill i xs

section Reading

variable {t : Trace} {s : CellSlice} {xs : List Native} {P : FieldParams}

theorem readCell_eq_ok_iff {i : Nat} {x : Native} :
    t.readCell i = .ok x ↔ t.store i = some x := by
  have hwrap := Layout.wrap_of_lt (t.layout.cell i).row (Layout.column_cell_lt t.layout i)
  exact Table.read_eq_ok_iff.trans (iff_of_eq (congrArg (t.table.get? · = some x) hwrap))

theorem checkBounds_eq_ok_iff : t.checkBounds s = .ok () ↔ s.stop ≤ t.numCells := by
  unfold checkBounds
  split
  · next h => simp [h]
  · next h => simp [h]

theorem readSlice_eq_ok_iff : t.readSlice s = .ok xs ↔ t.store.Reads t.numCells s xs := by
  unfold readSlice
  rw [bind_eq_ok_iff, Store.reads_iff]
  have hmap : s.indices.mapM t.readCell = .ok xs ↔ s.indices.map t.store = xs.map some := by
    rw [mapM_eq_ok_iff]
    simp only [readCell_eq_ok_iff]
    rw [← List.forall₂_eq_eq_eq, List.forall₂_map_left_iff, List.forall₂_map_right_iff]
  constructor
  · rintro ⟨u, hbounds, h⟩
    exact ⟨checkBounds_eq_ok_iff.mp hbounds, hmap.mp h⟩
  · rintro ⟨hbounds, h⟩
    exact ⟨(), checkBounds_eq_ok_iff.mpr hbounds, hmap.mpr h⟩

theorem readFirst_eq_ok_iff {k : Kind} {r : Register k} {x : Native} :
    t.readFirst r = .ok x ↔ r.slice.stop ≤ t.numCells ∧ t.store r.start = some x := by
  unfold readFirst
  rw [bind_eq_ok_iff]
  constructor
  · rintro ⟨u, hbounds, h⟩
    exact ⟨checkBounds_eq_ok_iff.mp hbounds, readCell_eq_ok_iff.mp h⟩
  · rintro ⟨hbounds, h⟩
    exact ⟨(), checkBounds_eq_ok_iff.mpr hbounds, readCell_eq_ok_iff.mpr h⟩

theorem readField_eq_ok (r : FieldRegister P) (h : t.store.Reads t.numCells r.slice xs) :
    t.readField r = .ok (P.decode xs) := by
  unfold readField
  rw [readSlice_eq_ok_iff.mpr h]
  rfl

theorem readPoint_eq_ok (r : PointRegister P) {ys : List Native}
    (hx : t.store.Reads t.numCells r.x.slice xs) (hy : t.store.Reads t.numCells r.y.slice ys) :
    t.readPoint r = .ok ⟨P.decode xs, P.decode ys⟩ := by
  unfold readPoint
  rw [readField_eq_ok r.x hx, readField_eq_ok r.y hy]
  rfl

end Reading

namespace Extends

variable {t t' t'' : Trace}

protected theorem refl (t : Trace) : t.Extends t :=
  ⟨rfl, rfl, Store.le_refl _⟩

protected theorem trans (h : t.Extends t') (h' : t'.Extends t'') : t.Extends t'' :=
  ⟨h'.layout.trans h.layout, h'.numCells.trans h.numCells, Store.le_trans h.store h'.store⟩

variable (h : t.Extends t')

include h

theorem readSlice {s : CellSlice} {xs : List Native} (hs : t.readSlice s = .ok xs) :
    t'.readSlice s = .ok xs := by
  rw [readSlice_eq_ok_iff] at hs ⊢
  rw [h.numCells]
  exact hs.mono h.store

end Extends

namespace Filled

variable {t t' t'' : Trace} {i : Nat} {xs ys : List Native}

theorem nil (t : Trace) (i : Nat) : t.Filled i [] t :=
  ⟨rfl, rfl, (Store.fill_nil _ _).symm⟩

theorem append (h : t.Filled i xs t') (h' : t'.Filled (i + xs.length) ys t'') :
    t.Filled i (xs ++ ys) t'' := by
  refine ⟨h'.layout.trans h.layout, h'.numCells.trans h.numCells, ?_⟩
  rw [h'.store, h.store, Store.fill_fill]

theorem toExtends (h : t.Filled i xs t') (hfresh : t.store.Fresh i (i + xs.length)) :
    t.Extends t' := by
  refine ⟨h.layout, h.numCells, ?_⟩
  rw [h.store]
  exact Store.le_fill hfresh

theorem fresh (h : t.Filled i xs t') {k : Nat} (hfresh : t.store.Fresh i k) :
    t'.store.Fresh (i + xs.length) k := by
  intro j hj hk
  rw [h.store, Store.fill_of_le hj]
  exact hfresh j (by omega) hk

end Filled

end Trace

namespace TraceM

variable {t : Trace} {xs : List Native}

theorem writeCell_eq_ok {i : Nat} (h : t.store i = none) (x : Native) :
    ∃ t', writeCell i x t = .ok () t' ∧ t.Filled i [x] t' := by
  obtain ⟨table, hwrite, hlayout, hstore⟩ := Table.write_eq_ok h x
  refine ⟨⟨t.numCells, table⟩, ?_, hlayout, rfl, ?_⟩
  · cases t
    simp only [writeCell]
    rw [hwrite]
  · rw [Store.fill_singleton]
    exact funext hstore

theorem writeCell_assigned {i : Nat} {y : Native} (h : t.store i = some y) (x : Native) :
    writeCell i x t = .error (.fault (.alreadyAssigned (t.layout.cell i))) t := by
  obtain ⟨n, table⟩ := t
  simp only [writeCell]
  rw [Table.write_assigned h]
  rfl

theorem writeFrom_eq_ok {i : Nat} (h : t.store.Fresh i (i + xs.length)) :
    ∃ t', writeFrom i xs t = .ok () t' ∧ t.Filled i xs t' := by
  induction xs generalizing i t with
  | nil => exact ⟨t, rfl, .nil t i⟩
  | cons x xs ih =>
    rw [List.length_cons] at h
    obtain ⟨t₁, hwrite, hfilled⟩ := writeCell_eq_ok (h i (by omega) (by omega)) x
    have hfresh : t₁.store.Fresh (i + 1) (i + 1 + xs.length) := by
      apply hfilled.fresh
      intro j hj hj'
      exact h j hj (by omega)
    obtain ⟨t₂, hrest, hfilled'⟩ := ih hfresh
    exact ⟨t₂, run_bind_eq_ok_iff.mpr ⟨(), t₁, hwrite, hrest⟩, hfilled.append hfilled'⟩

theorem reading_eq_ok_iff {α : Type} {read : Trace → Except Fault α} {a : α} {t' : Trace} :
    reading read t = .ok a t' ↔ read t = .ok a ∧ t = t' := by
  unfold reading
  cases read t with
  | error f => simp
  | ok b => simp

theorem writeSlice_eq_ok_iff {s : CellSlice} {t' : Trace} :
    writeSlice s xs t = .ok () t' ↔
      s.stop ≤ t.numCells ∧ s.len = xs.length ∧ writeFrom s.start xs t = .ok () t' := by
  unfold writeSlice
  rw [run_bind_eq_ok_iff]
  simp only [reading_eq_ok_iff]
  constructor
  · rintro ⟨u, _, ⟨hs, rfl⟩, h⟩
    split at h
    · next hlen => exact ⟨Trace.checkBounds_eq_ok_iff.mp hs, hlen, h⟩
    · contradiction
  · rintro ⟨hs, hlen, h⟩
    refine ⟨(), t, ⟨Trace.checkBounds_eq_ok_iff.mpr hs, rfl⟩, ?_⟩
    rw [if_pos hlen]
    exact h

theorem writeSlice_eq_ok {s : CellSlice} (hlen : xs.length = s.len) (hs : s.stop ≤ t.numCells)
    (h : t.store.Fresh s.start s.stop) :
    ∃ t', writeSlice s xs t = .ok () t' ∧ t.Filled s.start xs t' := by
  unfold CellSlice.stop at h
  rw [← hlen] at h
  obtain ⟨t', hwrite, hfilled⟩ := writeFrom_eq_ok h
  exact ⟨t', writeSlice_eq_ok_iff.mpr ⟨hs, hlen.symm, hwrite⟩, hfilled⟩

theorem exists_writeSlice_empty (l : Layout) (n : Nat) {len : Nat} (hlen : xs.length = len) (hle : len ≤ n) :
    ∃ t, writeSlice ⟨0, len⟩ xs (.empty l n) = .ok () t ∧ (Trace.empty l n).Extends t ∧
      t.readSlice ⟨0, len⟩ = .ok xs ∧ t.store.Fresh len n := by
  subst hlen
  have hempty : (Trace.empty l n).store.Fresh 0 n := fun i _ _ => Table.get?_empty _ _
  have hbound : 0 + xs.length ≤ n := by rwa [Nat.zero_add]
  have hfirst : (Trace.empty l n).store.Fresh 0 (0 + xs.length) :=
    fun i hi hi' => hempty i hi (Nat.lt_of_lt_of_le hi' hbound)
  obtain ⟨t, hwrite, hfilled⟩ :=
    writeSlice_eq_ok (t := .empty l n) (s := ⟨0, xs.length⟩) rfl hbound hfirst
  have hfresh := hfilled.fresh hempty
  rw [Nat.zero_add] at hfresh
  refine ⟨t, hwrite, hfilled.toExtends hfirst, ?_, hfresh⟩
  rw [Trace.readSlice_eq_ok_iff, hfilled.store, hfilled.numCells]
  exact Store.reads_fill hbound

theorem writeEach_eq_ok {k : Kind} (hk : k.size = 1) {i : Nat} (hbound : i + xs.length ≤ t.numCells)
    (h : t.store.Fresh i (i + xs.length)) :
    ∃ t', writeEach ((List.range' i xs.length).map fun j => (⟨j⟩ : Register k)) (xs.map ([·])) t =
      .ok () t' ∧ t.Filled i xs t' := by
  induction xs generalizing i t with
  | nil => exact ⟨t, rfl, .nil t i⟩
  | cons x xs ih =>
    rw [List.length_cons] at h hbound
    have hslice : (⟨i⟩ : Register k).slice = ⟨i, 1⟩ := by
      rw [Register.slice, hk]
    have hfirst : t.store.Fresh i (i + 1) := fun j hj hj' => h j hj (by omega)
    have hstop : (⟨i, 1⟩ : CellSlice).stop ≤ t.numCells := by
      change i + 1 ≤ t.numCells
      omega
    obtain ⟨t₁, hwrite, hfilled⟩ :=
      writeSlice_eq_ok (t := t) (s := ⟨i, 1⟩) (List.length_singleton (a := x)) hstop hfirst
    have hfresh : t₁.store.Fresh (i + 1) (i + 1 + xs.length) := by
      apply hfilled.fresh
      intro j hj hj'
      exact h j hj (by omega)
    obtain ⟨t₂, hrest, hfilled'⟩ := ih (by rw [hfilled.numCells]; omega) hfresh
    refine ⟨t₂, ?_, hfilled.append hfilled'⟩
    rw [List.length_cons, List.range'_succ, List.map_cons, List.map_cons, writeEach,
      run_bind_eq_ok_iff]
    refine ⟨(), t₁, ?_, hrest⟩
    unfold write
    rw [hslice]
    exact hwrite

theorem toList_array {k : Kind} (hk : k.size = 1) (a : RegisterArray k) :
    a.toList = (List.range' a.slice.start a.length).map fun j => ⟨j⟩ := by
  unfold RegisterArray.toList
  rw [hk, List.range'_eq_map_range, List.map_map]
  apply List.map_congr_left
  intro j _
  rw [Nat.mul_one]
  rfl

theorem writeArray_eq_ok {k : Kind} (hk : k.size = 1) {a : RegisterArray k}
    (hlen : xs.length = a.length) (hbound : a.slice.start + a.length ≤ t.numCells)
    (h : t.store.Fresh a.slice.start (a.slice.start + a.length)) :
    ∃ t', writeArray a (xs.map ([·])) t = .ok () t' ∧ t.Filled a.slice.start xs t' := by
  rw [← hlen] at h hbound
  obtain ⟨t', hwrite, hfilled⟩ := writeEach_eq_ok hk hbound h
  refine ⟨t', ?_, hfilled⟩
  unfold writeArray
  rw [List.length_map, if_pos hlen.symm, toList_array hk, ← hlen]
  exact hwrite

section Inversion

variable {t' : Trace} {k : Kind}

theorem filled_writeCell {i : Nat} {x : Native} (h : writeCell i x t = .ok () t') :
    t.store i = none ∧ t.Filled i [x] t' := by
  cases hi : t.store i with
  | none =>
    obtain ⟨t₁, hwrite, hfilled⟩ := writeCell_eq_ok hi x
    rw [hwrite] at h
    cases h
    exact ⟨rfl, hfilled⟩
  | some y =>
    rw [writeCell_assigned hi] at h
    contradiction

theorem extends_writeCell {i : Nat} {x : Native} (h : writeCell i x t = .ok () t') :
    t.Extends t' := by
  obtain ⟨hi, hfilled⟩ := filled_writeCell h
  apply hfilled.toExtends
  intro j hj hj'
  rw [List.length_singleton] at hj'
  have hji : j = i := by omega
  rw [hji]
  exact hi

theorem extends_writeFrom {t : Trace} {i : Nat} (h : writeFrom i xs t = .ok () t') : t.Extends t' := by
  induction xs generalizing i t with
  | nil =>
    cases h
    exact .refl _
  | cons x xs ih =>
    obtain ⟨u, t₁, hwrite, hrest⟩ := run_bind_eq_ok_iff.mp h
    exact (extends_writeCell hwrite).trans (ih hrest)

theorem extends_writeSlice {s : CellSlice} (h : writeSlice s xs t = .ok () t') : t.Extends t' := by
  exact extends_writeFrom (writeSlice_eq_ok_iff.mp h).2.2

theorem extends_writeEach {t : Trace} {rs : List (Register k)} {values : List (List Native)}
    (h : writeEach rs values t = .ok () t') : t.Extends t' := by
  induction rs generalizing values t with
  | nil =>
    cases values with
    | nil =>
      cases h
      exact .refl _
    | cons xs rest => contradiction
  | cons r rs ih =>
    cases values with
    | nil => contradiction
    | cons xs rest =>
      obtain ⟨u, t₁, hwrite, hrest⟩ := run_bind_eq_ok_iff.mp h
      exact (extends_writeSlice hwrite).trans (ih hrest)

theorem extends_writeArray {a : RegisterArray k} {values : List (List Native)}
    (h : writeArray a values t = .ok () t') : t.Extends t' := by
  unfold writeArray at h
  split at h
  · exact extends_writeEach h
  · contradiction

theorem store_writeFrom {t : Trace} {i j : Nat} (h : writeFrom i xs t = .ok () t')
    (hj : j < xs.length) : t'.store (i + j) = some xs[j] := by
  induction xs generalizing i j t with
  | nil => contradiction
  | cons x xs ih =>
    obtain ⟨u, t₁, hwrite, hrest⟩ := run_bind_eq_ok_iff.mp h
    cases j with
    | zero =>
      apply (extends_writeFrom hrest).store
      rw [(filled_writeCell hwrite).2.store, Store.fill_singleton]
      exact if_pos rfl
    | succ j =>
      have hj' := ih hrest (Nat.lt_of_succ_lt_succ hj)
      rwa [Nat.add_right_comm] at hj'

theorem reads_writeSlice {s : CellSlice} (h : writeSlice s xs t = .ok () t') :
    t'.store.Reads t.numCells s xs := by
  obtain ⟨hs, hlen, hwrite⟩ := writeSlice_eq_ok_iff.mp h
  exact Store.reads_of_getElem hs hlen.symm fun _ hi => store_writeFrom hwrite hi

theorem mapM_get_writeEach {t : Trace} {rs : List (Register k)} {σ : Store}
    (h : writeEach rs (xs.map ([·])) t = .ok () t') (hle : t'.store ≤ σ) :
    (rs.mapM fun r => (σ.cells t.numCells).get r.start) = .ok (xs.map some) := by
  induction rs generalizing xs t with
  | nil =>
    cases xs with
    | nil => rfl
    | cons x xs => contradiction
  | cons r rs ih =>
    cases xs with
    | nil => contradiction
    | cons x xs =>
      obtain ⟨u, t₁, hwrite, hrest⟩ := run_bind_eq_ok_iff.mp h
      have hreads := (reads_writeSlice hwrite).mono (extends_writeEach hrest).store
      have hget := (hreads.mono hle).get (i := 0) Nat.zero_lt_one
      have htail := ih hrest
      rw [(extends_writeSlice hwrite).numCells] at htail
      exact mapM_cons_eq_ok_iff.mpr ⟨_, _, hget, htail, rfl⟩

theorem mapM_get_writeArray {a : RegisterArray k} {σ : Store}
    (h : writeArray a (xs.map ([·])) t = .ok () t') (hle : t'.store ≤ σ) :
    (a.toList.mapM fun r => (σ.cells t.numCells).get r.start) = .ok (xs.map some) := by
  unfold writeArray at h
  split at h
  · exact mapM_get_writeEach h hle
  · contradiction

end Inversion

end TraceM

end ForeignCurve
