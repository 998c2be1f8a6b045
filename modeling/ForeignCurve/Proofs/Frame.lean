import ForeignCurve.Proofs.Circuit.Checker
import ForeignCurve.Proofs.Trace

/-!
Frames of writes. Whatever is written to a trace, and however it ends, every assigned cell keeps its value,
and the cells that are newly assigned belong to the target of the write. They are all of its cells if the
write ends well, and of a run, in any case, the cells before the first one that was assigned.
-/

namespace ForeignCurve

def RegisterArray.runs {k : Kind} (a : RegisterArray k) : List CellSlice :=
  a.toList.map Register.slice

theorem RegisterArray.mem_of_mem_runs {k : Kind} {s : CellSlice} {a : RegisterArray k}
    (h : ofSlice k s = .ok a) {r : CellSlice} (hr : r ∈ a.runs) {j : Nat} (hj : j ∈ r.indices) :
    j ∈ s.indices := by
  unfold ofSlice at h
  split at h
  · contradiction
  · cases h
    unfold runs toList at hr
    rw [List.map_map, List.mem_map] at hr
    obtain ⟨i, hi, rfl⟩ := hr
    have hle : (i + 1) * k.size ≤ s.len :=
      Nat.le_trans (Nat.mul_le_mul_right _ (List.mem_range.mp hi)) (Nat.div_mul_le_self _ _)
    rw [Nat.succ_mul] at hle
    rw [CellSlice.mem_indices] at hj ⊢
    simp only [Function.comp_apply, Register.slice, CellSlice.stop] at hj ⊢
    omega

structure Trace.Assigns (t : Trace) (runs : List CellSlice) (t' : Trace) : Prop where
  layout : t'.layout = t.layout
  numCells : t'.numCells = t.numCells
  keeps : t.table.Keeps t'.table
  assigned : ∀ c x, t'.table.get? c = some x →
    t.table.get? c = some x ∨ ∃ s ∈ runs, ∃ i ∈ s.indices, t.layout.cell i = c

namespace Trace.Assigns

variable {t t' t'' : Trace} {runs runs' : List CellSlice}

protected theorem refl (t : Trace) (runs : List CellSlice) : t.Assigns runs t :=
  ⟨rfl, rfl, fun _ _ => id, fun _ _ => .inl⟩

protected theorem trans (h : t.Assigns runs t') (h' : t'.Assigns runs t'') : t.Assigns runs t'' where
  layout := h'.layout.trans h.layout
  numCells := h'.numCells.trans h.numCells
  keeps c x hx := h'.keeps c x (h.keeps c x hx)
  assigned c x hx := by
    obtain hx | hnew := h'.assigned c x hx
    · exact h.assigned c x hx
    · rw [h.layout] at hnew
      exact .inr hnew

theorem mono (h : t.Assigns runs t') (hle : ∀ s ∈ runs, ∀ i ∈ s.indices, ∃ s' ∈ runs', i ∈ s'.indices) :
    t.Assigns runs' t' where
  layout := h.layout
  numCells := h.numCells
  keeps := h.keeps
  assigned c x hx := by
    obtain hx | ⟨s, hs, i, hi, hcell⟩ := h.assigned c x hx
    · exact .inl hx
    · obtain ⟨s', hs', hi'⟩ := hle s hs i hi
      exact .inr ⟨s', hs', i, hi', hcell⟩

theorem store_eq (h : t.Assigns runs t') {j : Nat} (hj : ∀ s ∈ runs, j ∉ s.indices) :
    t'.store j = t.store j := by
  unfold Trace.store Table.store
  rw [h.layout]
  cases hold : t.table.get? (t.layout.cell j) with
  | some x => exact h.keeps _ x hold
  | none =>
    rw [Option.eq_none_iff_forall_ne_some]
    intro x hnew
    obtain hx | ⟨s, hs, i, hi, hcell⟩ := h.assigned _ x hnew
    · rw [hold] at hx
      contradiction
    · rw [Layout.cell_inj] at hcell
      subst hcell
      exact hj s hs hi

theorem store_le (h : t.Assigns runs t') : t.store ≤ t'.store := by
  intro i x hx
  unfold Trace.store Table.store at hx ⊢
  rw [h.layout]
  exact h.keeps _ x hx

end Trace.Assigns

def Trace.Takes (t : Trace) (runs : List CellSlice) (t' : Trace) : Prop :=
  ∀ s ∈ runs, ∀ i ∈ s.indices, t.store i = none ∧ (t'.store i).isSome

theorem Trace.Takes.append {t t' t'' : Trace} {runs runs' : List CellSlice} (h : t.Takes runs t')
    (hle : t.store ≤ t'.store) (h' : t'.Takes runs' t'') (hle' : t'.store ≤ t''.store) :
    t.Takes (runs ++ runs') t'' := by
  intro s hs i hi
  obtain hs | hs := List.mem_append.mp hs
  · obtain ⟨hnone, hsome⟩ := h s hs i hi
    obtain ⟨x, hx⟩ := Option.isSome_iff_exists.mp hsome
    refine ⟨hnone, ?_⟩
    rw [hle' i x hx]
    rfl
  · obtain ⟨hnone, hsome⟩ := h' s hs i hi
    refine ⟨?_, hsome⟩
    rw [Option.eq_none_iff_forall_ne_some]
    intro x hx
    rw [hle i x hx] at hnone
    contradiction

namespace TraceM

variable {α β : Type} {t : Trace} {runs : List CellSlice}

def after (x : TraceM α) (t : Trace) : Trace :=
  match x t with
  | .ok _ t' | .error _ t' => t'

theorem after_of_ok {x : TraceM α} {a : α} {t' : Trace} (h : x t = .ok a t') : x.after t = t' := by
  unfold after
  rw [h]

theorem after_of_error {x : TraceM α} {f : Failure} {t' : Trace} (h : x t = .error f t') :
    x.after t = t' := by
  unfold after
  rw [h]

theorem after_of_refused {x : TraceM α} {f : Failure} (h : x t = .error f t) :
    x.after t = t ∧ ∀ a t', x t ≠ .ok a t' := by
  refine ⟨after_of_error h, fun a t' hok => ?_⟩
  rw [h] at hok
  contradiction

theorem after_bind_of_ok {x : TraceM α} {f : α → TraceM β} {a : α} {t' : Trace} (h : x t = .ok a t') :
    (x >>= f).after t = (f a).after t' := by
  unfold after
  rw [run_bind_of_ok h]

theorem after_bind_of_error {x : TraceM α} {f : α → TraceM β} {e : Failure} {t' : Trace}
    (h : x t = .error e t') : (x >>= f).after t = t' :=
  after_of_error (run_bind_eq_error h)

/--
However it ends, the program assigns cells of the given runs only. If it ends well, it has assigned all of
them.
-/
structure Writes (runs : List CellSlice) (x : TraceM α) : Prop where
  assigns (t : Trace) : t.Assigns runs (x.after t)
  takes {t : Trace} {a : α} {t' : Trace} (h : x t = .ok a t') : t.Takes runs t'

namespace Writes

variable {runs' : List CellSlice}

theorem pure (a : α) : Writes [] (pure a : TraceM α) where
  assigns t := .refl t []
  takes _ _ hs := absurd hs List.not_mem_nil

theorem failing {x : TraceM α} (h : ∀ t, ∃ f, x t = .error f t) : Writes runs x where
  assigns t := by
    obtain ⟨f, hf⟩ := h t
    rw [after_of_error hf]
    exact .refl t runs
  takes {t} _ _ hok := by
    obtain ⟨f, hf⟩ := h t
    rw [hf] at hok
    contradiction

theorem bind {x : TraceM α} {f : α → TraceM β} (hx : Writes runs x) (hf : ∀ a, Writes runs' (f a)) :
    Writes (runs ++ runs') (x >>= f) where
  assigns t := by
    have hfirst : t.Assigns (runs ++ runs') (x.after t) :=
      (hx.assigns t).mono fun s hs i hi => ⟨s, List.mem_append_left _ hs, hi⟩
    cases hrun : x t with
    | ok a t' =>
      have hrest : t'.Assigns (runs ++ runs') ((f a).after t') :=
        ((hf a).assigns t').mono fun s hs i hi => ⟨s, List.mem_append_right _ hs, hi⟩
      rw [after_of_ok hrun] at hfirst
      rw [after_bind_of_ok hrun]
      exact hfirst.trans hrest
    | error e t' =>
      rw [after_of_error hrun] at hfirst
      rw [after_bind_of_error hrun]
      exact hfirst
  takes {t} b t'' h := by
    obtain ⟨a, t', hrun, hrest⟩ := run_bind_eq_ok_iff.mp h
    have hfirst := hx.assigns t
    have hsecond := (hf a).assigns t'
    rw [after_of_ok hrun] at hfirst
    rw [after_of_ok hrest] at hsecond
    exact (hx.takes hrun).append hfirst.store_le ((hf a).takes hrest) hsecond.store_le

theorem congr {x : TraceM α} (h : Writes runs x)
    (hcells : ∀ i, (∃ s ∈ runs, i ∈ s.indices) ↔ ∃ s ∈ runs', i ∈ s.indices) : Writes runs' x where
  assigns t := (h.assigns t).mono fun s hs i hi => (hcells i).mp ⟨s, hs, hi⟩
  takes hok s hs i hi := by
    obtain ⟨r, hr, hi⟩ := (hcells i).mpr ⟨s, hs, hi⟩
    exact h.takes hok r hr i hi

theorem reading (read : Trace → Except Fault α) : Writes [] (TraceM.reading read) where
  assigns t := by
    unfold TraceM.reading after
    dsimp only
    cases read t <;> exact .refl t []
  takes _ _ hs := absurd hs List.not_mem_nil

theorem writeCell (i : Nat) (x : Native) : Writes [⟨i, 1⟩] (writeCell i x) where
  assigns t := by
    cases hstore : t.store i with
    | some y =>
      rw [after_of_error (writeCell_assigned hstore x)]
      exact .refl t _
    | none =>
      obtain ⟨n, table⟩ := t
      -- The table numbers its cells, the store its indices: the write is of the cell that the index names.
      have hwrap := Table.wrap_cell table i
      have hnone : table.get? (table.layout.cell i) = none := hstore
      rw [← hwrap] at hnone
      obtain ⟨table', hwrite, hwrote⟩ := Table.write_of_unassigned hnone x
      rw [hwrap] at hwrote hnone
      have hok : TraceM.writeCell i x ⟨n, table⟩ = .ok () ⟨n, table'⟩ := by
        unfold TraceM.writeCell
        dsimp only
        rw [hwrite]
      rw [after_of_ok hok]
      refine ⟨hwrote.layout, rfl, fun c y hy => ?_, fun c y hy => ?_⟩
      · rw [hwrote.get?, if_neg, hy]
        rintro rfl
        change table.get? (table.layout.cell i) = some y at hy
        rw [hnone] at hy
        contradiction
      · rw [hwrote.get?] at hy
        split at hy
        · next hc =>
          exact .inr ⟨_, List.mem_singleton_self _, i, List.mem_singleton_self i, hc.symm⟩
        · exact .inl hy
  takes {t} _ t' hok s hs j hj := by
    obtain ⟨hnone, hfilled⟩ := filled_writeCell hok
    rw [List.mem_singleton] at hs
    subst hs
    have hji : j = i := List.mem_singleton.mp hj
    rw [hji, hfilled.store, Store.fill_singleton]
    simp [hnone]

theorem writeFrom (i : Nat) (xs : List Native) : Writes [⟨i, xs.length⟩] (writeFrom i xs) := by
  induction xs generalizing i with
  | nil =>
    apply congr (pure ())
    simp [CellSlice.indices]
  | cons x xs ih =>
    -- The first cell and the run behind it are the run from the first cell on.
    apply congr ((writeCell i x).bind fun _ => ih (i + 1))
    intro j
    simp only [List.singleton_append, List.exists_mem_cons_iff, List.not_mem_nil, false_and, exists_false,
      or_false, CellSlice.mem_indices, CellSlice.stop, List.length_cons]
    omega

theorem writeSlice (s : CellSlice) (xs : List Native) : Writes [s] (writeSlice s xs) := by
  refine (Writes.reading _).bind fun _ => ?_
  split
  · next hlen =>
    obtain ⟨start, len⟩ := s
    subst hlen
    exact .writeFrom start xs
  · exact .failing fun t => ⟨_, rfl⟩

variable {k : Kind}

theorem writeEach (rs : List (Register k)) (values : List (List Native)) :
    Writes (rs.map Register.slice) (writeEach rs values) := by
  induction rs generalizing values with
  | nil =>
    cases values with
    | nil => exact .pure ()
    | cons xs rest => exact .failing fun t => ⟨_, rfl⟩
  | cons r rs ih =>
    cases values with
    | nil => exact .failing fun t => ⟨_, rfl⟩
    | cons xs rest => exact (writeSlice r.slice xs).bind fun _ => ih rest

theorem writeArray (a : RegisterArray k) (values : List (List Native)) :
    Writes a.runs (writeArray a values) := by
  unfold TraceM.writeArray
  split
  · exact .writeEach a.toList values
  · exact .failing fun t => ⟨_, rfl⟩

end Writes

end TraceM

section Vacancy

def Trace.vacancy (t : Trace) (s : CellSlice) : Nat :=
  (s.indices.takeWhile fun i => (t.store i).isNone).length

namespace Trace

variable {t t' : Trace} {i n : Nat}

theorem vacancy_of_some {x : Native} (h : t.store i = some x) : t.vacancy ⟨i, n + 1⟩ = 0 := by
  unfold vacancy CellSlice.indices
  rw [List.range'_succ, List.takeWhile_cons_of_neg]
  · rfl
  · simp [h]

theorem vacancy_of_none (h : t.store i = none) : t.vacancy ⟨i, n + 1⟩ = t.vacancy ⟨i + 1, n⟩ + 1 := by
  unfold vacancy CellSlice.indices
  rw [List.range'_succ, List.takeWhile_cons_of_pos]
  · rfl
  · simp [h]

theorem vacancy_congr (h : ∀ j, i ≤ j → t'.store j = t.store j) : t'.vacancy ⟨i, n⟩ = t.vacancy ⟨i, n⟩ := by
  induction n generalizing i with
  | zero => rfl
  | succ n ih =>
    have hrest := ih fun j hj => h j (Nat.le_of_succ_le hj)
    have hi := h i (Nat.le_refl i)
    cases hstore : t.store i with
    | none => rw [vacancy_of_none hstore, vacancy_of_none (hi.trans hstore), hrest]
    | some x => rw [vacancy_of_some hstore, vacancy_of_some (hi.trans hstore)]

end Trace

namespace TraceM

theorem writeFrom_outcome (i : Nat) (xs : List Native) (t : Trace) :
    ∃ t', t.Filled i (xs.take (t.vacancy ⟨i, xs.length⟩)) t' ∧
      writeFrom i xs t =
        if t.vacancy ⟨i, xs.length⟩ = xs.length then .ok () t'
        else .error (.fault (.alreadyAssigned (t.layout.cell (i + t.vacancy ⟨i, xs.length⟩)))) t' := by
  induction xs generalizing i t with
  | nil => exact ⟨t, .nil t i, rfl⟩
  | cons x xs ih =>
    rw [List.length_cons]
    cases hi : t.store i with
    | some y =>
      rw [Trace.vacancy_of_some hi, List.take_zero]
      exact ⟨t, .nil t i, run_bind_eq_error (writeCell_assigned hi x)⟩
    | none =>
      obtain ⟨t₁, hwrite, hfirst⟩ := writeCell_eq_ok hi x
      obtain ⟨t₂, hrest, hrun⟩ := ih (i + 1) t₁
      have hvacancy : t₁.vacancy ⟨i + 1, xs.length⟩ = t.vacancy ⟨i + 1, xs.length⟩ := by
        apply Trace.vacancy_congr
        intro j hj
        rw [hfirst.store, Store.fill_of_le hj]
      rw [hvacancy] at hrest hrun
      rw [hfirst.layout] at hrun
      rw [Trace.vacancy_of_none hi, List.take_succ_cons]
      refine ⟨t₂, hfirst.append hrest, ?_⟩
      have hbind : writeFrom i (x :: xs) t = writeFrom (i + 1) xs t₁ := run_bind_of_ok hwrite
      rw [hbind, hrun, Nat.add_right_comm i 1, Nat.add_assoc i]
      simp only [Nat.add_right_cancel_iff]

theorem writeSlice_of_le {s : CellSlice} {xs : List Native} {t : Trace} (h : s.stop ≤ t.numCells) :
    writeSlice s xs t =
      if s.len = xs.length then writeFrom s.start xs t
      else .error (.fault (.sliceLength s xs.length)) t := by
  unfold writeSlice
  rw [run_bind_of_ok (reading_eq_ok_iff.mpr ⟨Trace.checkBounds_eq_ok_iff.mpr h, rfl⟩)]
  split <;> rfl

theorem writeSlice_of_not_le {s : CellSlice} {t : Trace} (h : ¬ s.stop ≤ t.numCells) (xs : List Native) :
    writeSlice s xs t = .error (.fault (.outsideArena s t.numCells)) t := by
  unfold writeSlice
  apply run_bind_eq_error
  unfold reading Trace.checkBounds
  dsimp only
  rw [if_neg h]

theorem writeSlice_outcome (s : CellSlice) (xs : List Native) (t : Trace) :
    if s.stop ≤ t.numCells ∧ s.len = xs.length then
      t.Filled s.start (xs.take (t.vacancy s)) ((writeSlice s xs).after t) ∧
        ((∃ t', writeSlice s xs t = .ok () t') ↔ t.vacancy s = s.len)
    else
      (writeSlice s xs).after t = t ∧ ∀ u t', writeSlice s xs t ≠ .ok u t' := by
  by_cases hbounds : s.stop ≤ t.numCells
  · by_cases hlen : s.len = xs.length
    · obtain ⟨start, len⟩ := s
      subst hlen
      rw [if_pos ⟨hbounds, rfl⟩]
      obtain ⟨t', hfilled, hrun⟩ := writeFrom_outcome start xs t
      have hwrite : writeSlice ⟨start, xs.length⟩ xs t = _ := writeSlice_of_le hbounds
      rw [if_pos rfl, hrun] at hwrite
      split at hwrite
      · next hall =>
        rw [after_of_ok hwrite]
        exact ⟨hfilled, fun _ => hall, fun _ => ⟨t', hwrite⟩⟩
      · next hsome =>
        rw [after_of_error hwrite, hwrite]
        exact ⟨hfilled, fun ⟨_, hok⟩ => by contradiction, fun hall => absurd hall hsome⟩
    · rw [if_neg fun h => hlen h.2]
      have hwrite : writeSlice s xs t = _ := writeSlice_of_le hbounds
      rw [if_neg hlen] at hwrite
      exact after_of_refused hwrite
  · rw [if_neg fun h => hbounds h.1]
    exact after_of_refused (writeSlice_of_not_le hbounds xs)

end TraceM

end Vacancy

end ForeignCurve
