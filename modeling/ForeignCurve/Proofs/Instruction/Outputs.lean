import ForeignCurve.Proofs.Instruction.Faults

namespace ForeignCurve

variable {t t' : Trace} {s : CellSlice} {runs : List CellSlice}

def Trace.ofRow (cells : Array (Option Native)) (h : 0 < cells.size) : Trace :=
  ⟨cells.size, ⟨⟨cells.size, h⟩, cells, Nat.dvd_refl _⟩⟩

theorem Trace.store_ofRow {cells : Array (Option Native)} (h : 0 < cells.size) (i : Nat) :
    (ofRow cells h).store i = cells[i]?.join :=
  Table.store_eq _ i

theorem Trace.readSlice_ofRow {cells : Array (Option Native)} (h : 0 < cells.size) {s : CellSlice}
    {xs : List Native} (hstop : s.stop ≤ cells.size)
    (hxs : s.indices.map (fun i => cells[i]?.join) = xs.map some) : (ofRow cells h).readSlice s = .ok xs := by
  rw [readSlice_eq_ok_iff, Store.reads_iff, ← hxs]
  exact ⟨hstop, List.map_congr_left fun i _ => store_ofRow h i⟩

structure Trace.Vacant (t : Trace) (runs : List CellSlice) : Prop where
  stop_le : ∀ s ∈ runs, s.stop ≤ t.numCells
  nodup : (runs.flatMap CellSlice.indices).Nodup
  unassigned : ∀ i ∈ runs.flatMap CellSlice.indices, t.store i = none

namespace Trace.Vacant

theorem fresh (h : t.Vacant (s :: runs)) : t.store.Fresh s.start s.stop := by
  intro i hi hi'
  apply h.unassigned
  rw [List.flatMap_cons, List.mem_append]
  exact .inl (CellSlice.mem_indices.mpr ⟨hi, hi'⟩)

theorem rest {xs : List Native} (h : t.Vacant (s :: runs)) (hlen : xs.length = s.len)
    (hfilled : t.Filled s.start xs t') : t'.Vacant runs where
  stop_le r hr := by
    rw [hfilled.numCells]
    exact h.stop_le r (List.mem_cons_of_mem s hr)
  nodup := by
    have hnodup := h.nodup
    rw [List.flatMap_cons] at hnodup
    exact hnodup.of_append_right
  unassigned i hi := by
    have hnodup := h.nodup
    rw [List.flatMap_cons, List.nodup_append] at hnodup
    have hout : i ∉ s.indices := fun hs => hnodup.2.2 i hs i hi rfl
    rw [CellSlice.mem_indices, CellSlice.stop, ← hlen] at hout
    rw [hfilled.store, Store.fill, if_neg hout]
    apply h.unassigned
    rw [List.flatMap_cons, List.mem_append]
    exact .inr hi

theorem pair {start len len' : Nat} (hbound : start + (len + len') ≤ t.numCells)
    (hfresh : t.store.Fresh start (start + (len + len'))) :
    t.Vacant [⟨start, len⟩, ⟨start + len, len'⟩] := by
  have hindices : [⟨start, len⟩, ⟨start + len, len'⟩].flatMap CellSlice.indices =
      List.range' start (len + len') := by
    simp [CellSlice.indices, List.range'_append_1]
  refine ⟨?_, ?_, ?_⟩
  · rw [List.forall_mem_cons, List.forall_mem_singleton]
    simp only [CellSlice.stop]
    omega
  · rw [hindices]
    exact List.nodup_range'
  · rw [hindices]
    intro i hi
    rw [List.mem_range'_1] at hi
    exact hfresh i hi.1 hi.2

end Trace.Vacant

def Failure.Misplaced (f : Failure) : Prop :=
  ∃ cause, f = .fault cause ∧ cause.misplaced

namespace TraceM

variable {α β : Type}

def Misplaces (x : TraceM α) : Prop :=
  ∀ t f t', x t = .error f t' → f.Misplaced

namespace Misplaces

theorem pure (a : α) : Misplaces (pure a) := by
  intro t f t' h
  cases h

theorem bind {x : TraceM α} {f : α → TraceM β} (hx : Misplaces x) (hf : ∀ a, Misplaces (f a)) :
    Misplaces (x >>= f) := by
  intro t e t' h
  cases hrun : x t with
  | ok a t₁ =>
    rw [run_bind_of_ok hrun] at h
    exact hf a t₁ e t' h
  | error e' t₁ =>
    rw [run_bind_eq_error hrun] at h
    cases h
    exact hx t e _ hrun

theorem fail {cause : Fault} (h : cause.misplaced) : Misplaces (fail cause : TraceM α) := by
  intro t f t' hrun
  cases hrun
  exact ⟨cause, rfl, h⟩

theorem checkBounds (s : CellSlice) : Misplaces (reading (·.checkBounds s)) := by
  intro t f t' h
  unfold reading Trace.checkBounds at h
  dsimp only at h
  split at h
  · contradiction
  · next hbounds =>
    split at hbounds
    · contradiction
    · cases hbounds
      cases h
      exact ⟨_, rfl, rfl⟩

theorem writeCell (i : Nat) (x : Native) : Misplaces (writeCell i x) := by
  intro t f t' h
  cases hi : t.store i with
  | none =>
    obtain ⟨t₁, hwrite, -⟩ := writeCell_eq_ok hi x
    rw [hwrite] at h
    contradiction
  | some y =>
    rw [writeCell_assigned hi] at h
    cases h
    exact ⟨_, rfl, rfl⟩

theorem writeFrom (i : Nat) (xs : List Native) : Misplaces (writeFrom i xs) := by
  induction xs generalizing i with
  | nil => exact .pure ()
  | cons x xs ih => exact .bind (.writeCell i x) fun _ => ih (i + 1)

theorem writeSlice (s : CellSlice) (xs : List Native) : Misplaces (writeSlice s xs) := by
  refine .bind (.checkBounds s) fun _ => ?_
  split
  · exact .bind (.pure ()) fun _ => .writeFrom s.start xs
  · exact .bind (.fail rfl) fun _ => .writeFrom s.start xs

theorem writeEach {k : Kind} {rs : List (Register k)} {values : List (List Native)}
    (hlen : rs.length = values.length) : Misplaces (writeEach rs values) := by
  induction rs generalizing values with
  | nil =>
    rw [List.length_nil, eq_comm, List.length_eq_zero_iff] at hlen
    subst hlen
    exact .pure ()
  | cons r rs ih =>
    obtain ⟨xs, values, rfl⟩ := List.exists_cons_of_length_eq_add_one hlen.symm
    exact .bind (.writeSlice r.slice xs) fun _ => ih (Nat.succ.inj hlen)

theorem writeArray {k : Kind} (a : RegisterArray k) (values : List (List Native)) :
    Misplaces (writeArray a values) := by
  unfold TraceM.writeArray
  -- the number of values is checked before they are paired with registers
  split
  · next hlen =>
    refine .bind (.pure ()) fun _ => .writeEach ?_
    rw [RegisterArray.toList, List.length_map, List.length_range, hlen]
  · intro t f t' h
    cases h
    exact ⟨_, rfl, rfl⟩

end Misplaces

end TraceM

namespace Plan

inductive Fits : Plan → List CellSlice → Prop where
  | done : Fits .done []
  | write {s : CellSlice} {xs : List Native} {rest : Plan} {runs : List CellSlice}
      (hlen : xs.length = s.len) (hrest : Fits rest runs) : Fits (.write s xs rest) (s :: runs)
  | writeArray {k : Kind} (hk : k.size = 1) {a : RegisterArray k} {xs : List Native} {rest : Plan}
      {runs : List CellSlice} (harray : a.slice.len = a.length) (hlen : xs.length = a.length)
      (hrest : Fits rest runs) : Fits (.writeArray k a xs rest) (a.slice :: runs)

namespace Fits

variable {p : Plan}

theorem perform (h : p.Fits runs) (hvacant : t.Vacant runs) : ∃ t', p.perform t = .ok () t' := by
  induction h generalizing t with
  | done => exact ⟨t, rfl⟩
  | @write s xs rest runs hlen hrest ih =>
    obtain ⟨t₁, hwrite, hfilled⟩ :=
      TraceM.writeSlice_eq_ok hlen (hvacant.stop_le s List.mem_cons_self) hvacant.fresh
    obtain ⟨t₂, hperform⟩ := ih (hvacant.rest hlen hfilled)
    exact ⟨t₂, run_bind_eq_ok_iff.mpr ⟨(), t₁, hwrite, hperform⟩⟩
  | @writeArray k hk a xs rest runs harray hlen hrest ih =>
    have hfresh := hvacant.fresh
    have hbound := hvacant.stop_le a.slice List.mem_cons_self
    unfold CellSlice.stop at hfresh hbound
    rw [harray] at hfresh hbound
    obtain ⟨t₁, hwrite, hfilled⟩ := TraceM.writeArray_eq_ok hk hlen hbound hfresh
    obtain ⟨t₂, hperform⟩ := ih (hvacant.rest (hlen.trans harray.symm) hfilled)
    exact ⟨t₂, run_bind_eq_ok_iff.mpr ⟨(), t₁, hwrite, hperform⟩⟩

theorem misplaces (h : p.Fits runs) : TraceM.Misplaces p.perform := by
  induction h with
  | done => exact .pure ()
  | @write s xs rest runs hlen hrest ih => exact .bind (.writeSlice s xs) fun _ => ih
  | @writeArray k hk a xs rest runs harray hlen hrest ih => exact .bind (.writeArray a _) fun _ => ih

end Fits

end Plan

namespace Instruction

/--
The write of an instruction is refused, for one of the reasons `C`, exactly if `D` fails, and then writes
nothing. Otherwise it only depends on whether the outputs are vacant, and what it leaves behind is `Q`.
-/
structure WritesIff (i : Instruction) (t : Trace) (D : Prop) (C : Fault → Prop)
    (outputs : List CellSlice) (Q : Trace → Prop) : Prop where
  succeeds_iff : t.Vacant outputs → ((∃ t', i.write t = .ok () t') ↔ D)
  refused : ¬ D → ∃ cause, C cause ∧ i.write t = .error (.fault cause) t
  misplaced : D → ∀ f t', i.write t = .error f t' → f.Misplaced
  written : ∀ t', i.write t = .ok () t' → t.Extends t' ∧ D ∧ Q t'

namespace WritesIff

variable {i : Instruction} {D : Prop} {C : Fault → Prop} {Q : Trace → Prop}

theorem of_plan
    (hplan : D → ∃ p, i.plan t = .ok p ∧ p.Fits runs ∧
      ∀ t', t.Extends t' → p.Written t'.store t'.numCells → Q t')
    (hrefused : ¬ D → ∃ cause, C cause ∧ i.plan t = .error (.fault cause)) :
    i.WritesIff t D C runs Q := by
  have hwrite : ¬ D → ∃ cause, C cause ∧ i.write t = .error (.fault cause) t := by
    intro hD
    obtain ⟨cause, hC, hplan⟩ := hrefused hD
    exact ⟨cause, hC, write_eq_error hplan⟩
  have hD_of_ok {t' : Trace} (hok : i.write t = .ok () t') : D := by
    by_contra hD
    obtain ⟨cause, -, herror⟩ := hwrite hD
    rw [herror] at hok
    contradiction
  -- Success, refusal, what is left where cells are not vacant, and what holds afterwards.
  refine ⟨fun hvacant => ⟨fun ⟨_, hok⟩ => hD_of_ok hok, fun hD => ?_⟩, hwrite, ?_, ?_⟩
  · obtain ⟨p, hp, hfits, -⟩ := hplan hD
    obtain ⟨t', hperform⟩ := hfits.perform hvacant
    exact ⟨t', write_eq_ok_iff.mpr ⟨p, hp, hperform⟩⟩
  · intro hD f t' herror
    obtain ⟨p, hp, hfits, -⟩ := hplan hD
    rw [write_eq_perform hp] at herror
    exact hfits.misplaces t f t' herror
  · intro t' hok
    obtain ⟨p, hp, -, hQ⟩ := hplan (hD_of_ok hok)
    obtain ⟨p', hp', hperform⟩ := write_eq_ok_iff.mp hok
    obtain rfl := Except.ok.inj (hp.symm.trans hp')
    have hextends := Plan.extends_perform hperform
    have hwritten := Plan.written_of_perform hperform (Store.le_refl _)
    rw [← hextends.numCells] at hwritten
    exact ⟨hextends, hD_of_ok hok, hQ t' hextends hwritten⟩

theorem error_cases {f : Failure} (h : i.WritesIff t D C runs Q) (herror : i.write t = .error f t') :
    (∃ cause, C cause ∧ f = .fault cause) ∨ f.Misplaced := by
  by_cases hD : D
  · exact .inr (h.misplaced hD f t' herror)
  · obtain ⟨cause, hC, hrefused⟩ := h.refused hD
    rw [hrefused] at herror
    cases herror
    exact .inl ⟨cause, hC, rfl⟩

theorem weaken {R : Trace → Prop} (h : i.WritesIff t D C runs Q) (hQ : ∀ t', t.Extends t' → Q t' → R t') :
    i.WritesIff t D C runs R where
  succeeds_iff := h.succeeds_iff
  refused := h.refused
  misplaced := h.misplaced
  written t' hok := by
    obtain ⟨hextends, hD, ht'⟩ := h.written t' hok
    exact ⟨hextends, hD, hQ t' hextends ht'⟩

end WritesIff

end Instruction

end ForeignCurve
