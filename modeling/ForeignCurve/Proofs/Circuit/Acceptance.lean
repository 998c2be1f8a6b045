import ForeignCurve.Proofs.Circuit.Emission
import ForeignCurve.Proofs.Constraint.Store

namespace ForeignCurve

def Table.store (t : Table Native) (l : Layout) : Store :=
  fun i => t.get? (l.cell i)

namespace Expr

def value? (t : Table Native) (e : Expr) : Option Native :=
  (e.evaluate t).toOption

theorem toOption_bind {ε α β : Type} (x : Except ε α) (f : α → Except ε β) :
    (x >>= f).toOption = x.toOption >>= fun a => (f a).toOption := by
  cases x <;> rfl

theorem hom_value? (t : Table Native) : Arith.Hom (value? t) where
  const _ := rfl
  add a b := by
    change (evaluate t (sum a b)).toOption = _
    rw [evaluate, toOption_bind]
    refine bind_congr fun x => ?_
    rw [toOption_bind]
    rfl
  sub a b := by
    change (evaluate t (difference a b)).toOption = _
    rw [evaluate, toOption_bind]
    refine bind_congr fun x => ?_
    rw [toOption_bind]
    rfl
  neg a := by
    change (evaluate t (negation a)).toOption = _
    rw [evaluate, toOption_bind]
    rfl
  mul a b := by
    change (evaluate t (product a b)).toOption = _
    rw [evaluate, toOption_bind]
    refine bind_congr fun x => ?_
    rw [toOption_bind]
    rfl

theorem value?_cell (t : Table Native) (c : Cell) : (cell c).value? t = t.get? c := by
  unfold value? evaluate
  cases t.get? c <;> rfl

theorem evaluate_eq_ok_iff {t : Table Native} {e : Expr} {x : Native} :
    e.evaluate t = .ok x ↔ e.value? t = some x := by
  unfold value?
  cases e.evaluate t with
  | ok y => simp [Except.toOption]
  | error c => simp [Except.toOption]

end Expr

namespace Circuit

structure Satisfied (c : Circuit) (t : Table Native) : Prop where
  gates : ∀ gate ∈ c.gates.toList, ∀ e ∈ gate, e.value? t = some 0
  lookups : ∀ lookup ∈ c.lookups.toList, ∃ xs : List Native,
    lookup.2.map (Expr.value? t) = xs.map some ∧ lookup.1.contains (xs.map (·.val))
  copies : ∀ copy ∈ c.copies.toList, ∃ x, t.get? copy.1 = some x ∧ t.get? copy.2 = some x

theorem constraintViolation_eq_none_iff {t : Table Native} {gate constraint : Nat} {e : Expr} :
    constraintViolation t gate constraint e = none ↔ e.value? t = some 0 := by
  unfold constraintViolation
  rw [← Expr.evaluate_eq_ok_iff]
  cases e.evaluate t with
  | ok x => by_cases hx : x = 0 <;> simp [hx]
  | error c => simp

theorem mapM_evaluate_eq_ok_iff {t : Table Native} {es : List Expr} {xs : List Native} :
    es.mapM (·.evaluate t) = .ok xs ↔ es.map (Expr.value? t) = xs.map some := by
  rw [mapM_eq_ok_iff]
  constructor
  · intro h
    induction h with
    | nil => rfl
    | cons he _ ih => rw [List.map_cons, ih, Expr.evaluate_eq_ok_iff.mp he, List.map_cons]
  · intro h
    induction es generalizing xs with
    | nil =>
      cases xs with
      | nil => exact .nil
      | cons x xs => simp at h
    | cons e es ih =>
      cases xs with
      | nil => simp at h
      | cons x xs =>
        rw [List.map_cons, List.map_cons, List.cons.injEq] at h
        exact .cons (Expr.evaluate_eq_ok_iff.mpr h.1) (ih h.2)

theorem lookupViolation_eq_none_iff {t : Table Native} {lookup : Nat} {table : LookupTable}
    {es : List Expr} :
    lookupViolation t lookup table es = none ↔ ∃ xs : List Native,
      es.map (Expr.value? t) = xs.map some ∧ table.contains (xs.map (·.val)) := by
  unfold lookupViolation
  simp only [← mapM_evaluate_eq_ok_iff]
  cases es.mapM (·.evaluate t) with
  | ok xs => by_cases hx : table.contains (xs.map (·.val)) <;> simp [hx]
  | error c => simp

theorem copyViolation_eq_none_iff {t : Table Native} {a b : Cell} :
    copyViolation t a b = none ↔ ∃ x, t.get? a = some x ∧ t.get? b = some x := by
  unfold copyViolation
  cases t.get? a with
  | none => simp
  | some x =>
    cases t.get? b with
    | none => simp
    | some y => by_cases h : x = y <;> simp [h, eq_comm]

theorem filterMap_zipIdx_eq_nil_iff {α β : Type} {f : α × Nat → Option β} {P : α → Prop}
    (hf : ∀ a i, f (a, i) = none ↔ P a) (as : List α) :
    as.zipIdx.filterMap f = [] ↔ ∀ a ∈ as, P a := by
  rw [List.filterMap_eq_nil_iff]
  constructor
  · intro h a ha
    obtain ⟨i, hi, rfl⟩ := List.getElem_of_mem ha
    exact (hf _ i).mp (h (as[i], i) (List.mem_zipIdx_iff_getElem?.mpr (List.getElem?_eq_getElem hi)))
  · rintro h ⟨a, i⟩ ha
    exact (hf a i).mpr (h a (List.fst_mem_of_mem_zipIdx ha))

theorem violations_eq_nil_iff {c : Circuit} {t : Table Native} :
    c.violations t = [] ↔ c.Satisfied t := by
  have hgate (i : Nat) (gate : List Expr) :
      gateViolations t i gate = [] ↔ ∀ e ∈ gate, e.value? t = some 0 :=
    filterMap_zipIdx_eq_nil_iff (fun _ _ => constraintViolation_eq_none_iff) gate
  unfold violations
  rw [List.append_eq_nil_iff, List.append_eq_nil_iff, List.flatMap_eq_nil_iff,
    filterMap_zipIdx_eq_nil_iff (fun _ _ => lookupViolation_eq_none_iff),
    List.filterMap_eq_nil_iff]
  simp only [copyViolation_eq_none_iff]
  constructor
  · rintro ⟨⟨hgates, hlookups⟩, hcopies⟩
    refine ⟨?_, hlookups, hcopies⟩
    intro gate hmem
    obtain ⟨i, hi, rfl⟩ := List.getElem_of_mem hmem
    exact (hgate i _).mp (hgates (c.gates.toList[i], i)
      (List.mem_zipIdx_iff_getElem?.mpr (List.getElem?_eq_getElem hi)))
  · intro h
    refine ⟨⟨?_, h.lookups⟩, h.copies⟩
    rintro ⟨gate, i⟩ hmem
    exact (hgate i gate).mpr (h.gates gate (List.fst_mem_of_mem_zipIdx hmem))

theorem check_eq_ok_iff {c : Circuit} {t : Table Native} :
    c.check t = .ok () ↔ c.Satisfied t := by
  rw [← violations_eq_nil_iff]
  unfold check
  cases c.violations t <;> simp

section Parts

variable {t : Table Native} {l : Layout}

theorem satisfied_empty (t : Table Native) : empty.Satisfied t :=
  ⟨by simp [empty], by simp [empty], by simp [empty]⟩

theorem satisfied_append_iff {c c' : Circuit} :
    (c ++ c').Satisfied t ↔ c.Satisfied t ∧ c'.Satisfied t := by
  rw [append_def]
  constructor
  · rintro ⟨hgates, hlookups, hcopies⟩
    simp only [Array.toList_append, List.forall_mem_append] at hgates hlookups hcopies
    exact ⟨⟨hgates.1, hlookups.1, hcopies.1⟩, hgates.2, hlookups.2, hcopies.2⟩
  · rintro ⟨h, h'⟩
    refine ⟨?_, ?_, ?_⟩
    · rw [Array.toList_append, List.forall_mem_append]
      exact ⟨h.gates, h'.gates⟩
    · rw [Array.toList_append, List.forall_mem_append]
      exact ⟨h.lookups, h'.lookups⟩
    · rw [Array.toList_append, List.forall_mem_append]
      exact ⟨h.copies, h'.copies⟩

theorem satisfied_concat_iff {cs : List Circuit} :
    (concat cs).Satisfied t ↔ ∀ c ∈ cs, c.Satisfied t := by
  induction cs with
  | nil => simpa [concat] using satisfied_empty t
  | cons c cs ih => rw [concat_cons, satisfied_append_iff, ih, List.forall_mem_cons]

theorem forall_mem_zip_indices {P : Nat × Nat → Prop} {a b : CellSlice} (h : a.len = b.len) :
    (∀ p ∈ a.indices.zip b.indices, P p) ↔ ∀ i < a.len, P (a.start + i, b.start + i) := by
  unfold CellSlice.indices
  constructor
  · intro hall i hi
    apply hall
    rw [List.mem_iff_getElem]
    refine ⟨i, by simp; omega, ?_⟩
    simp
  · intro hall p hp
    obtain ⟨i, hi, rfl⟩ := List.getElem_of_mem hp
    rw [List.length_zip, List.length_range', List.length_range'] at hi
    have hpi := hall i (by omega)
    simpa using hpi

theorem forall_mem_copies_iff {P : Cell × Cell → Prop} {as : List (Assertion Expr)} :
    (∀ copy ∈ Assertion.copies l as, P copy) ↔ ∀ a b, .link a b ∈ as →
      ∀ p ∈ a.indices.zip b.indices, P (l.cell p.1, l.cell p.2) := by
  unfold Assertion.copies
  constructor
  · intro h a b hab p hp
    exact h _ (List.mem_flatMap.mpr ⟨(a, b), Assertion.mem_links.mpr hab, List.mem_map_of_mem hp⟩)
  · intro h copy hcopy
    obtain ⟨⟨a, b⟩, hab, hcopy⟩ := List.mem_flatMap.mp hcopy
    obtain ⟨p, hp, rfl⟩ := List.mem_map.mp hcopy
    exact h a b (Assertion.mem_links.mp hab) p hp

theorem satisfied_ofAssertions_iff {as : List (Assertion Expr)} (h : Assertion.Linked as) :
    (ofAssertions l as).Satisfied t ↔ ∀ a ∈ as, (a.map (Expr.value? t)).Holds (t.store l) := by
  have hgates : (∀ gate ∈ (ofAssertions l as).gates.toList, ∀ e ∈ gate, e.value? t = some 0) ↔
      ∀ e ∈ Assertion.vanishing as, e.value? t = some 0 := by
    unfold ofAssertions
    dsimp only
    split
    · -- no gate is made of no constraints
      next hempty =>
      rw [List.isEmpty_iff] at hempty
      simp [hempty]
    · simp
  constructor
  · rintro ⟨hgate, hlookups, hcopies⟩ a ha
    cases a with
    | vanishes value => exact hgates.mp hgate value (Assertion.mem_vanishing.mpr ha)
    | lookup table values => exact hlookups (table, values) (Assertion.mem_lookups.mpr ha)
    | link a b =>
      have hlen : a.len = b.len := h (a, b) (Assertion.mem_links.mpr ha)
      exact ⟨hlen, (forall_mem_zip_indices hlen).mp (forall_mem_copies_iff.mp hcopies a b ha)⟩
  · intro hall
    refine ⟨hgates.mpr ?_, ?_, ?_⟩
    · exact fun e he => hall _ (Assertion.mem_vanishing.mp he)
    · exact fun lookup hlookup => hall _ (Assertion.mem_lookups.mp hlookup)
    · refine forall_mem_copies_iff.mpr fun a b hab => ?_
      have hlink := hall _ hab
      exact (forall_mem_zip_indices hlink.1).mpr hlink.2

end Parts

end Circuit

namespace Chip

variable {t : Table Native} {l : Layout} {n : Nat}

theorem map_cells_empty (t : Table Native) (l : Layout) (n : Nat) :
    (Emitter.empty l n).cells.map (Expr.value? t) = (t.store l).cells n := by
  simp only [Emitter.cells, Emitter.empty, Store.cells, Array.map_ofFn]
  congr 1
  funext i
  exact Expr.value?_cell t _

theorem satisfied_circuit_iff {i : Instruction} {c : Circuit} (h : i.circuit l n = .ok c)
    (t : Table Native) : c.Satisfied t ↔ i.Holds (t.store l) n := by
  obtain ⟨as, has, hlinked, rfl⟩ := Instruction.circuit_eq_ok_iff.mp h
  have hmap := i.assertions_map (Expr.hom_value? t) (Emitter.empty l n).cells
  rw [map_cells_empty, has, map_ok] at hmap
  rw [Circuit.satisfied_ofAssertions_iff hlinked, Instruction.Holds, hmap]
  constructor
  · intro hall
    exact ⟨_, rfl, List.forall_mem_map.mpr hall⟩
  · rintro ⟨as', has', hall⟩
    cases has'
    exact List.forall_mem_map.mp hall

theorem exists_circuit {i : Instruction} (h : i.Holds (t.store l) n) : ∃ c, i.circuit l n = .ok c := by
  obtain ⟨as', has', hall⟩ := h
  rw [← map_cells_empty, i.assertions_map (Expr.hom_value? t), map_eq_ok_iff] at has'
  obtain ⟨as, has, rfl⟩ := has'
  refine ⟨_, Instruction.circuit_eq_ok_iff.mpr ⟨as, has, ?_, rfl⟩⟩
  intro p hp
  exact (hall _ (List.mem_map_of_mem (Assertion.mem_links.mp hp))).1

theorem check_emit_iff {c : Chip} {circuit : Circuit} (h : c.manifest.required ≤ l.width)
    (hemit : c.emit l.width = .ok circuit) (t : Table Native) :
    circuit.check t = .ok () ↔ ∀ i ∈ c.instructions.toList, i.Holds (t.store l) c.numCells := by
  obtain ⟨cs, hcs, hcircuit⟩ := (emit_eq_ok_iff h).mp hemit
  subst hcircuit
  clear hemit
  rw [Circuit.check_eq_ok_iff, Circuit.satisfied_concat_iff]
  generalize c.instructions.toList = is at hcs
  induction hcs with
  | nil => simp
  | cons hc _ ih =>
    rw [List.forall_mem_cons, List.forall_mem_cons, satisfied_circuit_iff hc, ih]

theorem exists_emit {c : Chip} (h : c.manifest.required ≤ l.width)
    (hholds : ∀ i ∈ c.instructions.toList, i.Holds (t.store l) c.numCells) :
    ∃ circuit, c.emit l.width = .ok circuit := by
  have hcs : ∃ cs, List.Forall₂ (fun i c' => i.circuit l c.numCells = .ok c')
      c.instructions.toList cs := by
    generalize c.instructions.toList = is at hholds
    induction is with
    | nil => exact ⟨[], .nil⟩
    | cons i is ih =>
      rw [List.forall_mem_cons] at hholds
      obtain ⟨c', hc'⟩ := exists_circuit hholds.1
      obtain ⟨cs, hcs⟩ := ih hholds.2
      exact ⟨c' :: cs, .cons hc' hcs⟩
  obtain ⟨cs, hcs⟩ := hcs
  exact ⟨_, (emit_eq_ok_iff h).mpr ⟨cs, hcs, rfl⟩⟩

def Accepts (c : Chip) (l : Layout) (t : Table Native) : Prop :=
  ∃ circuit, c.emit l.width = .ok circuit ∧ circuit.check t = .ok ()

theorem accepts_iff {c : Chip} (h : c.manifest.required ≤ l.width) :
    c.Accepts l t ↔ ∀ i ∈ c.instructions.toList, i.Holds (t.store l) c.numCells := by
  constructor
  · rintro ⟨circuit, hemit, ht⟩
    exact (check_emit_iff h hemit t).mp ht
  · intro hholds
    obtain ⟨circuit, hemit⟩ := exists_emit h hholds
    exact ⟨circuit, hemit, (check_emit_iff h hemit t).mpr hholds⟩

end Chip

end ForeignCurve
