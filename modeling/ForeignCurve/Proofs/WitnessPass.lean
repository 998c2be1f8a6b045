import ForeignCurve.Proofs.Circuit.Acceptance
import ForeignCurve.Proofs.Instruction.Written
import ForeignCurve.Proofs.Run

/-!
A witness pass that succeeds satisfies everything that it computed, whatever was written beforehand.
What the circuit then still reports is about values that were chosen from outside: a lookup, a cell
that must be boolean or that is compared with a constant, or a cell that nobody wrote.
-/

namespace ForeignCurve

namespace Circuit

variable {t : Table Native} {l : Layout} {c c' : Circuit}

def CopiesAgree (c : Circuit) (t : Table Native) : Prop :=
  ∀ copy ∈ c.copies.toList, ∀ x y, t.get? copy.1 = some x → t.get? copy.2 = some y → x = y

def GatesVanish (c : Circuit) (t : Table Native) : Prop :=
  ∀ gate ∈ c.gates.toList, ∀ e ∈ gate, ∀ x, e.evaluate t = .ok x → x = 0

theorem copiesAgree_concat {cs : List Circuit} (h : ∀ c ∈ cs, c.CopiesAgree t) :
    (concat cs).CopiesAgree t := by
  induction cs with
  | nil => simp [CopiesAgree, concat, empty]
  | cons c cs ih =>
    rw [List.forall_mem_cons] at h
    unfold CopiesAgree
    rw [concat_cons, append_def, Array.toList_append, List.forall_mem_append]
    exact ⟨h.1, ih h.2⟩

theorem copiesAgree_ofAssertions {as : List (Assertion Expr)}
    (h : ∀ a ∈ as, (a.map (Expr.value? t)).Consistent (t.store l)) :
    (ofAssertions l as).CopiesAgree t := by
  refine forall_mem_copies_iff.mpr fun a b hab => ?_
  obtain ⟨hlen, hall⟩ := h _ hab
  exact (forall_mem_zip_indices hlen).mpr hall

theorem gatesVanish_ofAssertions {as : List (Assertion Expr)}
    (h : ∀ a ∈ as, (a.map (Expr.value? t)).Consistent (t.store l)) :
    (ofAssertions l as).GatesVanish t := by
  intro gate hgate e he x hx
  unfold ofAssertions at hgate
  dsimp only at hgate
  split at hgate
  · simp at hgate
  · obtain rfl : gate = Assertion.vanishing as := by simpa using hgate
    exact h _ (Assertion.mem_vanishing.mp he) x (Expr.evaluate_eq_ok_iff.mp hx)

theorem exists_split {cs : List Circuit} {g : Nat} (h : g < (concat cs).gates.size) :
    ∃ cs₁ c cs₂, cs = cs₁ ++ c :: cs₂ ∧ (concat cs₁).gates.size ≤ g ∧
      g < (concat (cs₁ ++ [c])).gates.size := by
  induction cs generalizing g with
  | nil => simp [concat, empty] at h
  | cons c cs ih =>
    rw [concat_cons, append_def, Array.size_append] at h
    by_cases hc : g < c.gates.size
    · exact ⟨[], c, cs, rfl, Nat.zero_le g, by simpa [concat_singleton] using hc⟩
    · obtain ⟨cs₁, d, cs₂, rfl, hle, hlt⟩ := ih (g := g - c.gates.size) (by omega)
      refine ⟨c :: cs₁, d, cs₂, rfl, ?_, ?_⟩
      · rw [concat_cons, append_def, Array.size_append]
        omega
      · rw [List.cons_append, concat_cons, append_def, Array.size_append]
        omega

theorem mem_of_getElem?_concat {cs₁ cs₂ : List Circuit} {g : Nat} {gate : List Expr}
    (hle : (concat cs₁).gates.size ≤ g) (hlt : g < (concat (cs₁ ++ [c])).gates.size)
    (h : (concat (cs₁ ++ c :: cs₂)).gates[g]? = some gate) : gate ∈ c.gates.toList := by
  rw [concat_append, concat_singleton, append_def, Array.size_append] at hlt
  rw [concat_append, concat_cons, append_def, Array.getElem?_append_right hle, append_def,
    Array.getElem?_append_left (by omega)] at h
  exact Array.mem_toList_iff.mpr (Array.mem_of_getElem? h)

theorem constraintViolation_eq_some {gate constraint : Nat} {e : Expr} {v : Violation}
    (h : constraintViolation t gate constraint e = some v) :
    (∃ cell, v = .unassigned cell) ∨
      v = .gate gate constraint ∧ ∃ x, e.evaluate t = .ok x ∧ x ≠ 0 := by
  unfold constraintViolation at h
  split at h
  · next x hx =>
    split at h
    · contradiction
    · next hne =>
      cases h
      exact .inr ⟨rfl, x, hx, hne⟩
  · cases h
    exact .inl ⟨_, rfl⟩

theorem lookupViolation_eq_some {lookup : Nat} {table : LookupTable} {es : List Expr} {v : Violation}
    (h : lookupViolation t lookup table es = some v) :
    (∃ cell, v = .unassigned cell) ∨ v = .lookup table lookup := by
  unfold lookupViolation at h
  split at h
  · split at h
    · contradiction
    · cases h
      exact .inr rfl
  · cases h
    exact .inl ⟨_, rfl⟩

theorem copyViolation_eq_some {a b : Cell} {v : Violation} (h : copyViolation t a b = some v) :
    (∃ cell, v = .unassigned cell) ∨
      v = .copy a b ∧ ∃ x y, t.get? a = some x ∧ t.get? b = some y ∧ x ≠ y := by
  unfold copyViolation at h
  split at h
  · next x y hx hy =>
    split at h
    · contradiction
    · next hne =>
      cases h
      exact .inr ⟨rfl, x, y, hx, hy, hne⟩
  · cases h
    exact .inl ⟨_, rfl⟩
  · cases h
    exact .inl ⟨_, rfl⟩

theorem of_mem_violations {v : Violation} (h : v ∈ c.violations t) :
    match v with
    | .gate g _ => ∃ gate, c.gates[g]? = some gate ∧ ∃ e ∈ gate, ∃ x, e.evaluate t = .ok x ∧ x ≠ 0
    | .copy a b => (a, b) ∈ c.copies.toList ∧
      ∃ x y, t.get? a = some x ∧ t.get? b = some y ∧ x ≠ y
    | .lookup _ _ | .unassigned _ => True := by
  unfold violations at h
  rw [List.mem_append, List.mem_append, List.mem_flatMap, List.mem_filterMap,
    List.mem_filterMap] at h
  obtain (⟨⟨gate, i⟩, hgate, h⟩ | ⟨⟨lookup, i⟩, -, h⟩) | ⟨⟨a, b⟩, hcopy, h⟩ := h
  · obtain ⟨⟨e, j⟩, he, h⟩ := List.mem_filterMap.mp h
    obtain ⟨cell, rfl⟩ | ⟨rfl, hx⟩ := constraintViolation_eq_some h
    · trivial
    · have hget := List.mem_zipIdx_iff_getElem?.mp hgate
      rw [Array.getElem?_toList] at hget
      exact ⟨gate, hget, e, List.fst_mem_of_mem_zipIdx he, hx⟩
  · obtain ⟨cell, rfl⟩ | rfl := lookupViolation_eq_some h
    · trivial
    · trivial
  · obtain ⟨cell, rfl⟩ | ⟨rfl, hxy⟩ := copyViolation_eq_some h
    · trivial
    · exact ⟨hcopy, hxy⟩

end Circuit

namespace Instruction

variable {i : Instruction} {l : Layout} {n : Nat} {c : Circuit} {t₀ t : Trace}

theorem computes_eq_false (h : i.computes = false) :
    (∃ cells, i = .boolean cells) ∨ ∃ target values, i = .constant target values false := by
  cases i with
  | boolean cells => exact .inl ⟨cells, rfl⟩
  | constant target values assign =>
    obtain rfl : assign = false := h
    exact .inr ⟨target, values, rfl⟩
  | _ => contradiction

theorem copiesAgree_of_not_computes (hi : i.computes = false) (hc : i.circuit l n = .ok c)
    (t : Table Native) : c.CopiesAgree t := by
  obtain ⟨as, has, -, rfl⟩ := circuit_eq_ok_iff.mp hc
  have hlink : ∀ a b, .link a b ∉ as := by
    obtain ⟨cells, rfl⟩ | ⟨target, values, rfl⟩ := computes_eq_false hi
    · obtain ⟨vs, -, h⟩ := bind_eq_ok_iff.mp has
      cases h
      simp
    · obtain ⟨vs, -, h⟩ := bind_eq_ok_iff.mp has
      obtain ⟨pairs, -, h⟩ := bind_eq_ok_iff.mp h
      cases h
      simp
  exact Circuit.forall_mem_copies_iff.mpr fun a b hab => absurd hab (hlink a b)

theorem consistent_circuit {is : List Instruction} (hi : i.computes) (hmem : i ∈ is)
    (hsteps : Steps t₀ is t) (hn : t₀.numCells = n) (hc : i.circuit t₀.layout n = .ok c) :
    c.GatesVanish t.table ∧ c.CopiesAgree t.table := by
  obtain ⟨t₁, t₂, h₁, hwrite, h₂⟩ := hsteps.exists_write hmem
  obtain ⟨as, has, -, rfl⟩ := circuit_eq_ok_iff.mp hc
  have hstore : t.store = t.table.store t₀.layout := by
    rw [← hsteps.toExtends.layout]
    rfl
  have hmap := i.assertions_map (Expr.hom_value? t.table) (Emitter.empty t₀.layout n).cells
  rw [Chip.map_cells_empty, has, map_ok, ← hn, ← h₁.numCells, ← hstore] at hmap
  have hall := consistent_of_write hi hwrite h₂.store hmap
  rw [List.forall_mem_map, hstore] at hall
  exact ⟨Circuit.gatesVanish_ofAssertions hall, Circuit.copiesAgree_ofAssertions hall⟩

end Instruction

namespace Chip

/-- The schedule in front of the instruction does not emit the gate of this number, and with it it does. -/
def EmitsGate (c : Chip) (width : Nat) (i : Instruction) (g : Nat) : Prop :=
  ∃ is js before after, c.instructions.toList = is ++ i :: js ∧
    emit { c with instructions := is.toArray } width = .ok before ∧
    emit { c with instructions := (is ++ [i]).toArray } width = .ok after ∧
    before.gates.size ≤ g ∧ g < after.gates.size

section Emitted

variable {c : Chip} {l : Layout} {circuit : Circuit} {i : Instruction} {g : Nat}
  (hwidth : c.manifest.required ≤ l.width) (hemit : c.emit l.width = .ok circuit)

include hwidth hemit

theorem EmitsGate.exists_circuit (h : c.EmitsGate l.width i g) :
    i ∈ c.instructions.toList ∧ ∃ c', i.circuit l c.numCells = .ok c' ∧
      ∀ gate, circuit.gates[g]? = some gate → gate ∈ c'.gates.toList := by
  obtain ⟨is, js, before, after, hsplit, hbefore, hafter, hle, hlt⟩ := h
  obtain ⟨cs, hcs, rfl⟩ := (emit_eq_ok_iff hwidth).mp hemit
  rw [hsplit] at hcs
  obtain ⟨cs₁, _, rfl, hcs₁, hrest⟩ := forall₂_append_left hcs
  cases hrest with
  | @cons _ c' _ cs₂ hi hjs =>
    -- the circuits of the schedules that end before and at `i` are made of the same parts
    obtain ⟨bs, hbs, rfl⟩ := (emit_eq_ok_iff (c := { c with instructions := is.toArray }) hwidth).mp hbefore
    obtain rfl := eq_of_forall₂_ok hcs₁ hbs
    obtain ⟨bs, hbs, rfl⟩ :=
      (emit_eq_ok_iff (c := { c with instructions := (is ++ [i]).toArray }) hwidth).mp hafter
    obtain rfl := eq_of_forall₂_ok (List.rel_append hcs₁ (.cons hi .nil)) hbs
    rw [hsplit]
    exact ⟨by simp, c', hi, fun gate hgate => Circuit.mem_of_getElem?_concat hle hlt hgate⟩

theorem exists_emitsGate (h : g < circuit.gates.size) : ∃ i, c.EmitsGate l.width i g := by
  obtain ⟨cs, hcs, rfl⟩ := (emit_eq_ok_iff hwidth).mp hemit
  obtain ⟨cs₁, c', cs₂, rfl, hle, hlt⟩ := Circuit.exists_split h
  obtain ⟨is, _, hsplit, his, hrest⟩ := forall₂_append_left hcs.flip
  cases hrest with
  | @cons _ i _ js hi hjs =>
    have hprefix {is : List Instruction} {cs : List Circuit}
        (h : List.Forall₂ (fun i c' => i.circuit l c.numCells = .ok c') is cs) :
        emit { c with instructions := is.toArray } l.width = .ok (Circuit.concat cs) :=
      (emit_eq_ok_iff (c := { c with instructions := is.toArray }) hwidth).mpr ⟨cs, h, rfl⟩
    exact ⟨i, is, js, _, _, hsplit, hprefix his.flip,
      hprefix (List.rel_append his.flip (.cons hi .nil)), hle, hlt⟩

end Emitted

/--
What a successful witness pass leaves to report. No gate of an instruction that computes its result
evaluates to a value other than zero and no copy is of different values, so a violation is of a lookup,
of a boolean or of a constant that is only asserted, or it names a cell that nobody wrote.
-/
theorem violations_of_writeWitness {c : Chip} {l : Layout} {circuit : Circuit} {t₀ t : Trace}
    (hwidth : c.manifest.required ≤ l.width) (hlayout : t₀.layout = l)
    (hcells : t₀.numCells = c.numCells) (hwrite : c.writeWitness t₀ = .ok () t)
    (hemit : c.emit l.width = .ok circuit) :
    (∀ i g gate, c.EmitsGate l.width i g → i.computes → circuit.gates[g]? = some gate →
      ∀ e ∈ gate, ∀ x, e.evaluate t.table = .ok x → x = 0) ∧
    (∀ copy ∈ circuit.copies.toList, ∀ x y, t.table.get? copy.1 = some x →
      t.table.get? copy.2 = some y → x = y) ∧
    ∀ v ∈ circuit.violations t.table, match v with
      | .gate g _ => ∃ i, c.EmitsGate l.width i g ∧ ((∃ cells, i = .boolean cells) ∨
          ∃ target values, i = .constant target values false)
      | .copy _ _ => False
      | .lookup _ _ | .unassigned _ => True := by
  subst hlayout
  have hsteps := writeWitness_eq_ok_iff.mp hwrite
  -- Whether the witness pass saw to an instruction is decided by `computes`: such a gate vanishes, so a
  -- gate that is violated belongs to one of the two instructions that only assert.
  have hgates : ∀ i g gate, c.EmitsGate t₀.layout.width i g → i.computes →
      circuit.gates[g]? = some gate → ∀ e ∈ gate, ∀ x, e.evaluate t.table = .ok x → x = 0 := by
    intro i g gate hi hcomputes hgate
    obtain ⟨hmem, c', hc', hall⟩ := hi.exists_circuit hwidth hemit
    exact (Instruction.consistent_circuit hcomputes hmem hsteps hcells hc').1 gate (hall gate hgate)
  have hcopies : circuit.CopiesAgree t.table := by
    obtain ⟨cs, hcs, rfl⟩ := (emit_eq_ok_iff hwidth).mp hemit
    refine Circuit.copiesAgree_concat fun c' hmem => ?_
    obtain ⟨i, hi, hc'⟩ := exists_of_mem_right hcs hmem
    cases hcomputes : i.computes with
    | true => exact (Instruction.consistent_circuit hcomputes hi hsteps hcells hc').2
    | false => exact Instruction.copiesAgree_of_not_computes hcomputes hc' t.table
  refine ⟨hgates, hcopies, fun v hv => ?_⟩
  have hviolated := Circuit.of_mem_violations hv
  cases v with
  | gate g j =>
    obtain ⟨gate, hgate, e, he, x, hx, hne⟩ := hviolated
    obtain ⟨i, hi⟩ := exists_emitsGate hwidth hemit (Array.getElem?_eq_some_iff.mp hgate).1
    refine ⟨i, hi, Instruction.computes_eq_false ?_⟩
    by_contra hcomputes
    exact hne (hgates i g gate hi (by simpa using hcomputes) hgate e he x hx)
  | copy a b =>
    obtain ⟨hcopy, x, y, hx, hy, hne⟩ := hviolated
    exact hne (hcopies _ hcopy x y hx hy)
  | lookup | unassigned => trivial

theorem violations_of_writeWitness_outOfRange :
    let P : FieldParams := ⟨4, 2, 2, 32, 251⟩
    let m : Identity P := ⟨⟨0⟩, ⟨2⟩, ⟨4⟩, ⟨6⟩, ⟨⟨8, 2⟩, 2⟩, ⟨⟨10, 2⟩, 2⟩⟩
    let c : Chip := ⟨#[.range 4 ⟨0, 2⟩, .fieldProduct P m], 12, ⟨2⟩⟩
    let l : Layout := ⟨4, by decide⟩
    let t₀ : Trace := ⟨12, l, #[some 20, some 1, some 3, some 0], by decide⟩
    ∃ t circuit, c.manifest.required ≤ l.width ∧ t₀.layout = l ∧ t₀.numCells = c.numCells ∧
      c.writeWitness t₀ = .ok () t ∧ c.emit l.width = .ok circuit ∧
      ∀ v ∈ circuit.violations t.table, match v with
        | .gate g _ => ∃ i, c.EmitsGate l.width i g ∧ ((∃ cells, i = .boolean cells) ∨
            ∃ target values, i = .constant target values false)
        | .copy _ _ => False
        | .lookup _ _ | .unassigned _ => True := by
  -- the lowest limb of `36` is `20` here, which is out of range
  intro P m c l t₀
  have hwrites : (match c.writeWitness t₀ with
      | .ok () _ => true
      | .error _ _ => false) = true := by decide +kernel
  have hemits : (match c.emit l.width with
      | .ok _ => true
      | .error _ => false) = true := by decide +kernel
  have hwidth : c.manifest.required ≤ l.width := by decide
  cases hwrite : c.writeWitness t₀ with
  | error f t => simp [hwrite] at hwrites
  | ok u t =>
    cases hemit : c.emit l.width with
    | error f => simp [hemit] at hemits
    | ok circuit =>
      exact ⟨t, circuit, hwidth, rfl, rfl, rfl, rfl,
        (violations_of_writeWitness hwidth rfl rfl hwrite hemit).2.2⟩

end Chip

end ForeignCurve
