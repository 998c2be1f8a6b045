import ForeignCurve.Proofs.Curve.PrimeOrder
import ForeignCurve.Proofs.Inlet
import ForeignCurve.Proofs.LimbAddition

/-!
The membership check accepts exactly the canonical residues. Its circuit is satisfied by the solutions of
one limb sum, that of the input and the complement of the modulus, and there is a solution only for a
number below the modulus, and then only one.
-/

namespace ForeignCurve

variable {P : FieldParams} {σ τ : Store} {n m : Nat} {xs ys zs zs' cs cs' : List Native} {t : Trace}

namespace FieldParams

def membershipSum (P : FieldParams) : LimbSum :=
  .recorded ⟨0, P.limbs⟩ (.const (Limbs.encode P.limbBits P.limbs (2 ^ P.bits - P.modulus)))
    (.cells ⟨P.limbs, P.limbs⟩) P.limbBits (P.limbs + P.limbs)

def membershipRules (P : FieldParams) : List Instruction :=
  Record.fieldRules P 0 ++
    ((Record.ruleInstruction? (.range P.limbBits) ⟨P.limbs, P.limbs⟩).toList ++
      (Record.ruleInstruction? .boolean ⟨P.limbs + P.limbs, P.limbs - 1⟩).toList)

def membershipCells (P : FieldParams) : Nat :=
  P.limbs + (P.limbs + (P.limbs - 1))

theorem passive_membershipRules : ∀ i ∈ P.membershipRules, i.Passive := by
  intro i hi
  unfold membershipRules at hi
  rw [List.mem_append, List.mem_append] at hi
  obtain hi | hi | hi := hi
  · exact Record.passive_fieldRules i hi
  · exact Record.passive_ruleInstruction? _ _ i hi
  · exact Record.passive_ruleInstruction? _ _ i hi

variable [P.HasHeadroom]

theorem holds_membership_iff :
    (∀ i ∈ P.membershipRules ++ [.limbSum P.membershipSum], i.Holds σ P.membershipCells) ↔
      ∃ xs zs cs, P.membershipSum.Solution σ P.membershipCells xs (P.digits (2 ^ P.bits - P.modulus))
        zs cs := by
  unfold membershipRules membershipCells Record.fieldRules
  rw [List.forall_mem_append, List.forall_mem_append, List.forall_mem_append, List.forall_mem_singleton,
    Instruction.holds_rule_range_iff (by omega), Instruction.holds_rule_range_iff (by omega),
    Instruction.holds_rule_boolean_iff (by omega)]
  constructor
  · rintro ⟨⟨⟨xs, hxs, hrange⟩, ⟨zs, hzs, hrange'⟩, cs, hcs, hbool⟩, hsum⟩
    exact ⟨xs, zs, cs, hxs, LimbOperand.reads_const _ _ _, hzs, hcs, hrange, P.inRange_digits _, hrange',
      hbool, hsum⟩
  · rintro ⟨xs, zs, cs, h⟩
    exact ⟨⟨⟨xs, h.a, h.small_a⟩, ⟨zs, h.result, h.small_result⟩, cs, h.carries, h.boolean⟩, h.holds⟩

section Solution

variable (h : P.membershipSum.Solution σ n xs (P.digits (2 ^ P.bits - P.modulus)) zs cs)

include h

theorem lt_of_solution [hmod : NeZero P.modulus] : P.decode xs < P.modulus := by
  have hsum := h.decode_add LimbSum.limbBits_le limbs_pos (Limbs.length_encode ..) rfl
  have hlt := decode_lt h.result.length_eq h.small_result
  have hmodulus := modulus_lt (P := P)
  have hpos := Nat.pos_of_ne_zero hmod.out
  change P.decode xs + P.decode _ = P.decode zs at hsum
  rw [decode_digits_of_lt (by omega)] at hsum
  omega

theorem eq_of_solution
    (h' : P.membershipSum.Solution τ m xs (P.digits (2 ^ P.bits - P.modulus)) zs' cs') :
    ∀ i < P.membershipCells, τ i = σ i := by
  obtain ⟨-, rfl, rfl⟩ := h.unique LimbSum.limbBits_le limbs_pos (Limbs.length_encode ..) rfl h' (.inl rfl)
  intro i hi
  unfold membershipCells at hi
  have hmem {start len : Nat} (hstart : start ≤ i) (hstop : i < start + len) :
      i ∈ (⟨start, len⟩ : CellSlice).indices :=
    CellSlice.mem_indices.mpr ⟨hstart, hstop⟩
  rcases Nat.lt_or_ge i P.limbs with hinput | hinput
  · exact h.a.store_eq h'.a (hmem (Nat.zero_le i) (by omega))
  · rcases Nat.lt_or_ge i (P.limbs + P.limbs) with hresult | hresult
    · exact Store.Reads.store_eq h.result h'.result (hmem hinput hresult)
    · have hcarry : i ∈ (⟨P.limbs + P.limbs, P.limbs - 1⟩ : CellSlice).indices := hmem hresult (by omega)
      exact h.carries.store_eq h'.carries hcarry

end Solution

theorem writesIff_membershipSum [hmod : NeZero P.modulus] (hnum : t.numCells = P.membershipCells)
    (hread : t.readSlice ⟨0, P.limbs⟩ = .ok xs) (hrange : P.InRange xs) :
    (Instruction.limbSum P.membershipSum).WritesIff t (P.decode xs < P.modulus) (· = .sumTooWide P.limbs)
      [⟨P.limbs, P.limbs⟩, ⟨P.limbs + P.limbs, P.limbs - 1⟩] fun t' => ∃ zs cs,
        P.membershipSum.Solution t'.store t'.numCells xs (P.digits (2 ^ P.bits - P.modulus)) zs cs := by
  have hmodulus := modulus_lt (P := P)
  have hpos := Nat.pos_of_ne_zero hmod.out
  have hcomplement : Limbs.decodeNative P.limbBits (P.digits (2 ^ P.bits - P.modulus)) =
      2 ^ P.bits - P.modulus := decode_digits_of_lt (by omega)
  have hconst : (LimbOperand.const (Limbs.encode P.limbBits P.limbs (2 ^ P.bits - P.modulus))).read t =
      .ok ((P.digits (2 ^ P.bits - P.modulus)).map (·.val)) := by
    rw [map_val_digits]
    rfl
  have hlen : (LimbOperand.const (Limbs.encode P.limbBits P.limbs (2 ^ P.bits - P.modulus))).length =
      P.limbs := Limbs.length_encode ..
  have h := LimbSum.writesIff_result (k := P.limbs + P.limbs) (r := ⟨P.limbs, P.limbs⟩)
    LimbSum.limbBits_le (by rw [hnum]; exact Nat.le_of_eq (Nat.add_assoc _ _ _)) hread hrange hlen rfl hconst
    (P.inRange_digits _)
  have hlt : Limbs.decodeNative P.limbBits xs + Limbs.decodeNative P.limbBits
      (P.digits (2 ^ P.bits - P.modulus)) < 2 ^ (P.limbBits * P.limbs) ↔ P.decode xs < P.modulus := by
    rw [hcomplement]
    change P.decode xs + _ < 2 ^ P.bits ↔ _
    omega
  simp only [hlt] at h
  exact h

end FieldParams

namespace Component

open FieldParams

abbrev membership (P : FieldParams) [P.HasHeadroom] : Component (FieldRegister P) Unit :=
  (Inlet.number P).component Gadget.assertCanonical

variable [P.HasHeadroom]

theorem recorded_membership (r : (membership P).Recorded) :
    r.input = ⟨0⟩ ∧ r.chip.numCells = P.membershipCells ∧
      r.chip.instructions.toList = P.membershipRules ++ [.limbSum P.membershipSum] := by
  obtain ⟨hinput, hnum, hrules⟩ := r.before_adds ((Inlet.number P).adds 0)
  obtain ⟨-, hadds⟩ := (Scenario.addsAt_assertCanonical r.input r.before.numCells).of_run r.generate_eq
  rw [hinput, hnum] at hadds
  refine ⟨hinput, ?_, ?_⟩
  · rw [r.numCells_eq, hadds.numCells, hnum]
    rfl
  · rw [r.instructions_eq, hadds.instructions, hrules, ← List.append_assoc]
    rfl

variable {r : (membership P).Recorded} {l : Layout} {circuit : Circuit}

theorem check_membership_iff (hl : r.chip.manifest.required ≤ l.width)
    (hemit : r.chip.emit l.width = .ok circuit) (t : Table Native) :
    circuit.check t = .ok () ↔ ∃ xs zs cs, P.membershipSum.Solution (t.store l) P.membershipCells xs
      (P.digits (2 ^ P.bits - P.modulus)) zs cs := by
  obtain ⟨-, hnum, hinstructions⟩ := recorded_membership r
  rw [Chip.check_emit_iff hl hemit, hnum, hinstructions, holds_membership_iff]

theorem exists_membership_pass [NeZero P.modulus] (r : (membership P).Recorded) (l : Layout)
    (hlen : xs.length = P.limbs) (hrange : P.InRange xs) :
    ∃ t₁, TraceM.write r.input xs (.empty l r.chip.numCells) = .ok () t₁ ∧
      (P.decode xs < P.modulus → ∃ t zs cs, r.chip.writeWitness t₁ = .ok () t ∧ t.store = t.table.store l ∧
        P.membershipSum.Solution t.store P.membershipCells xs (P.digits (2 ^ P.bits - P.modulus)) zs cs) ∧
      (¬ P.decode xs < P.modulus → ∃ index, r.chip.writeWitness t₁ =
        .error (.fault (.atInstruction index (.sumTooWide P.limbs))) t₁) := by
  obtain ⟨hinput, hnum, hinstructions⟩ := recorded_membership r
  rw [hinput, hnum]
  have hcells : P.membershipCells = P.limbs + (P.limbs + (P.limbs - 1)) := rfl
  obtain ⟨t₁, hwrite, hextends, hread, hfresh⟩ :=
    TraceM.exists_writeSlice_empty l P.membershipCells hlen (by omega)
  have hsum := writesIff_membershipSum hextends.numCells hread hrange
  -- The rules before the sum write nothing; what the pass does is what the sum does.
  have hpassive := Steps.passive t₁ (passive_membershipRules (P := P))
  refine ⟨t₁, hwrite, fun hlt => ?_, fun hlt => ?_⟩
  · have hvacant : t₁.Vacant [⟨P.limbs, P.limbs⟩, ⟨P.limbs + P.limbs, P.limbs - 1⟩] := by
      apply Trace.Vacant.pair
      · rw [hextends.numCells]
        exact Nat.le_of_eq hcells.symm
      · exact hfresh
    obtain ⟨t, ht⟩ := (hsum.succeeds_iff hvacant).mpr hlt
    obtain ⟨hextends', -, zs, cs, hsolution⟩ := hsum.written t ht
    have hall := hextends.trans hextends'
    rw [hall.numCells] at hsolution
    refine ⟨t, zs, cs, ?_, ?_, hsolution⟩
    · rw [Chip.writeWitness_eq_ok_iff, hinstructions]
      exact hpassive.append (.singleton ht)
    · unfold Trace.store
      rw [hall.layout]
      rfl
  · obtain ⟨cause, rfl, hrefused⟩ := hsum.refused hlt
    refine ⟨0 + P.membershipRules.length, ?_⟩
    unfold Chip.writeWitness
    rw [hinstructions]
    exact Chip.runFrom_eq_error hpassive hrefused

def Accepts (circuit : Circuit) (l : Layout) (r : FieldRegister P) (xs : List Native) (t : Table Native) :
    Prop :=
  t.values? l r.slice = some xs ∧ circuit.check t = .ok ()

theorem accepts_iff (hl : r.chip.manifest.required ≤ l.width) (hemit : r.chip.emit l.width = .ok circuit)
    {t : Table Native} : Accepts circuit l r.input xs t ↔ ∃ zs cs, P.membershipSum.Solution (t.store l)
      P.membershipCells xs (P.digits (2 ^ P.bits - P.modulus)) zs cs := by
  obtain ⟨hinput, -⟩ := recorded_membership r
  have hcheck := check_membership_iff hl hemit t
  unfold Accepts
  rw [hinput]
  constructor
  · rintro ⟨hvalues, haccepted⟩
    obtain ⟨xs', zs, cs, h⟩ := hcheck.mp haccepted
    obtain rfl := Option.some.inj (hvalues.symm.trans (Table.values?_eq_some h.a))
    exact ⟨zs, cs, h⟩
  · rintro ⟨zs, cs, h⟩
    exact ⟨Table.values?_eq_some h.a, hcheck.mpr ⟨xs, zs, cs, h⟩⟩

theorem exists_emit_membership [NeZero P.modulus] (hl : r.chip.manifest.required ≤ l.width) :
    ∃ circuit, r.chip.emit l.width = .ok circuit := by
  obtain ⟨-, hnum, hinstructions⟩ := recorded_membership r
  obtain ⟨t₁, -, hpass, -⟩ :=
    exists_membership_pass r l (FieldParams.length_digits 0) (P.inRange_digits 0)
  -- zero is below the modulus, and a table with it shows that the circuit can be emitted
  have hzero : P.decode (P.digits 0) < P.modulus := by
    rw [decode_digits_of_lt (Nat.two_pow_pos _)]
    exact Nat.pos_of_ne_zero (NeZero.ne _)
  obtain ⟨t, zs, cs, -, hstore, h⟩ := hpass hzero
  rw [hstore] at h
  apply Chip.exists_emit (t := t.table) hl
  rw [hnum, hinstructions]
  exact holds_membership_iff.mpr ⟨_, zs, cs, h⟩

/--
For any limbs in range, there is an accepted table exactly if their number is below the modulus. Then the
witness pass writes it, and there is no other one. For all other numbers the pass stops at the sum with
the complement of the modulus.
-/
theorem membership_exact (P : FieldParams) [P.HasHeadroom] [NeZero P.modulus] :
    Nonempty (membership P).Recorded ∧ ∀ (r : (membership P).Recorded) (l : Layout),
      r.chip.manifest.required ≤ l.width → ∃ circuit, r.chip.emit l.width = .ok circuit ∧
        ∀ xs, xs.length = P.limbs → P.InRange xs →
          ((∃ t, Accepts circuit l r.input xs t) ↔ P.decode xs < P.modulus) ∧
          ∃ t₀ t₁, r.chip.newTrace l.width = .ok t₀ ∧ TraceM.write r.input xs t₀ = .ok () t₁ ∧
            (P.decode xs < P.modulus → ∃ t, r.chip.writeWitness t₁ = .ok () t ∧
              Accepts circuit l r.input xs t.table ∧
                ∀ t', Accepts circuit l r.input xs t' → ∀ i < r.chip.numCells, t'.store l i = t.store i) ∧
            (¬ P.decode xs < P.modulus → ∃ index t, r.chip.writeWitness t₁ =
              .error (.fault (.atInstruction index (.sumTooWide P.limbs))) t) := by
  have hrecords : Records ((membership P).generate ((Inlet.number P).ofCell 0)) :=
    Records.assertCanonical ⟨0⟩
  refine ⟨exists_recorded ((Inlet.number P).adds 0), fun r l hl => ?_⟩
  obtain ⟨circuit, hemit⟩ := exists_emit_membership hl
  refine ⟨circuit, hemit, fun xs hlen hrange => ?_⟩
  obtain ⟨t₁, hwrite, hpass, hrefused⟩ := exists_membership_pass r l hlen hrange
  refine ⟨⟨?_, fun hlt => ?_⟩, _, t₁, Chip.newTrace_eq_ok _ hl, hwrite, fun hlt => ?_, fun hlt => ?_⟩
  · rintro ⟨t, ht⟩
    obtain ⟨zs, cs, h⟩ := (accepts_iff hl hemit).mp ht
    exact lt_of_solution h
  · obtain ⟨t, zs, cs, -, hstore, h⟩ := hpass hlt
    rw [hstore] at h
    exact ⟨t.table, (accepts_iff hl hemit).mpr ⟨zs, cs, h⟩⟩
  · obtain ⟨t, zs, cs, hwitness, hstore, h⟩ := hpass hlt
    rw [hstore] at h
    refine ⟨t, hwitness, (accepts_iff hl hemit).mpr ⟨zs, cs, h⟩, fun t' ht' i hi => ?_⟩
    obtain ⟨zs', cs', h'⟩ := (accepts_iff hl hemit).mp ht'
    obtain ⟨-, hnum, -⟩ := recorded_membership r
    rw [hnum] at hi
    rw [hstore]
    exact eq_of_solution h h' i hi
  · obtain ⟨index, herror⟩ := hrefused hlt
    exact ⟨index, t₁, herror⟩

theorem membership_exact_two_limbs :
    let P := FieldParams.twoLimbs
    P.HasHeadroom ∧ P.modulus ≠ 0 ∧ ∃ r : (membership P).Recorded, ∀ l : Layout,
      r.chip.manifest.required ≤ l.width → ∃ circuit, r.chip.emit l.width = .ok circuit ∧
        (∃ t, Accepts circuit l r.input [12, 8] t) ∧
        (∀ t, Accepts circuit l r.input [12, 8] t → t.store l 4 = some 1) ∧
        (¬ ∃ t, Accepts circuit l r.input [11, 15] t) ∧
          ∃ t₀ t₁ index t, r.chip.newTrace l.width = .ok t₀ ∧
            TraceM.write r.input [11, 15] t₀ = .ok () t₁ ∧
            r.chip.writeWitness t₁ = .error (.fault (.atInstruction index (.sumTooWide 2))) t := by
  -- adding five to 140 carries out of the lower limb; the limbs of 251 are in range as well
  intro P
  obtain ⟨⟨r⟩, hr⟩ := membership_exact P
  refine ⟨inferInstance, by decide, r, fun l hl => ?_⟩
  obtain ⟨circuit, hemit, hcircuit⟩ := hr r l hl
  obtain ⟨hbelow, -⟩ := hcircuit [12, 8] rfl (by decide)
  obtain ⟨habove, t₀, t₁, hnew, hwrite, -, hrefused⟩ := hcircuit [11, 15] rfl (by decide)
  obtain ⟨index, t, herror⟩ := hrefused (by decide)
  refine ⟨circuit, hemit, hbelow.mpr (by decide), fun t ht => ?_, mt habove.mp (by decide), t₀, t₁, index,
    t, hnew, hwrite, herror⟩
  obtain ⟨zs, cs, h⟩ := (accepts_iff hl hemit).mp ht
  obtain ⟨z, z', rfl⟩ := List.length_eq_two.mp (h.result.length_eq : zs.length = 2)
  obtain ⟨c, rfl⟩ := List.length_eq_one_iff.mp (h.carries.length_eq : cs.length = 1)
  have hcomplement : (P.digits (2 ^ P.bits - P.modulus)).map (·.val) = [5, 0] := by decide
  have hcarries := h.exists_carries LimbSum.limbBits_le (Limbs.length_encode ..) rfl
  rw [hcomplement] at hcarries
  have hone {a a' d : Nat} (ha : a < 16) (hlimbs : LimbSum.Carries 4 0 [12, 8] [5, 0] [a, a'] [d]) :
      d = 1 := by
    cases hlimbs with
    | limb hbalance hle hrest => omega
  have hcarry : c = 1 := Fin.ext (hone (h.small_result z (List.mem_cons_self ..)) hcarries)
  subst hcarry
  exact h.carries.getElem (i := 0) Nat.one_pos

end Component

end ForeignCurve
