import ForeignCurve.Proofs.BitDecomposition
import ForeignCurve.Proofs.FieldOperations
import ForeignCurve.Proofs.LimbAddition

/-!
Field operations, sums of limbs and decompositions in the circuits that chips emit. What an accepted table
satisfies holds for every chip that has the instructions, among any others. A chip that has no others
accepts every table that satisfies it.
-/

namespace ForeignCurve

variable {c : Chip} {l : Layout} {σ : Store} {n : Nat} {table : Table Native} {P : FieldParams}

theorem Chip.Accepts.holds {is : List Instruction} (h : c.Accepts l table)
    (hl : c.manifest.required ≤ l.width) (hsub : is ⊆ c.instructions.toList) :
    ∀ i ∈ is, i.Holds (table.store l) c.numCells := by
  intro i hi
  exact (accepts_iff hl).mp h i (hsub hi)

theorem Chip.accepts_of_holds {is : List Instruction} (hl : c.manifest.required ≤ l.width)
    (hsub : c.instructions.toList ⊆ is) (h : ∀ i ∈ is, i.Holds (table.store l) c.numCells) :
    c.Accepts l table := by
  refine (accepts_iff hl).mpr fun i hi => ?_
  exact h i (hsub hi)

theorem Table.number?_eq_some {r : FieldRegister P} {xs : List Native}
    (h : (table.store l).Reads n r.slice xs) : table.number? l r = some (P.decode xs) := by
  rw [number?, values?_eq_some h, Option.map_some]

namespace FieldOperation

variable {o : FieldOperation}

def instructions (o : FieldOperation) (m : Identity P) : List Instruction :=
  m.runs.map (.range P.limbBits) ++ [o.instruction m]

theorem holds_instructions_iff {m : Identity P} : (∀ i ∈ o.instructions m, i.Holds σ n) ↔
    (∀ s ∈ m.runs, ∃ xs, σ.Reads n s xs ∧ P.InRange xs) ∧ (o.instruction m).Holds σ n := by
  unfold instructions
  rw [List.forall_mem_append, List.forall_mem_map, List.forall_mem_singleton]
  exact and_congr_left' (forall₂_congr fun _ _ => Instruction.holds_range_iff)

def Balances (P : FieldParams) : FieldOperation → Nat → Nat → Nat → Nat → Prop
  | sum, A, B, N, C => A + B = N + C * P.modulus
  | difference, A, B, N, C => B + N = A + C * P.modulus
  | product, A, B, N, C => A * B = N + C * P.modulus

variable [P.HasHeadroom] {a b result carry : FieldRegister P} {low high : Nat}

theorem balances_of_accepts (hl : c.manifest.required ≤ l.width) (h : c.Accepts l table)
    (hsub : o.instructions (.wired a b result carry low high) ⊆ c.instructions.toList) :
    ∃ A B N C, table.number? l a = some A ∧ table.number? l b = some B ∧
      table.number? l result = some N ∧ table.number? l carry = some C ∧ o.Balances P A B N C := by
  obtain ⟨hruns, hholds⟩ := holds_instructions_iff.mp (h.holds hl hsub)
  simp only [Identity.runs, List.forall_mem_cons] at hruns
  obtain ⟨⟨as, ha, has⟩, ⟨bs, hb, hbs⟩, ⟨rs, hr, hrs⟩, ⟨cs, hc, hcs⟩, ⟨ls, hlow, hls⟩, ⟨hs, hhigh, hhs⟩, -⟩ :=
    hruns
  refine ⟨_, _, _, _, Table.number?_eq_some ha, Table.number?_eq_some hb, Table.number?_eq_some hr,
    Table.number?_eq_some hc, ?_⟩
  cases o with
  | sum =>
    exact Identity.apply_eq_of_holds .sum (fun _ _ => rfl) ha hb hr hc hlow hhigh has hbs hrs
      hcs hls hhs hholds
  | difference =>
    -- it is recorded as a sum whose result is `a`
    exact Identity.apply_eq_of_holds .sum (fun _ _ => rfl) hb hr ha hc hlow hhigh hbs hrs has
      hcs hls hhs hholds
  | product =>
    exact Identity.apply_eq_of_holds .product (fun _ _ => rfl) ha hb hr hc hlow hhigh has hbs
      hrs hcs hls hhs hholds

theorem Computed.accepts {t : Trace} {m : Identity P} {A B : Nat} {xs ys : List Native}
    (h : o.Computed m A B t) (ha : t.readSlice m.a.slice = .ok xs) (hb : t.readSlice m.b.slice = .ok ys)
    (hxs : P.InRange xs) (hys : P.InRange ys) (hl : c.manifest.required ≤ t.layout.width)
    (hcells : c.numCells = t.numCells) (hsub : c.instructions.toList ⊆ o.instructions m) :
    c.Accepts t.layout t.table := by
  obtain ⟨⟨N, -, ⟨limbs, hlimbs, hr⟩, -⟩, hwitnesses, hholds⟩ := h
  rw [P.encode_eq_digits N] at hlimbs
  cases hlimbs
  apply Chip.accepts_of_holds hl hsub
  rw [hcells]
  refine holds_instructions_iff.mpr ⟨?_, hholds⟩
  have hruns : ∀ s ∈ m.runs, ∃ zs, t.readSlice s = .ok zs ∧ P.InRange zs :=
    List.forall_mem_cons.mpr ⟨⟨xs, ha, hxs⟩, List.forall_mem_cons.mpr ⟨⟨ys, hb, hys⟩,
      List.forall_mem_cons.mpr ⟨⟨_, hr, P.inRange_digits N⟩, hwitnesses⟩⟩⟩
  intro s hs
  obtain ⟨zs, hread, hzs⟩ := hruns s hs
  exact ⟨zs, Trace.readSlice_eq_ok_iff.mp hread, hzs⟩

end FieldOperation

section Sum

variable {a : CellSlice} {b result o : LimbOperand} {limbBits k : Nat} (hbits : limbBits ≤ 62)

namespace LimbOperand

def Bounded (limbBits : Nat) : LimbOperand → Prop
  | cells _ => True
  | const limbs => ∀ x ∈ limbs, x < 2 ^ limbBits

include hbits

theorem holds_runs_iff (ho : o.Bounded limbBits) :
    (∀ s ∈ o.runs, (Instruction.range limbBits s).Holds σ n) ↔
      ∃ ys, o.Reads σ n ys ∧ LimbSum.Small limbBits ys := by
  cases o with
  | cells s => exact List.forall_mem_singleton.trans Instruction.holds_range_iff
  | const limbs =>
    refine iff_of_true (fun s hs => by contradiction) ⟨limbs.map Native.ofNat, ?_, ?_⟩
    · have hwords : Native.ofWords limbs = .ok (limbs.map Native.ofNat) :=
        Native.ofWords_eq_ok fun x hx => Nat.lt_trans (ho x hx)
          (two_pow_lt_order (Nat.lt_of_le_of_lt hbits (by decide)))
      exact bind_eq_ok_iff.mpr ⟨_, hwords, rfl⟩
    · refine List.forall_mem_map.mpr fun x hx => ?_
      exact Nat.lt_of_le_of_lt (Nat.mod_le x order) (ho x hx)

end LimbOperand

namespace LimbSum

def instructions (s : LimbSum) : List Instruction :=
  (Instruction.range s.limbBits s.a :: (s.b.runs ++ s.result.runs).map (.range s.limbBits)) ++
    ((Record.ruleInstruction? .boolean s.carries.slice).toList ++ [.limbSum s])

variable (hb : b.Bounded limbBits) (hr : result.Bounded limbBits)

include hbits hb hr

theorem holds_instructions_iff (hbound : k + (a.len - 1) ≤ n) :
    (∀ i ∈ (recorded a b result limbBits k).instructions, i.Holds σ n) ↔
      ∃ xs ys zs cs, (recorded a b result limbBits k).Solution σ n xs ys zs cs := by
  unfold instructions
  rw [List.forall_mem_append, List.forall_mem_cons, List.map_append, List.forall_mem_append,
    List.forall_mem_map, List.forall_mem_map, List.forall_mem_append, List.forall_mem_singleton]
  dsimp only [recorded]
  rw [Instruction.holds_range_iff, LimbOperand.holds_runs_iff hbits hb, LimbOperand.holds_runs_iff hbits hr,
    Instruction.holds_rule_boolean_iff hbound]
  constructor
  · rintro ⟨⟨⟨xs, hxs, hsmall⟩, ⟨ys, hys, hsmallb⟩, zs, hzs, hsmallr⟩, ⟨cs, hcs, hbool⟩, hsum⟩
    exact ⟨xs, ys, zs, cs, hxs, hys, hzs, hcs, hsmall, hsmallb, hsmallr, hbool, hsum⟩
  · rintro ⟨xs, ys, zs, cs, h⟩
    exact ⟨⟨⟨xs, h.a, h.small_a⟩, ⟨ys, h.b, h.small_b⟩, zs, h.result, h.small_result⟩,
      ⟨cs, h.carries, h.boolean⟩, h.holds⟩

theorem solution_of_accepts (hpos : 0 < a.len) (hlenb : b.length = a.len) (hlenr : result.length = a.len)
    (hbound : k + (a.len - 1) ≤ c.numCells) (hl : c.manifest.required ≤ l.width)
    (h : c.Accepts l table)
    (hsub : (recorded a b result limbBits k).instructions ⊆ c.instructions.toList) :
    ∃ xs ys zs cs, (recorded a b result limbBits k).Solution (table.store l) c.numCells xs ys zs cs ∧
      Limbs.decodeNative limbBits xs + Limbs.decodeNative limbBits ys =
        Limbs.decodeNative limbBits zs := by
  obtain ⟨xs, ys, zs, cs, hsolution⟩ := (holds_instructions_iff hbits hb hr hbound).mp (h.holds hl hsub)
  exact ⟨xs, ys, zs, cs, hsolution, hsolution.decode_add hbits hpos hlenb hlenr⟩

theorem Solution.accepts {xs ys zs cs : List Native} (hbound : k + (a.len - 1) ≤ c.numCells)
    (h : (recorded a b result limbBits k).Solution (table.store l) c.numCells xs ys zs cs)
    (hl : c.manifest.required ≤ l.width)
    (hsub : c.instructions.toList ⊆ (recorded a b result limbBits k).instructions) :
    c.Accepts l table :=
  Chip.accepts_of_holds hl hsub
    ((holds_instructions_iff hbits hb hr hbound).mpr ⟨xs, ys, zs, cs, h⟩)

end LimbSum

end Sum

namespace Instruction

variable {value : Register .element} {start count : Nat} (hbound : start + count ≤ c.numCells)
  (hl : c.manifest.required ≤ l.width)

include hbound hl

theorem digits_of_accepts (h : c.Accepts l table)
    (hsub : decomposition value start count ⊆ c.instructions.toList) :
    ∃ v N, (table.store l).Reads c.numCells value.slice [v] ∧ N < 2 ^ count ∧ N % order = v.val ∧
      (count < 64 → N = v.val) ∧ (table.store l).HoldsDigits start count N := by
  obtain ⟨v, N, hv, hN, hmod, hdigits⟩ := (holds_decomposition_iff hbound).mp (h.holds hl hsub)
  exact ⟨v, N, hv, hN, hmod, (lt_and_eq_of_mod hN hmod).2, hdigits⟩

theorem accepts_of_digits {v : Native} {N : Nat} (hv : (table.store l).Reads c.numCells value.slice [v])
    (hN : N < 2 ^ count) (hmod : N % order = v.val) (hdigits : (table.store l).HoldsDigits start count N)
    (hsub : c.instructions.toList ⊆ decomposition value start count) : c.Accepts l table :=
  Chip.accepts_of_holds hl hsub ((holds_decomposition_iff hbound).mpr ⟨v, N, hv, hN, hmod, hdigits⟩)

end Instruction

end ForeignCurve
