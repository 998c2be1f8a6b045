import ForeignCurve.Proofs.Reading

namespace ForeignCurve

theorem Point.Reduced.fits {P : FieldParams} [P.HasHeadroom] {p : Point} (h : p.Reduced P.modulus) :
    p.Reduced (2 ^ P.bits) :=
  ⟨Nat.lt_trans h.x FieldParams.modulus_lt, Nat.lt_trans h.y FieldParams.modulus_lt⟩

def PointRegister.ofCell (P : FieldParams) (k : Nat) : PointRegister P :=
  ⟨⟨k⟩, ⟨k + P.limbs⟩⟩

namespace Record

def fieldRules (P : FieldParams) (k : Nat) : List Instruction :=
  (ruleInstruction? (.range P.limbBits) ⟨k, P.limbs⟩).toList

def pointRules (P : FieldParams) (k : Nat) : List Instruction :=
  fieldRules P k ++ fieldRules P (k + P.limbs)

theorem passive_fieldRules {P : FieldParams} {k : Nat} : ∀ i ∈ fieldRules P k, i.Passive :=
  passive_ruleInstruction? _ _

theorem passive_pointRules {P : FieldParams} {k : Nat} : ∀ i ∈ pointRules P k, i.Passive := by
  unfold pointRules
  rw [List.forall_mem_append]
  exact ⟨passive_fieldRules, passive_fieldRules⟩

theorem AddsAt.allocField (P : FieldParams) (k : Nat) :
    (Record.alloc (.field P)).AddsAt k ⟨k⟩ P.limbs (fieldRules P k) :=
  alloc k (.field P)

theorem AddsAt.allocPoint (P : FieldParams) (k : Nat) :
    (Record.allocPoint P).AddsAt k (.ofCell P k) (P.limbs + P.limbs) (pointRules P k) := by
  unfold Record.allocPoint
  apply bind (allocField P k)
  exact bind_pure (allocField P (k + P.limbs))

end Record

section Writing

variable {P : FieldParams} {t t' : Trace} {k : Nat}

namespace TraceM

def writeNumber (r : FieldRegister P) (N : Nat) : TraceM Unit := do
  write r (← P.encode N)

theorem writeNumber_eq_write [P.HasHeadroom] (r : FieldRegister P) (N : Nat) :
    writeNumber r N = write r (P.digits N) := by
  unfold writeNumber
  rw [P.encode_eq_digits]
  rfl

end TraceM

namespace Scenario

variable {w : Scenario}

theorem Numbers.of_filled {p : Point} (hbound : k + (P.limbs + P.limbs) ≤ t'.numCells)
    (hx : p.x < 2 ^ P.bits) (hy : p.y < 2 ^ P.bits)
    (h : t.Filled k (P.digits p.x ++ P.digits p.y) t') (hnum : w.numCells = t'.numCells)
    (hle : t'.store ≤ w.store) : w.Numbers (.ofCell P k) p := by
  have hlen : (P.digits p.x ++ P.digits p.y).length = P.limbs + P.limbs := by simp
  have hreads : (t.store.fill k (P.digits p.x ++ P.digits p.y)).Reads t'.numCells
      ⟨k, (P.digits p.x ++ P.digits p.y).length⟩ _ :=
    Store.reads_fill (by rwa [hlen])
  rw [← h.store, hlen] at hreads
  have hreads' := hreads.mono hle
  rw [← hnum, Store.reads_append_iff (FieldParams.length_digits _)] at hreads'
  exact ⟨⟨hx, hreads'.1⟩, ⟨hy, hreads'.2⟩⟩

variable [P.HasHeadroom]

theorem holds_fieldRules_iff (hbound : k + P.limbs ≤ w.numCells) :
    (∀ i ∈ Record.fieldRules P k, w.Holds i) ↔ ∃ N, w.Number (P := P) ⟨k⟩ N := by
  refine (Instruction.holds_rule_range_iff hbound).trans ?_
  constructor
  · rintro ⟨xs, hreads, hrange⟩
    exact exists_number (r := ⟨k⟩) hreads hrange
  · rintro ⟨N, hN⟩
    exact ⟨_, hN.reads, P.inRange_digits N⟩

theorem holds_pointRules_iff (hbound : k + (P.limbs + P.limbs) ≤ w.numCells) :
    (∀ i ∈ Record.pointRules P k, w.Holds i) ↔ ∃ p, w.Numbers (.ofCell P k) p := by
  unfold Record.pointRules
  rw [List.forall_mem_append, holds_fieldRules_iff (by omega), holds_fieldRules_iff (by omega)]
  constructor
  · rintro ⟨⟨x, hx⟩, y, hy⟩
    exact ⟨⟨x, y⟩, hx, hy⟩
  · rintro ⟨p, hp⟩
    exact ⟨⟨p.x, hp.x⟩, ⟨p.y, hp.y⟩⟩

end Scenario

/--
An allocation at cell `k`, and how its `n` cells are written from outside: then they have the property
`H`, whatever is written later, and pass their range checks.
-/
structure Input {ι : Type} (alloc : Record ι) (k : Nat) (input : ι) (n : Nat)
    (rules : List Instruction) (write : TraceM Unit) (H : Scenario → Prop) : Prop where
  adds : alloc.AddsAt k input n rules
  passive : ∀ i ∈ rules, i.Passive
  written : ∀ t : Trace, k + n ≤ t.numCells → t.store.Fresh k t.numCells → ∃ t',
    write t = .ok () t' ∧ t.Extends t' ∧ t'.store.Fresh (k + n) t'.numCells ∧
      ∀ w : Scenario, w.numCells = t'.numCells → t'.store ≤ w.store →
        H w ∧ ∀ i ∈ rules, w.Holds i

namespace Input

theorem weaken {ι : Type} {alloc : Record ι} {k n : Nat} {a : ι} {rules : List Instruction}
    {write : TraceM Unit} {H H' : Scenario → Prop} (h : Input alloc k a n rules write H)
    (hH : ∀ w, H w → H' w) : Input alloc k a n rules write H' := by
  refine ⟨h.adds, h.passive, ?_⟩
  intro t hbound hfresh
  obtain ⟨t', hwrite, hextends, hfresh', hholds⟩ := h.written t hbound hfresh
  refine ⟨t', hwrite, hextends, hfresh', ?_⟩
  intro w hw hle
  obtain ⟨hw', hrules⟩ := hholds w hw hle
  exact ⟨hH w hw', hrules⟩

theorem map {ι κ : Type} {alloc : Record ι} {k n : Nat} {a : ι} {rules : List Instruction}
    {write : TraceM Unit} {H : Scenario → Prop} (f : ι → κ) (h : Input alloc k a n rules write H) :
    Input (do return f (← alloc)) k (f a) n rules write H :=
  ⟨h.adds.bind_pure, h.passive, h.written⟩

theorem register (k : Nat) (kind : Kind) {xs : List Native} (hlen : xs.length = kind.size)
    (hrules : ∀ w : Scenario, w.Reads ⟨k, kind.size⟩ xs →
      ∀ i ∈ (Record.ruleInstruction? kind.rule ⟨k, kind.size⟩).toList, w.Holds i) :
    Input (Record.alloc kind) k ⟨k⟩ kind.size
      (Record.ruleInstruction? kind.rule ⟨k, kind.size⟩).toList (.write (⟨k⟩ : Register kind) xs)
      (fun w => w.Reads ⟨k, kind.size⟩ xs) := by
  refine ⟨.alloc k kind, Record.passive_ruleInstruction? _ _, ?_⟩
  intro t hbound hfresh
  have hfresh' : t.store.Fresh k (k + kind.size) :=
    fun i hi hi' => hfresh i hi (Nat.lt_of_lt_of_le hi' hbound)
  obtain ⟨t', hwrite, hfilled⟩ := TraceM.writeSlice_eq_ok (s := ⟨k, kind.size⟩) hlen hbound hfresh'
  have hnum := hfilled.numCells
  have hrest := hfilled.fresh hfresh
  rw [← hlen] at hfresh' hbound ⊢
  rw [← hnum] at hrest
  refine ⟨t', hwrite, hfilled.toExtends hfresh', hrest, ?_⟩
  intro w hw hle
  have hreads : w.Reads ⟨k, xs.length⟩ xs := by
    have h := Store.reads_fill (σ := t.store) hbound
    rw [← hfilled.store, ← hnum, ← hw] at h
    exact h.mono hle
  rw [hlen] at hreads ⊢
  exact ⟨hreads, hrules w hreads⟩

theorem number [P.HasHeadroom] (k : Nat) {N : Nat} (hN : N < 2 ^ P.bits) :
    Input (Record.alloc (.field P)) k ⟨k⟩ P.limbs (Record.fieldRules P k)
      (.writeNumber (⟨k⟩ : FieldRegister P) N) (fun w => w.Number (P := P) ⟨k⟩ N) := by
  rw [TraceM.writeNumber_eq_write]
  apply weaken (register k (.field P) (FieldParams.length_digits N) ?_)
  · exact fun w hreads => ⟨hN, hreads⟩
  · intro w hreads
    exact (Scenario.holds_fieldRules_iff hreads.stop_le).mpr ⟨N, hN, hreads⟩

theorem bit (k : Nat) (β : Bool) :
    Input (Record.alloc .bit) k ⟨k⟩ 1 (Record.ruleInstruction? .boolean ⟨k, 1⟩).toList
      (.write (⟨k⟩ : Register .bit) [Native.ofBool β]) (fun w => w.Bit ⟨k⟩ β) := by
  apply register k .bit rfl
  intro w hreads
  refine (Instruction.holds_rule_boolean_iff hreads.stop_le).mpr ⟨_, hreads, ?_⟩
  exact Scenario.boolean_ofBool β

theorem pair {ι κ : Type} {alloc : Record ι} {alloc' : Record κ} {k n n' : Nat} {a : ι} {b : κ}
    {rules rules' : List Instruction} {write write' : TraceM Unit} {H H' : Scenario → Prop}
    (h : Input alloc k a n rules write H) (h' : Input alloc' (k + n) b n' rules' write' H') :
    Input (do let a ← alloc; let b ← alloc'; return (a, b)) k (a, b) (n + n') (rules ++ rules')
      (do write; write') (fun w => H w ∧ H' w) := by
  refine ⟨.bind h.adds (.bind_pure h'.adds), List.forall_mem_append.mpr ⟨h.passive, h'.passive⟩, ?_⟩
  intro t hbound hfresh
  obtain ⟨t₁, hwrite, hextends, hfresh₁, hholds⟩ := h.written t (by omega) hfresh
  have hnum := hextends.numCells
  obtain ⟨t₂, hwrite', hextends', hfresh₂, hholds'⟩ := h'.written t₁ (by omega) hfresh₁
  refine ⟨t₂, run_bind_eq_ok_iff.mpr ⟨(), t₁, hwrite, hwrite'⟩, hextends.trans hextends', ?_, ?_⟩
  · rw [← Nat.add_assoc]
    exact hfresh₂
  · intro w hw hle
    obtain ⟨hH, hrules⟩ :=
      hholds w (hw.trans hextends'.numCells) (Store.le_trans hextends'.store hle)
    obtain ⟨hH', hrules'⟩ := hholds' w hw hle
    exact ⟨⟨hH, hH'⟩, List.forall_mem_append.mpr ⟨hrules, hrules'⟩⟩

theorem point [P.HasHeadroom] (k : Nat) {p : Point} (hp : p.Reduced (2 ^ P.bits)) :
    Input (Record.allocPoint P) k (.ofCell P k) (P.limbs + P.limbs) (Record.pointRules P k)
      (.writePoint (.ofCell P k) p) (fun w => w.Numbers (.ofCell P k) p) := by
  have hwrite : TraceM.writePoint (.ofCell P k) p = (do
      TraceM.writeNumber (⟨k⟩ : FieldRegister P) p.x
      TraceM.writeNumber (⟨k + P.limbs⟩ : FieldRegister P) p.y) := by
    unfold TraceM.writePoint TraceM.writeNumber
    rw [P.encode_eq_digits, P.encode_eq_digits]
    rfl
  have h := ((number k hp.x).pair (number (k + P.limbs) hp.y)).map fun c => PointRegister.mk c.1 c.2
  simp only [bind_assoc, pure_bind] at h
  rw [hwrite]
  exact h.weaken fun w hw => ⟨hw.1, hw.2⟩

end Input

end Writing

section Copying

theorem Record.AddsAt.setToCopyPoint {P : FieldParams} (source target : PointRegister P) (k : Nat) :
    (Gadget.setToCopyPoint source target).AddsAt k () 0
      [.copy source.x.slice target.x.slice, .copy source.y.slice target.y.slice] := by
  unfold Gadget.setToCopyPoint Gadget.setToCopy
  exact bind_noCells (append k _) (append (k + 0) _)

namespace Scenario

variable {P : FieldParams} {w : Scenario} {source target : PointRegister P} {p : Point}

theorem setToCopyPoint_spec (hw : ¬ w.Honest) (h : w.Numbers source p)
    (hx : target.x.slice.stop ≤ w.numCells) (hy : target.y.slice.stop ≤ w.numCells) :
    w.Triple (Gadget.setToCopyPoint source target) (fun _ => w.Numbers target p) := by
  apply Triple.of_addsAt_accepted hw (Record.AddsAt.setToCopyPoint source target)
  intro k _ hholds
  rw [List.forall_mem_cons, List.forall_mem_singleton] at hholds
  exact ⟨⟨h.x.lt, (Instruction.holds_copy_iff h.x.reads hx).mp hholds.1⟩,
    ⟨h.y.lt, (Instruction.holds_copy_iff h.y.reads hy).mp hholds.2⟩⟩

end Scenario

theorem Pass.exists_copy {p : Pass} {is : List Instruction} {source : CellSlice} (target : CellSlice)
    {t : Trace} {xs : List Native} (hinit : is ++ [.copy source target] <+: p.schedule)
    (h : Steps p.start is t) (hreads : p.stop.store.Reads p.stop.numCells source xs)
    (hlen : xs.length = target.len) (hbound : target.stop ≤ t.numCells)
    (hfresh : t.store.Fresh target.start target.stop) :
    ∃ t', Steps p.start (is ++ [.copy source target]) t' ∧ t.Filled target.start xs t' := by
  have hplan : Instruction.plan (.copy source target) p.stop = .ok (.write target xs .done) :=
    bind_eq_ok_iff.mpr
      ⟨xs, liftM_fault_eq_ok_iff.mpr (Trace.readSlice_eq_ok_iff.mpr hreads), rfl⟩
  unfold CellSlice.stop at hbound hfresh
  rw [← hlen] at hbound hfresh
  exact Pass.exists_step hinit h hplan (.write_done rfl hlen) hbound hfresh

namespace Scenario

variable {P : FieldParams} {p : Pass} {given : List Instruction} {reserved : Nat → Prop}
  {b : Builder} {t : Trace} {source : PointRegister P} {R : Point} {k : Nat}

theorem Behind.copyPoint (ht : Behind p given reserved b t)
    (hschedule : p.schedule = b.instructions.toList ++ [.copy source.x.slice ⟨k, P.limbs⟩,
      .copy source.y.slice ⟨k + P.limbs, P.limbs⟩])
    (h : (computed p given reserved).Numbers source R)
    (hbound : k + (P.limbs + P.limbs) ≤ t.numCells)
    (hreserved : ∀ i, k ≤ i → i < k + (P.limbs + P.limbs) → reserved i) :
    Steps p.start p.schedule p.stop ∧ (computed p given reserved).Numbers (.ofCell P k) R := by
  have hx := h.x.reads
  have hy := h.y.reads
  have hxlen : (P.digits R.x).length = P.limbs := FieldParams.length_digits _
  have hylen : (P.digits R.y).length = P.limbs := FieldParams.length_digits _
  have hfresh : t.store.Fresh k (k + (P.limbs + P.limbs)) :=
    fun i hi hi' => (ht.reserved i (hreserved i hi hi')).2
  have hfirst : t.store.Fresh k (k + P.limbs) := fun i hi hi' => hfresh i hi (by omega)
  -- The coordinates are copied one after the other: the second finds its cells as the first left them.
  obtain ⟨t₁, hsteps₁, hfilled₁⟩ :=
    Pass.exists_copy ⟨k, P.limbs⟩ (by rw [hschedule]; simp) ht.steps hx hxlen
      (Nat.le_trans (by dsimp only [CellSlice.stop]; omega) hbound) hfirst
  have hfresh₁ := hfilled₁.fresh hfresh
  rw [hxlen] at hfresh₁
  obtain ⟨t₂, hsteps₂, hfilled₂⟩ :=
    Pass.exists_copy ⟨k + P.limbs, P.limbs⟩ (by rw [hschedule]; simp) hsteps₁ hy hylen
      (by rw [hfilled₁.numCells]; exact Nat.le_trans (by dsimp only [CellSlice.stop]; omega) hbound)
      (fun i hi hi' => hfresh₁ i hi (by dsimp only [CellSlice.stop] at hi'; omega))
  rw [List.append_assoc] at hsteps₂
  change Steps p.start (b.instructions.toList ++ [_, _]) t₂ at hsteps₂
  rw [← hschedule] at hsteps₂
  have hstop := Pass.stop_eq hsteps₂
  have hfilled : t.Filled k (P.digits R.x ++ P.digits R.y) t₂ := by
    apply hfilled₁.append
    rw [hxlen]
    exact hfilled₂
  rw [← hstop] at hsteps₂ hfilled
  refine ⟨hsteps₂, Numbers.of_filled ?_ h.x.lt h.y.lt hfilled rfl (Store.le_refl _)⟩
  rw [hfilled.numCells]
  exact hbound

end Scenario

end Copying

end ForeignCurve
