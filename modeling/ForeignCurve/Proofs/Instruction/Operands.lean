import ForeignCurve.Proofs.Circuit.Rows
import ForeignCurve.Proofs.Instruction.Faults
import ForeignCurve.Proofs.Instruction.Holds

namespace ForeignCurve

def Trace.Readable (t : Trace) (s : CellSlice) : Prop :=
  ∃ xs, t.readSlice s = .ok xs

namespace Trace.Readable

variable {t : Trace} {s : CellSlice}

theorem iff_assigned : t.Readable s ↔ s.stop ≤ t.numCells ∧ ∀ j ∈ s.indices, (t.store j).isSome := by
  unfold Readable
  simp only [readSlice_eq_ok_iff, Store.reads_iff]
  constructor
  · rintro ⟨xs, hstop, hmap⟩
    refine ⟨hstop, fun j hj => ?_⟩
    have hmem : t.store j ∈ xs.map some := hmap ▸ List.mem_map_of_mem hj
    obtain ⟨x, -, hx⟩ := List.mem_map.mp hmem
    rw [← hx]
    rfl
  · rintro ⟨hstop, hall⟩
    obtain ⟨xs, hxs, -⟩ := @exists_map_some (s.indices.map t.store) (fun _ => True) (by
      rw [List.forall_mem_map]
      exact fun j hj => (Option.isSome_iff_exists.mp (hall j hj)).imp fun x hx => ⟨hx, trivial⟩)
    exact ⟨xs, hstop, hxs⟩

theorem part (h : t.Readable s) {first len : Nat} (hlen : first + len ≤ s.len) :
    t.Readable ⟨s.start + first, len⟩ := by
  obtain ⟨hstop, hall⟩ := iff_assigned.mp h
  unfold CellSlice.stop at hstop
  refine iff_assigned.mpr ⟨?_, fun j hj => hall j ?_⟩
  · unfold CellSlice.stop
    dsimp only
    omega
  · rw [CellSlice.mem_indices, CellSlice.stop] at hj ⊢
    dsimp only at hj
    omega

end Trace.Readable

def LimbOperand.Encodable : LimbOperand → Prop
  | cells _ => True
  | const limbs => ∀ w ∈ limbs, w < order

namespace Instruction

def WellFormed : Instruction → Prop
  | constant target values _ => values.length = target.len
  | copy source target => source.len = target.len
  | select _ ifTrue ifFalse result => ifTrue.len = result.len ∧ ifFalse.len = result.len
  | decompose _ bits => bits.length ≤ bits.slice.len
  | limbSum sum => sum.b.Encodable ∧ sum.result.Encodable ∧ sum.carries.length ≤ sum.carries.slice.len ∧
    sum.limbBits < 64
  | fieldSum P m | fieldDifference P m | fieldProduct P m => (∃ xs, P.encode P.modulus = .ok xs) ∧
    m.low.length ≤ m.low.slice.len ∧ m.high.length ≤ m.high.slice.len
  | boolean _ | range .. | greaterThan .. | inverse .. | slope .. => True

section Witness

variable {t : Trace}

theorem numeric_readSlice {s : CellSlice} (h : t.Readable s) :
    Numeric (liftM (t.readSlice s) : Except Failure (List Native)) where
  ofValues f hf := by
    obtain ⟨xs, hxs⟩ := h
    rw [hxs] at hf
    contradiction

theorem numeric_readFirst {k : Kind} {r : Register k} (hk : k.size = 1) (h : t.Readable r.slice) :
    Numeric (liftM (t.readFirst r) : Except Failure Native) where
  ofValues f hf := by
    obtain ⟨xs, hxs⟩ := h
    have hreads := Trace.readSlice_eq_ok_iff.mp hxs
    have hlen : xs.length = 1 := hreads.length_eq.trans hk
    have hfirst : t.readFirst r = .ok xs[0] :=
      Trace.readFirst_eq_ok_iff.mpr ⟨hreads.stop_le, hreads.getElem (i := 0) (by omega)⟩
    rw [hfirst] at hf
    contradiction

theorem numeric_readField {P : FieldParams} {r : FieldRegister P} (h : t.Readable r.slice) :
    Numeric (liftM (t.readField r) : Except Failure Nat) where
  ofValues f hf := by
    obtain ⟨xs, hxs⟩ := h
    rw [Trace.readField_eq_ok r (Trace.readSlice_eq_ok_iff.mp hxs)] at hf
    contradiction

theorem numeric_readPoint {P : FieldParams} {r : PointRegister P} (hx : t.Readable r.x.slice)
    (hy : t.Readable r.y.slice) : Numeric (liftM (t.readPoint r) : Except Failure Point) where
  ofValues f hf := by
    obtain ⟨xs, hxs⟩ := hx
    obtain ⟨ys, hys⟩ := hy
    rw [Trace.readPoint_eq_ok r (Trace.readSlice_eq_ok_iff.mp hxs) (Trace.readSlice_eq_ok_iff.mp hys)] at hf
    contradiction

theorem numeric_readOperand {o : LimbOperand} (h : ∀ s ∈ o.runs, t.Readable s) :
    Numeric (liftM (o.read t) : Except Failure (List Nat)) where
  ofValues f hf := by
    cases o with
    | cells s =>
      obtain ⟨xs, hxs⟩ := h s (List.mem_singleton_self s)
      have hread : (LimbOperand.cells s).read t = .ok (xs.map (·.val)) :=
        bind_eq_ok_iff.mpr ⟨xs, hxs, rfl⟩
      rw [hread] at hf
      contradiction
    | const limbs => contradiction

theorem plans_limbSum {sum : LimbSum} (h : ∀ s ∈ sum.operands, t.Readable s) : Plans (sum.plan t) := by
  obtain ⟨a, b, result, carries, limbBits⟩ := sum
  have ha : t.Readable a := by
    cases result with
    | cells s => exact h a List.mem_cons_self
    | const limbs => exact h a List.mem_cons_self
  have hread := numeric_readSlice ha
  unfold LimbSum.plan
  refine @Plans.bind _ _ _ hread fun xs => ?_
  cases result with
  | cells s =>
    have hb := numeric_readOperand fun s hs => h s (List.mem_cons_of_mem _ hs)
    dsimp only
    infer_instance
  | const limbs =>
    cases b with
    | cells s =>
      dsimp only
      infer_instance
    | const limbs' =>
      dsimp only
      infer_instance

theorem plans_of_readable {i : Instruction} (hi : i.WellFormed) (h : ∀ s ∈ i.operands, t.Readable s) :
    Plans (i.plan t) := by
  cases i with
  | constant target values assign =>
    cases assign with
    | true => exact inferInstanceAs (Plans (pure (.write target values .done)))
    | false => exact inferInstanceAs (Plans (pure .done))
  | copy source target =>
    have hsource := numeric_readSlice (h source (by simp [operands]))
    exact Plans.bind _ _
  | boolean cells => exact inferInstanceAs (Plans (pure .done))
  | range bits cells => exact inferInstanceAs (Plans (pure .done))
  | select bit ifTrue ifFalse result =>
    have hbit := numeric_readFirst rfl (h bit.slice (by simp [operands]))
    have htrue := numeric_readSlice (h ifTrue (by simp [operands]))
    have hfalse := numeric_readSlice (h ifFalse (by simp [operands]))
    -- The lengths are compared at run time: the failure branch is shut before instances are sought.
    change Plans (selectPlan bit ifTrue ifFalse result t)
    have hlen : ifTrue.len = result.len ∧ ifFalse.len = result.len := hi
    unfold selectPlan
    dsimp only
    rw [if_pos hlen]
    infer_instance
  | decompose value bits =>
    have hvalue := numeric_readFirst rfl (h value.slice (by simp [operands]))
    change Plans (decomposePlan value bits t)
    unfold decomposePlan
    infer_instance
  | limbSum sum => exact plans_limbSum h
  | greaterThan value bound limbBits result =>
    have hvalue := numeric_readSlice (h value (by simp [operands]))
    exact Plans.bind _ _
  | fieldSum P m | fieldProduct P m =>
    have ha := numeric_readSlice (h m.a.slice (by simp [operands]))
    have hb := numeric_readSlice (h m.b.slice (by simp [operands]))
    exact Plans.bind _ _
  | fieldDifference P m =>
    have ha := numeric_readSlice (h m.a.slice (by simp [operands]))
    have hresult := numeric_readSlice (h m.result.slice (by simp [operands]))
    exact Plans.bind _ _
  | inverse P a result allowZero =>
    have ha := numeric_readField (h a.slice (by simp [operands]))
    change Plans (inversePlan P a result allowZero t)
    unfold inversePlan
    infer_instance
  | slope E p q result =>
    have hp := numeric_readPoint (h p.x.slice (by simp [operands])) (h p.y.slice (by simp [operands]))
    have hq := numeric_readPoint (h q.x.slice (by simp [operands])) (h q.y.slice (by simp [operands]))
    change Plans (slopePlan E p q result t)
    unfold slopePlan
    infer_instance

end Witness

section Constraints

variable {l : Layout} {n : Nat}

theorem exists_slice {s : CellSlice} (h : s.stop ≤ n) :
    ∃ es, (Emitter.empty l n).cells.slice s = .ok es ∧ es.length = s.len :=
  ⟨_, slice_cells_eq_ok_iff.mpr ⟨h, rfl⟩, by simp⟩

theorem exists_get {j : Nat} (h : j < n) : ∃ e, (Emitter.empty l n).cells.get j = .ok e := by
  have hget : (Emitter.empty l n).cells.get j = _ :=
    CellValues.get_ofFn (fun j => Expr.cell (l.cell j)) n j
  rw [if_pos h] at hget
  exact ⟨_, hget⟩

theorem exists_mapM_get {k : Kind} (hk : k.size = 1) {a : RegisterArray k} (hlen : a.length ≤ a.slice.len)
    (h : a.slice.stop ≤ n) :
    ∃ es, (a.toList.mapM fun r => (Emitter.empty l n).cells.get r.start) = .ok es := by
  have hget : ∀ r ∈ a.toList, (Emitter.empty l n).cells.get r.start = .ok (.cell (l.cell r.start)) := by
    intro r hr
    obtain ⟨j, hj, rfl⟩ := List.mem_map.mp hr
    have hget : (Emitter.empty l n).cells.get (a.slice.start + j * k.size) = _ :=
      CellValues.get_ofFn (fun j => Expr.cell (l.cell j)) n _
    rw [List.mem_range] at hj
    rw [hget, if_pos]
    unfold CellSlice.stop at h
    rw [hk]
    omega
  exact ⟨_, mapM_eq_ok hget⟩

theorem exists_values {o : LimbOperand} (ho : o.Encodable) (h : ∀ s ∈ o.runs, s.stop ≤ n) :
    ∃ es, o.values (Emitter.empty l n).cells = .ok es := by
  cases o with
  | cells s =>
    obtain ⟨es, hes, -⟩ := exists_slice (l := l) (h s (List.mem_singleton_self s))
    exact ⟨es, hes⟩
  | const limbs =>
    exact exists_bind_eq_ok (Native.ofWords_eq_ok ho) ⟨_, rfl⟩

theorem exists_assertions {i : Instruction} (hi : i.WellFormed) (h : ∀ s ∈ i.runs, s.stop ≤ n) :
    ∃ as, i.assertions (Emitter.empty l n).cells = .ok as := by
  cases i with
  | constant target values assign =>
    obtain ⟨es, hes, hlen⟩ := exists_slice (l := l) (h target (by simp [runs]))
    refine exists_bind_eq_ok hes ?_
    exact exists_bind_eq_ok (zipExact_eq_ok_iff.mpr ⟨hlen.trans hi.symm, rfl⟩) ⟨_, rfl⟩
  | copy source target => exact ⟨_, rfl⟩
  | boolean cells | range bits cells =>
    obtain ⟨es, hes, -⟩ := exists_slice (l := l) (h cells (by simp [runs]))
    exact exists_bind_eq_ok hes ⟨_, rfl⟩
  | select bit ifTrue ifFalse result =>
    have hstop := h bit.slice (by simp [runs])
    obtain ⟨e, he⟩ := exists_get (l := l) (j := bit.start) (n := n) hstop
    obtain ⟨ts, hts, -⟩ := exists_slice (l := l) (h ifTrue (by simp [runs]))
    obtain ⟨fs, hfs, -⟩ := exists_slice (l := l) (h ifFalse (by simp [runs]))
    obtain ⟨rs, hrs, -⟩ := exists_slice (l := l) (h result (by simp [runs]))
    refine exists_bind_eq_ok he (exists_bind_eq_ok hts ?_)
    exact exists_bind_eq_ok hfs (exists_bind_eq_ok hrs ⟨_, rfl⟩)
  | decompose value bits =>
    have hstop := h value.slice (by simp [runs])
    obtain ⟨e, he⟩ := exists_get (l := l) (j := value.start) (n := n) hstop
    obtain ⟨es, hes⟩ := exists_mapM_get (l := l) rfl hi (h bits.slice (by simp [runs]))
    exact exists_bind_eq_ok he (exists_bind_eq_ok hes ⟨_, rfl⟩)
  | limbSum sum =>
    obtain ⟨hb, hr, hlen, hbits⟩ := hi
    -- `of_word` refuses a word that is not below the order of the native field.
    have hword : 2 ^ sum.limbBits < order := by
      have hpow : 2 ^ sum.limbBits ≤ 2 ^ 63 := Nat.pow_le_pow_right (by decide) (by omega)
      have horder : 2 ^ 63 < order := by decide
      omega
    obtain ⟨xs, hxs, -⟩ := exists_slice (l := l) (h sum.a (by simp [runs]))
    obtain ⟨ys, hys⟩ := exists_values (l := l) hb fun s hs => h s (by simp [runs, hs])
    obtain ⟨rs, hrs⟩ := exists_values (l := l) hr fun s hs => h s (by simp [runs, hs])
    obtain ⟨cs, hcs⟩ := exists_mapM_get (l := l) rfl hlen (h sum.carries.slice (by simp [runs]))
    refine exists_bind_eq_ok hxs (exists_bind_eq_ok hys (exists_bind_eq_ok hrs ?_))
    refine exists_bind_eq_ok hcs ?_
    dsimp only
    rw [if_pos hbits]
    exact exists_bind_eq_ok (Native.ofWord_eq_ok hword) ⟨_, rfl⟩
  | fieldSum P m | fieldDifference P m | fieldProduct P m =>
    obtain ⟨⟨modulus, hmodulus⟩, hlow, hhigh⟩ := hi
    obtain ⟨xs, hxs, -⟩ := exists_slice (l := l) (h m.a.slice (by simp [runs]))
    obtain ⟨ys, hys, -⟩ := exists_slice (l := l) (h m.b.slice (by simp [runs]))
    obtain ⟨rs, hrs, -⟩ := exists_slice (l := l) (h m.result.slice (by simp [runs]))
    obtain ⟨cs, hcs, -⟩ := exists_slice (l := l) (h m.carry.slice (by simp [runs]))
    obtain ⟨low, hlows⟩ := exists_mapM_get (l := l) rfl hlow (h m.low.slice (by simp [runs]))
    obtain ⟨high, hhighs⟩ := exists_mapM_get (l := l) rfl hhigh (h m.high.slice (by simp [runs]))
    exact ⟨_, Identity.assertions_eq_ok _ hmodulus hxs hys hrs hcs hlows hhighs⟩
  | greaterThan | inverse | slope => exact ⟨_, rfl⟩

theorem exists_circuit {i : Instruction} (hi : i.WellFormed) (h : ∀ s ∈ i.runs, s.stop ≤ n) (l : Layout) :
    ∃ c, i.circuit l n = .ok c := by
  obtain ⟨as, has⟩ := exists_assertions (l := l) hi h
  refine ⟨_, circuit_eq_ok_iff.mpr ⟨as, has, ?_, rfl⟩⟩
  rintro ⟨a, b⟩ hab
  obtain rfl := eq_copy_of_link has (Assertion.mem_links.mp hab)
  exact hi

end Constraints

end Instruction

end ForeignCurve
