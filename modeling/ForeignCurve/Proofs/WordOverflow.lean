import ForeignCurve.Recording
import ForeignCurve.Proofs.Gadget.Limb
import ForeignCurve.Proofs.Gadget.Preconditions
import ForeignCurve.Proofs.Instruction.Safety

/-!
Words that overflow while the carries of a limb sum are computed. Cells are read as they are, and only the
numbers that they decode to are compared before. Where one operand is constant or derived, its limbs are
small and nothing overflows; of two runs of cells, the words of a limb may add up to more than a word.
-/

namespace ForeignCurve

namespace LimbSum

def load (bits c : Nat) (xs ys : List Nat) (i : Nat) : Nat :=
  (Limbs.decode bits (xs.take (i + 1)) + Limbs.decode bits (ys.take (i + 1)) + c) >>> (bits * i)

/--
Limb `i` is the first one whose words and carry are not the sum of a limb and a boolean carry, and they do
not fit in a word.
-/
structure OverflowsAt (bits c : Nat) (xs ys : List Nat) (i : Nat) : Prop where
  lt_length : i < xs.length
  below : ∀ j < i, load bits c xs ys j < 2 ^ (bits + 1)
  le_load : 2 ^ 64 ≤ load bits c xs ys i

section Load

variable {bits c x y : Nat} {xs ys : List Nat}

theorem load_zero : load bits c (x :: xs) (y :: ys) 0 = x + y + c := by
  simp [load, Limbs.decode]

theorem load_succ (i : Nat) : load bits c (x :: xs) (y :: ys) (i + 1) =
    load bits ((x + y + c) >>> bits) xs ys i := by
  unfold load
  rw [Nat.mul_succ, Nat.add_comm (bits * i), Nat.shiftRight_add, List.take_succ_cons, List.take_succ_cons,
    Limbs.decode_cons, Limbs.decode_cons, Nat.shiftRight_eq_div_pow _ bits, Nat.shiftRight_eq_div_pow _ bits]
  congr 1
  generalize Limbs.decode bits (xs.take (i + 1)) = X
  generalize Limbs.decode bits (ys.take (i + 1)) = Y
  rw [show 2 ^ bits * X + x + (2 ^ bits * Y + y) + c = 2 ^ bits * (X + Y) + (x + y + c) by ring,
    Nat.mul_add_div (Nat.two_pow_pos bits)]

theorem decode_take_le (bits : Nat) (xs : List Nat) (n : Nat) :
    Limbs.decode bits (xs.take n) ≤ Limbs.decode bits xs := by
  induction xs generalizing n with
  | nil => rw [List.take_nil]
  | cons x xs ih =>
    cases n with
    | zero => exact Nat.zero_le _
    | succ n =>
      rw [List.take_succ_cons, Limbs.decode_cons, Limbs.decode_cons]
      exact Nat.add_le_add_right (Nat.mul_le_mul_left _ (ih n)) x

theorem load_le (bits c : Nat) (xs ys : List Nat) (i : Nat) :
    load bits c xs ys i ≤ Limbs.decode bits xs + Limbs.decode bits ys + c := by
  have hx := decode_take_le bits xs (i + 1)
  have hy := decode_take_le bits ys (i + 1)
  exact Nat.le_trans (Nat.shiftRight_le _ _) (by omega)

theorem not_overflowsAt_nil {i : Nat} : ¬ OverflowsAt bits c [] ys i :=
  fun h => Nat.not_lt_zero i h.lt_length

theorem exists_overflowsAt_cons_iff : (∃ i, OverflowsAt bits c (x :: xs) (y :: ys) i) ↔
    2 ^ 64 ≤ x + y + c ∨
      x + y + c < 2 ^ (bits + 1) ∧ ∃ i, OverflowsAt bits ((x + y + c) >>> bits) xs ys i := by
  -- either the lowest limb overflows, or it has a boolean carry with which a limb above does
  constructor
  · rintro ⟨i, hlt, hbelow, hle⟩
    cases i with
    | zero =>
      rw [load_zero] at hle
      exact .inl hle
    | succ i =>
      have hzero := hbelow 0 (Nat.succ_pos i)
      rw [load_zero] at hzero
      rw [load_succ] at hle
      refine .inr ⟨hzero, i, Nat.lt_of_succ_lt_succ hlt, fun j hj => ?_, hle⟩
      rw [← load_succ]
      exact hbelow (j + 1) (Nat.succ_lt_succ hj)
  · rintro (hle | ⟨hzero, i, hlt, hbelow, hle⟩)
    · exact ⟨0, Nat.succ_pos _, fun j hj => absurd hj (Nat.not_lt_zero j), load_zero.symm ▸ hle⟩
    · refine ⟨i + 1, Nat.succ_lt_succ hlt, fun j hj => ?_, (load_succ i).symm ▸ hle⟩
      cases j with
      | zero => rwa [load_zero]
      | succ j =>
        rw [load_succ]
        exact hbelow j (Nat.lt_of_succ_lt_succ hj)

end Load

section Carries

variable {bits : Nat} {xs ys rs : List Nat} {limbs i c x y r : Nat} {abort : Abort}

theorem carryOut_mod (hbits : bits < 64) (i x y c : Nat) :
    carryOut bits i c x y ((x + y + c) % 2 ^ bits) =
      if 2 ^ 64 ≤ x + y + c then .error (.abort .wordOverflow)
      else if x + y + c < 2 ^ (bits + 1) then .ok ((x + y + c) >>> bits)
      else .error (.fault (.inconsistentLimb i)) := by
  have hexcess : x + y + c - (x + y + c) % 2 ^ bits = (x + y + c) >>> bits * 2 ^ bits := by
    have hdiv := Nat.mod_add_div' (x + y + c) (2 ^ bits)
    rw [Nat.shiftRight_eq_div_pow]
    omega
  have hshift : ((x + y + c) >>> bits * 2 ^ bits) >>> bits = (x + y + c) >>> bits := by
    rw [Nat.shiftRight_eq_div_pow _ bits, Nat.shiftRight_eq_div_pow _ bits,
      Nat.mul_div_cancel _ (Nat.two_pow_pos bits)]
  have hbool : (x + y + c) >>> bits ≤ 1 ↔ x + y + c < 2 ^ (bits + 1) := by
    rw [Nat.shiftRight_eq_div_pow, ← Nat.lt_succ_iff, Nat.div_lt_iff_lt_mul (Nat.two_pow_pos bits),
      Nat.pow_succ']
  unfold carryOut
  dsimp only
  by_cases hlt : x + y + c < 2 ^ 64
  · rw [if_pos hlt, if_pos (Nat.mod_le _ _), if_pos hbits, if_neg (Nat.not_le.mpr hlt), hexcess, hshift,
      Nat.shiftLeft_eq]
    simp only [true_and, hbool]
    rfl
  · rw [if_neg hlt, if_pos (Nat.not_lt.mp hlt)]
    rfl

theorem carryOut_mod_eq_abort_iff (hbits : bits < 64) :
    carryOut bits i c x y ((x + y + c) % 2 ^ bits) = .error (.abort abort) ↔
      abort = .wordOverflow ∧ 2 ^ 64 ≤ x + y + c := by
  rw [carryOut_mod hbits]
  split
  · next hle => rw [Except.error.injEq, Failure.abort.injEq, and_iff_left hle, eq_comm]
  · next hlt =>
    refine iff_of_false (fun h => ?_) fun h => hlt h.2
    split at h
    · cases h
    · cases h

theorem carryOut_mod_eq_ok_iff (hbits : bits < 64) {c' : Nat} :
    carryOut bits i c x y ((x + y + c) % 2 ^ bits) = .ok c' ↔
      x + y + c < 2 ^ (bits + 1) ∧ (x + y + c) >>> bits = c' := by
  have hpow : 2 ^ (bits + 1) ≤ 2 ^ 64 := Nat.pow_le_pow_right Nat.two_pos hbits
  rw [carryOut_mod hbits]
  split
  · next hle =>
    refine iff_of_false (fun h => ?_) fun h => Nat.not_lt.mpr (Nat.le_trans hpow hle) h.1
    contradiction
  · split
    · next hlt => rw [Except.ok.injEq, and_iff_right hlt]
    · next hge =>
      refine iff_of_false (fun h => ?_) fun h => hge h.1
      contradiction

theorem carryBits_cons_eq_abort_iff :
    carryBits limbs bits i c (x :: xs) (y :: ys) (r :: rs) = .error (.abort abort) ↔
      carryOut bits i c x y r = .error (.abort abort) ∨ ∃ c', carryOut bits i c x y r = .ok c' ∧
        carryBits limbs bits (i + 1) c' xs ys rs = .error (.abort abort) := by
  rw [carryBits, bind_eq_error_iff]
  refine or_congr_right (exists_congr fun c' => and_congr_right fun _ => ?_)
  cases xs with
  | nil =>
    -- a carry that is left at the top is reported, so it does not abort
    constructor
    · intro h
      change (if c' = 0 then _ else _) = _ at h
      split at h
      · contradiction
      · cases h
    · intro h
      contradiction
  | cons x' xs =>
    change (carryBits _ _ _ _ _ _ _ >>= _) = _ ↔ _
    rw [bind_eq_error_iff]
    constructor
    · rintro (h | ⟨_, -, h⟩)
      · exact h
      · contradiction
    · exact .inl

theorem encode_decode_cons (hbits : bits < 64) :
    Limbs.encode bits (xs.length + 1) (Limbs.decode bits (x :: xs) + Limbs.decode bits (y :: ys) + c) =
      (x + y + c) % 2 ^ bits :: Limbs.encode bits xs.length
        (Limbs.decode bits xs + Limbs.decode bits ys + (x + y + c) >>> bits) := by
  rw [Limbs.encode_succ (Nat.le_of_lt hbits), Limbs.decode_cons, Limbs.decode_cons,
    show 2 ^ bits * Limbs.decode bits xs + x + (2 ^ bits * Limbs.decode bits ys + y) + c =
      2 ^ bits * (Limbs.decode bits xs + Limbs.decode bits ys) + (x + y + c) by ring,
    Nat.mul_add_mod, Nat.mul_add_div (Nat.two_pow_pos bits), Nat.shiftRight_eq_div_pow]

theorem carryBits_eq_abort_iff (hbits : bits < 64) (hlen : ys.length = xs.length) :
    carryBits limbs bits i c xs ys
        (Limbs.encode bits xs.length (Limbs.decode bits xs + Limbs.decode bits ys + c)) =
      .error (.abort abort) ↔ abort = .wordOverflow ∧ ∃ j, OverflowsAt bits c xs ys j := by
  -- from the lowest limb on: behind it is the same loop, with the carry out of it
  induction xs generalizing i c ys with
  | nil =>
    constructor
    · intro h
      contradiction
    · rintro ⟨-, j, hj⟩
      exact absurd hj not_overflowsAt_nil
  | cons x xs ih =>
    obtain ⟨y, ys, rfl⟩ := List.exists_cons_of_length_eq_add_one hlen
    rw [List.length_cons, encode_decode_cons hbits, carryBits_cons_eq_abort_iff,
      carryOut_mod_eq_abort_iff hbits, exists_overflowsAt_cons_iff]
    simp only [carryOut_mod_eq_ok_iff hbits]
    constructor
    · rintro (⟨habort, hle⟩ | ⟨_, ⟨hlt, rfl⟩, hrest⟩)
      · exact ⟨habort, .inl hle⟩
      · obtain ⟨habort, hj⟩ := (ih (Nat.succ.inj hlen)).mp hrest
        exact ⟨habort, .inr ⟨hlt, hj⟩⟩
    · rintro ⟨habort, hle | ⟨hlt, hj⟩⟩
      · exact .inl ⟨habort, hle⟩
      · exact .inr ⟨_, ⟨hlt, rfl⟩, (ih (Nat.succ.inj hlen)).mpr ⟨habort, hj⟩⟩

end Carries

/--
A sum of runs of cells whose numbers leave room for the result, while the words of a limb overflow. On the
first trace the operands are read, and on the second one the result is written.
-/
inductive Overflows (s : LimbSum) (t t' : Trace) : Prop where
  | intro {b r : CellSlice} {xs ys : List Native} {i : Nat} (hb : s.b = .cells b) (hr : s.result = .cells r)
    (hxs : t.readSlice s.a = .ok xs) (hys : t.readSlice b = .ok ys)
    (hfits : Limbs.decodeNative s.limbBits xs + Limbs.decodeNative s.limbBits ys <
      2 ^ (s.limbBits * s.a.len))
    (hwrite : TraceM.writeSlice r ((Limbs.encode s.limbBits s.a.len (Limbs.decodeNative s.limbBits xs +
      Limbs.decodeNative s.limbBits ys)).map Native.ofNat) t = .ok () t')
    (hoverflow : OverflowsAt s.limbBits 0 (xs.map (·.val)) (ys.map (·.val)) i)

section Write

variable {s : LimbSum} {t t' : Trace} {b r : CellSlice} {xs ys : List Native} {abort : Abort}

theorem Overflows.word_lt (h : s.Overflows t t') : 64 < s.limbBits * s.a.len := by
  obtain ⟨-, -, -, -, hfits, -, hoverflow⟩ := h
  rw [← Nat.pow_lt_pow_iff_right (Nat.lt_succ_self 1)]
  calc
    2 ^ 64 ≤ _ := hoverflow.le_load
    _ ≤ _ := load_le _ _ _ _ _
    _ < 2 ^ (s.limbBits * s.a.len) := hfits

theorem perform_carriesPlan_eq_abort_iff {as bs rs : List Nat} :
    (Plan.ofExcept (s.carriesPlan as bs rs)).perform t = .error (.abort abort) t' ↔
      carryBits s.a.len s.limbBits 0 0 as bs rs = .error (.abort abort) ∧ t = t' := by
  unfold carriesPlan
  cases carryBits s.a.len s.limbBits 0 0 as bs rs with
  | error f =>
    change EStateM.Result.error f t = _ ↔ _
    rw [EStateM.Result.error.injEq, Except.error.injEq]
  | ok cs =>
    have hwrite : TraceM.NoAbort (Plan.writeArray .bit s.carries (cs.map Native.ofNat) .done).perform :=
      .bind (.of_misplaces (.writeArray _ _)) fun _ => .pure ()
    refine iff_of_false (hwrite t abort t') fun h => ?_
    obtain ⟨h, -⟩ := h
    contradiction

theorem plan_cells (hbits : s.limbBits ≤ 62) (hb : s.b = .cells b) (hr : s.result = .cells r)
    (hxs : t.readSlice s.a = .ok xs) (hys : t.readSlice b = .ok ys) :
    s.plan t = if Limbs.decodeNative s.limbBits xs + Limbs.decodeNative s.limbBits ys <
          2 ^ (s.limbBits * s.a.len) then
        let sum := Limbs.encode s.limbBits s.a.len
          (Limbs.decodeNative s.limbBits xs + Limbs.decodeNative s.limbBits ys)
        .ok (.write r (sum.map Native.ofNat)
          (.ofExcept (s.carriesPlan (xs.map (·.val)) (ys.map (·.val)) sum)))
      else .error (.fault (.sumTooWide s.a.len)) := by
  have hread : s.b.read t = .ok (ys.map (·.val)) := by
    rw [hb]
    exact bind_eq_ok_iff.mpr ⟨ys, hys, rfl⟩
  rw [plan_result hr hxs hread]
  exact if_congr Iff.rfl (derivedPlan_encode hbits _ _ _ _) rfl

theorem overflows_iff (hb : s.b = .cells b) (hr : s.result = .cells r) (hxs : t.readSlice s.a = .ok xs)
    (hys : t.readSlice b = .ok ys) : s.Overflows t t' ↔
      Limbs.decodeNative s.limbBits xs + Limbs.decodeNative s.limbBits ys < 2 ^ (s.limbBits * s.a.len) ∧
        TraceM.writeSlice r ((Limbs.encode s.limbBits s.a.len (Limbs.decodeNative s.limbBits xs +
          Limbs.decodeNative s.limbBits ys)).map Native.ofNat) t = .ok () t' ∧
        ∃ i, OverflowsAt s.limbBits 0 (xs.map (·.val)) (ys.map (·.val)) i := by
  constructor
  · intro h
    obtain ⟨hb', hr', hxs', hys', hfits, hwrite, hoverflow⟩ := h
    cases hb.symm.trans hb'
    cases hr.symm.trans hr'
    cases hxs.symm.trans hxs'
    cases hys.symm.trans hys'
    exact ⟨hfits, hwrite, _, hoverflow⟩
  · rintro ⟨hfits, hwrite, i, hoverflow⟩
    exact .intro hb hr hxs hys hfits hwrite hoverflow

theorem write_of_fits_eq_abort_iff (hbits : s.limbBits ≤ 62) (hb : s.b = .cells b) (hr : s.result = .cells r)
    (hlen : b.len = s.a.len) (hxs : t.readSlice s.a = .ok xs) (hys : t.readSlice b = .ok ys)
    (hfits : Limbs.decodeNative s.limbBits xs + Limbs.decodeNative s.limbBits ys <
      2 ^ (s.limbBits * s.a.len)) :
    (Instruction.limbSum s).write t = .error (.abort abort) t' ↔
      abort = .wordOverflow ∧ s.Overflows t t' := by
  have hlenx : (xs.map (·.val)).length = s.a.len := (List.length_map _).trans (Trace.length_readSlice hxs)
  have hleny : (ys.map (·.val)).length = (xs.map (·.val)).length := by
    rw [hlenx, List.length_map, Trace.length_readSlice hys, hlen]
  have hcarries := @carryBits_eq_abort_iff s.limbBits _ _ s.a.len 0 0 abort
    (Nat.lt_of_le_of_lt hbits (by decide)) hleny
  rw [hlenx] at hcarries
  have hplan := plan_cells hbits hb hr hxs hys
  rw [if_pos hfits] at hplan
  have hwrite : (Instruction.limbSum s).write t = (TraceM.writeSlice r _ >>= fun _ => Plan.perform _) t :=
    Instruction.write_eq_perform (i := .limbSum s) hplan
  have hnever (zs : List Native) : TraceM.NoAbort (TraceM.writeSlice r zs) :=
    .of_misplaces (.writeSlice r zs)
  rw [hwrite, run_bind_eq_error_iff, or_iff_right (hnever _ t abort t'), overflows_iff hb hr hxs hys]
  simp only [perform_carriesPlan_eq_abort_iff]
  constructor
  · rintro ⟨_, t₁, hslice, hcarry, rfl⟩
    obtain ⟨habort, hoverflow⟩ := hcarries.mp hcarry
    exact ⟨habort, hfits, hslice, hoverflow⟩
  · rintro ⟨habort, -, hslice, hoverflow⟩
    exact ⟨(), t', hslice, hcarries.mpr ⟨habort, hoverflow⟩, rfl⟩

theorem write_cells_eq_abort_iff (hbits : s.limbBits ≤ 62) (hb : s.b = .cells b) (hr : s.result = .cells r)
    (hlen : b.len = s.a.len) :
    (Instruction.limbSum s).write t = .error (.abort abort) t' ↔
      abort = .wordOverflow ∧ s.Overflows t t' := by
  have hfault (cause : Fault) (hplan : s.plan t = .error (.fault cause)) (hnot : ¬ s.Overflows t t') :
      (Instruction.limbSum s).write t = .error (.abort abort) t' ↔
        abort = .wordOverflow ∧ s.Overflows t t' := by
    rw [Instruction.write_eq_error (i := .limbSum s) hplan]
    refine iff_of_false (fun h => ?_) fun h => hnot h.2
    cases h
  -- An operand that is not readable, or a sum too wide for the limbs, is a fault before any carry is
  -- computed; only past these can a word overflow.
  cases hxs : t.readSlice s.a with
  | error cause =>
    refine hfault cause ?_ fun h => ?_
    · unfold plan
      rw [hxs]
      rfl
    · obtain ⟨-, -, hxs', -, -, -, -⟩ := h
      cases hxs.symm.trans hxs'
  | ok xs =>
    cases hys : t.readSlice b with
    | error cause =>
      refine hfault cause ?_ fun h => ?_
      · unfold plan
        rw [hxs, hb, hr]
        dsimp only [LimbOperand.read]
        rw [hys]
        rfl
      · obtain ⟨hb', -, -, hys', -, -, -⟩ := h
        cases hb.symm.trans hb'
        cases hys.symm.trans hys'
    | ok ys =>
      by_cases hfits : Limbs.decodeNative s.limbBits xs + Limbs.decodeNative s.limbBits ys <
          2 ^ (s.limbBits * s.a.len)
      · exact write_of_fits_eq_abort_iff hbits hb hr hlen hxs hys hfits
      · have hplan := plan_cells hbits hb hr hxs hys
        rw [if_neg hfits] at hplan
        exact hfault _ hplan fun h => hfits ((overflows_iff hb hr hxs hys).mp h).1

end Write

section Recorded

variable {a : CellSlice} {b result : LimbOperand} {limbBits : Nat}

theorem eq_recorded_of_run {builder builder' : Builder} {s : LimbSum}
    (hrun : (Gadget.limbSum a b result limbBits).run builder = .ok (s, builder')) :
    s = recorded a b result limbBits builder.numCells ∧ b.length = a.len ∧ result.length = a.len := by
  obtain ⟨hpos, hlenb, hlenr⟩ : a.len ≠ 0 ∧ b.length = a.len ∧ result.length = a.len := Needs.needs hrun
  obtain ⟨hs, -⟩ := (Scenario.addsAt_recorded (Nat.pos_of_ne_zero hpos) hlenb hlenr _).of_run hrun
  exact ⟨hs, hlenb, hlenr⟩

theorem noAbort_write_of_const (hbits : limbBits ≤ 28) (hlenb : b.length = a.len)
    (hlenr : result.length = a.len) (hconst : ∀ limbs, b = .const limbs → ∀ x ∈ limbs, x < 2 ^ limbBits)
    (hmode : (∀ c, b ≠ .cells c) ∨ ∀ r, result ≠ .cells r) (k : Nat) :
    TraceM.NoAbort (Instruction.limbSum (recorded a b result limbBits k)).write := by
  cases b with
  | cells c =>
    cases result with
    | cells r =>
      obtain h | h := hmode
      · exact absurd rfl (h c)
      · exact absurd rfl (h r)
    | const zs =>
      have hderives : (recorded a (.cells c) (.const zs) limbBits k).Derives := .summand hbits hlenr
      exact (Instruction.Guarded.limbSum hderives).abortsIn
  | const ys =>
    have hys := hconst ys rfl
    cases result with
    | cells r =>
      have hderives : (recorded a (.const ys) (.cells r) limbBits k).Derives := .result hbits hlenb hys
      exact (Instruction.Guarded.limbSum hderives).abortsIn
    | const zs =>
      refine Instruction.abortsIn_of_orderly fun t => Plan.Orderly.of_fault fun xs hxs => ?_
      have hlen : (xs.map (·.val)).length = a.len := (List.length_map _).trans (Trace.length_readSlice hxs)
      exact orderly_carriesPlan hbits rfl (List.forall_mem_map.mpr fun x _ => x.isLt) hys
        (hlenb.trans hlen.symm) (hlenr.trans hlen.symm)

/--
Whatever the cells hold, the witness side of a recorded limb sum aborts exactly if both operands and the
result are runs of cells and the words of a limb overflow. With a constant operand, or where all limbs
together have no more bits than a word, it goes through or reports a fault.
-/
theorem write_aborts_iff_overflows (hbits : limbBits ≤ 28)
    (hconst : ∀ limbs, b = .const limbs → ∀ x ∈ limbs, x < 2 ^ limbBits) {builder builder' : Builder}
    {s : LimbSum} (hrun : (Gadget.limbSum a b result limbBits).run builder = .ok (s, builder')) (t : Trace) :
    (∀ abort t', (Instruction.limbSum s).write t = .error (.abort abort) t' ↔
        abort = .wordOverflow ∧ s.Overflows t t') ∧
      ((∀ c, b ≠ .cells c) ∨ (∀ r, result ≠ .cells r) ∨ limbBits * a.len ≤ 64 →
        (∃ t', (Instruction.limbSum s).write t = .ok () t') ∨
          ∃ cause t', (Instruction.limbSum s).write t = .error (.fault cause) t') := by
  obtain ⟨rfl, hlenb, hlenr⟩ := eq_recorded_of_run hrun
  have haborts (abort : Abort) (t' : Trace) :
      (Instruction.limbSum (recorded a b result limbBits builder.numCells)).write t =
          .error (.abort abort) t' ↔
        abort = .wordOverflow ∧ (recorded a b result limbBits builder.numCells).Overflows t t' := by
    -- A constant operand leaves no room for the words to grow; two runs of cells do.
    by_cases hmode : (∀ c, b ≠ .cells c) ∨ ∀ r, result ≠ .cells r
    · refine iff_of_false (noAbort_write_of_const hbits hlenb hlenr hconst hmode _ t abort t') ?_
      rintro ⟨-, h⟩
      obtain ⟨hb, hr, -, -, -, -, -⟩ := h
      obtain hmode | hmode := hmode
      · exact hmode _ hb
      · exact hmode _ hr
    · rw [not_or] at hmode
      simp only [not_forall, ne_eq, not_not] at hmode
      obtain ⟨⟨c, rfl⟩, r, rfl⟩ := hmode
      exact write_cells_eq_abort_iff (Nat.le_trans hbits (by decide)) rfl rfl hlenb
  refine ⟨haborts, fun hsafe => ?_⟩
  cases hwrite : (Instruction.limbSum (recorded a b result limbBits builder.numCells)).write t with
  | ok u t' => exact .inl ⟨t', rfl⟩
  | error f t' =>
    cases f with
    | fault cause => exact .inr ⟨cause, t', rfl⟩
    | abort abort =>
      obtain ⟨-, h⟩ := (haborts abort t').mp hwrite
      have hword := h.word_lt
      obtain ⟨hb, hr, -, -, -, -, -⟩ := h
      obtain hsafe | hsafe | hsafe := hsafe
      · exact absurd hb (hsafe _)
      · exact absurd hr (hsafe _)
      · exact absurd hword (Nat.not_lt.mpr hsafe)

theorem write_aborts_iff_overflows_carry :
    let s := recorded ⟨0, 4⟩ (.cells ⟨4, 4⟩) (.cells ⟨8, 4⟩) 28 12
    let t := Trace.ofRow #[some (Native.ofNat (2 ^ 28 - 1)), some (Native.ofNat (2 ^ 63)), some 0, some 0,
      some 1, some (Native.ofNat (2 ^ 63 - 1)), some 0, some 0, none, none, none, none, none, none, none]
        (Nat.succ_pos 14)
    (∃ builder, (Gadget.limbSum ⟨0, 4⟩ (.cells ⟨4, 4⟩) (.cells ⟨8, 4⟩) 28).run
        { Builder.empty with numCells := 12 } = .ok (s, builder)) ∧
      load 28 0 [2 ^ 28 - 1, 2 ^ 63, 0, 0] [1, 2 ^ 63 - 1, 0, 0] 1 = 2 ^ 64 ∧
      ∃ t', (Instruction.limbSum s).write t = .error (.abort .wordOverflow) t' := by
  -- the second limbs overflow, but only with the carry of the first ones
  intro s t
  have hrun : ∃ builder, (Gadget.limbSum ⟨0, 4⟩ (.cells ⟨4, 4⟩) (.cells ⟨8, 4⟩) 28).run
      { Builder.empty with numCells := 12 } = .ok (s, builder) := ⟨_, rfl⟩
  refine ⟨hrun, by decide, ?_⟩
  obtain ⟨builder, hrun⟩ := hrun
  have hconst : ∀ limbs, LimbOperand.cells ⟨4, 4⟩ = .const limbs → ∀ x ∈ limbs, x < 2 ^ 28 :=
    fun limbs h => by contradiction
  obtain ⟨haborts, -⟩ := write_aborts_iff_overflows (Nat.le_refl 28) hconst hrun t
  let xs : List Native := [Native.ofNat (2 ^ 28 - 1), Native.ofNat (2 ^ 63), 0, 0]
  let ys : List Native := [1, Native.ofNat (2 ^ 63 - 1), 0, 0]
  have hdigits : Limbs.encode 28 4 (Limbs.decodeNative 28 xs + Limbs.decodeNative 28 ys) = [0, 0, 0, 256] := by
    decide
  obtain ⟨t', hslice⟩ : ∃ t', TraceM.writeSlice ⟨8, 4⟩ ((Limbs.encode 28 4 (Limbs.decodeNative 28 xs +
      Limbs.decodeNative 28 ys)).map Native.ofNat) t = .ok () t' := by
    rw [hdigits]
    exact ⟨_, rfl⟩
  have hoverflow : OverflowsAt 28 0 (xs.map (·.val)) (ys.map (·.val)) 1 :=
    ⟨by decide, by decide, by decide⟩
  have hxs : t.readSlice ⟨0, 4⟩ = .ok xs := Trace.readSlice_ofRow _ (show 4 ≤ 15 by decide) rfl
  have hys : t.readSlice ⟨4, 4⟩ = .ok ys := Trace.readSlice_ofRow _ (show 8 ≤ 15 by decide) rfl
  have hoverflows : s.Overflows t t' := .intro rfl rfl hxs hys (by decide) hslice hoverflow
  exact ⟨t', (haborts .wordOverflow t').mpr ⟨rfl, hoverflows⟩⟩

def wideSum : List Call :=
  [.allocArray .element 3, .allocArray .element 3, .allocArray .element 3,
    .limbSum ⟨0, 3⟩ (.cells ⟨3, 3⟩) (.cells ⟨6, 3⟩) 28]

theorem write_aborts_on_half_words :
    let s := recorded ⟨0, 3⟩ (.cells ⟨3, 3⟩) (.cells ⟨6, 3⟩) 28 9
    let t := Trace.ofRow #[some (Native.ofNat (2 ^ 63)), some 0, some 0, some (Native.ofNat (2 ^ 63)),
      some 0, some 0, none, none, none, none, none] (Nat.succ_pos 10)
    (∃ answers b, (wideSum.mapM Call.run).run .empty = .ok (answers, b) ∧
        b.instructions.toList = [.boolean ⟨9, 2⟩, .limbSum s]) ∧
      ∃ t', (Instruction.limbSum s).write t = .error (.abort .wordOverflow) t' :=
  ⟨⟨_, _, rfl, rfl⟩, _, rfl⟩

end Recorded

end LimbSum

end ForeignCurve
