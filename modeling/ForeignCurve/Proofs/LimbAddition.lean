import ForeignCurve.Proofs.Gadget.Limb
import ForeignCurve.Proofs.Instruction.Outputs
import ForeignCurve.Proofs.Instruction.Written

/-!
The addition of limb sequences is the addition of integers, for operands of any kind: what the gate
accepts adds up, and where the numbers add up the witness pass writes the only limbs and carries that
the gate accepts.
-/

namespace ForeignCurve

variable {σ τ : Store} {n m : Nat} {t t' : Trace} {xs ys ys' zs zs' cs cs' : List Native}

namespace LimbOperand

variable {o : LimbOperand}

theorem Reads.length_eq (h : o.Reads σ n ys) : ys.length = o.length := by
  cases o with
  | cells s => exact Store.Reads.length_eq h
  | const limbs =>
    obtain ⟨ys', hwords, h⟩ := bind_eq_ok_iff.mp h
    obtain rfl := List.map_injective_iff.mpr (Option.some_injective _) (Except.ok.inj h)
    rw [LimbOperand.length, ← Native.map_val_of_ofWords hwords, List.length_map]

theorem reads_of_read (h : o.read t = .ok (ys.map (·.val))) (hle : t.store ≤ σ) :
    o.Reads σ t.numCells ys := by
  cases o with
  | cells s =>
    obtain ⟨ys', hread, h⟩ := bind_eq_ok_iff.mp h
    obtain rfl := List.map_injective_iff.mpr Fin.val_injective (Except.ok.inj h)
    exact (Trace.readSlice_eq_ok_iff.mp hread).mono hle
  | const limbs =>
    cases h
    exact bind_eq_ok_iff.mpr ⟨ys, Native.ofWords_map_val ys, rfl⟩

end LimbOperand

namespace LimbSum

/-- Limbs in range and boolean carries for which the gate of a sum vanishes. -/
structure Solution (s : LimbSum) (σ : Store) (n : Nat) (xs ys zs cs : List Native) : Prop where
  a : σ.Reads n s.a xs
  b : s.b.Reads σ n ys
  result : s.result.Reads σ n zs
  carries : σ.Reads n s.carries.slice cs
  small_a : Small s.limbBits xs
  small_b : Small s.limbBits ys
  small_result : Small s.limbBits zs
  boolean : ∀ c ∈ cs, c = 0 ∨ c = 1
  holds : (Instruction.limbSum s).Holds σ n

variable {a : CellSlice} {b result : LimbOperand} {limbBits k : Nat}

namespace Solution

section Unique

variable (h : (recorded a b result limbBits k).Solution σ n xs ys zs cs) (hbits : limbBits ≤ 62)
  (hpos : 0 < a.len) (hlenb : b.length = a.len) (hlenr : result.length = a.len)

include h hlenb in
theorem length_b : ys.length = xs.length :=
  (h.b.length_eq.trans hlenb).trans h.a.length_eq.symm

include h hlenr in
theorem length_result : zs.length = xs.length :=
  (h.result.length_eq.trans hlenr).trans h.a.length_eq.symm

include h hbits hpos hlenb hlenr

omit hpos in
theorem exists_carries : Carries limbBits 0 (xs.map (·.val)) (ys.map (·.val)) (zs.map (·.val))
    (cs.map (·.val)) := by
  have hone : ∀ c ∈ cs, c.val ≤ 1 := by
    intro c hc
    obtain rfl | rfl := h.boolean c hc
    · exact Nat.zero_le 1
    · exact Nat.le_refl 1
  exact carries_of_differences hbits none (Nat.zero_le 1) (h.length_b hlenb) (h.length_result hlenr)
    (by rw [h.carries.length_eq, h.a.length_eq]; rfl) h.small_a h.small_b h.small_result hone
    ((holds_recorded_iff hbits h.a h.b h.result h.carries).mp h.holds)

theorem decode_add : Limbs.decodeNative limbBits xs + Limbs.decodeNative limbBits ys =
    Limbs.decodeNative limbBits zs := by
  refine (h.exists_carries hbits hlenb hlenr).decode_add ?_ ?_ ?_
  · rw [List.length_map, h.a.length_eq]
    exact hpos
  · rw [List.length_map, List.length_map, h.length_b hlenb]
  · rw [List.length_map, List.length_map, h.length_result hlenr]

theorem unique (h' : (recorded a b result limbBits k).Solution τ m xs ys' zs' cs')
    (hsame : ys' = ys ∨ zs' = zs) : ys' = ys ∧ zs' = zs ∧ cs' = cs := by
  have hsum := h.decode_add hbits hpos hlenb hlenr
  have hsum' := h'.decode_add hbits hpos hlenb hlenr
  have hwidth : limbBits ≤ 64 := Nat.le_trans hbits (by decide)
  have hys : ys' = ys := by
    obtain hys | rfl := hsame
    · exact hys
    · exact eq_of_decodeNative_eq hwidth (h'.b.length_eq.trans h.b.length_eq.symm) h'.small_b h.small_b
        (by omega)
  subst hys
  have hzs : zs' = zs := eq_of_decodeNative_eq hwidth (h'.result.length_eq.trans h.result.length_eq.symm)
    h'.small_result h.small_result (by omega)
  subst hzs
  have hcs := (h'.exists_carries hbits hlenb hlenr).unique (h.exists_carries hbits hlenb hlenr)
  exact ⟨rfl, rfl, List.map_injective_iff.mpr Fin.val_injective hcs⟩

end Unique

theorem of_carries {ws : List Nat} (hbits : limbBits ≤ 62) (ha : σ.Reads n a xs) (hb : b.Reads σ n ys)
    (hr : result.Reads σ n zs) (hc : σ.Reads n ⟨k, a.len - 1⟩ (ws.map Native.ofNat))
    (hxs : Small limbBits xs) (hys : Small limbBits ys) (hzs : Small limbBits zs)
    (h : Carries limbBits 0 (xs.map (·.val)) (ys.map (·.val)) (zs.map (·.val)) ws) :
    (recorded a b result limbBits k).Solution σ n xs ys zs (ws.map Native.ofNat) where
  a := ha
  b := hb
  result := hr
  carries := hc
  small_a := hxs
  small_b := hys
  small_result := hzs
  boolean := h.boolean
  holds := (holds_recorded_iff hbits ha hb hr hc).mpr (h.differences_eq_zero none rfl)

end Solution

theorem exists_plan_of_decode_add (b result : LimbOperand) (k : Nat) (hbits : limbBits ≤ 62)
    (hlenx : xs.length = a.len) (hleny : ys.length = a.len) (hlenz : zs.length = a.len)
    (hxs : Small limbBits xs) (hys : Small limbBits ys) (hzs : Small limbBits zs)
    (h : Limbs.decodeNative limbBits xs + Limbs.decodeNative limbBits ys = Limbs.decodeNative limbBits zs) :
    ∃ p, (recorded a b result limbBits k).carriesPlan (xs.map (·.val)) (ys.map (·.val))
        (zs.map (·.val)) = .ok p ∧ p.Fits [⟨k, a.len - 1⟩] ∧
      ∀ σ n, k + (a.len - 1) ≤ n → p.Written σ n → σ.Reads n a xs → b.Reads σ n ys →
        result.Reads σ n zs → ∃ cs, (recorded a b result limbBits k).Solution σ n xs ys zs cs := by
  obtain ⟨ws, hws, hplan⟩ := exists_carriesPlan (s := recorded a b result limbBits k) hbits
    (by rw [List.length_map, List.length_map, hleny, hlenx])
    (by rw [List.length_map, List.length_map, hlenz, hlenx]) (List.forall_mem_map.mpr hxs)
    (List.forall_mem_map.mpr hys) (List.forall_mem_map.mpr hzs) h
  have hlen : (ws.map Native.ofNat).length = a.len - 1 := by
    rw [List.length_map, hws.length_eq, List.length_map, hlenx]
  refine ⟨_, hplan, .writeArray rfl rfl hlen .done, ?_⟩
  intro σ n hbound hwritten ha hb hr
  have hc := (Store.reads_iff_mapM_get rfl hbound).mpr hwritten.1
  exact ⟨_, .of_carries hbits ha hb hr hc hxs hys hzs hws⟩

theorem derivedPlan_map_val (derived : CellSlice) (zs : List Native) {rest : Except Failure Plan}
    {p : Plan} (h : rest = .ok p) :
    derivedPlan derived (zs.map (·.val)) rest = .ok (.write derived zs p) := by
  rw [h]
  exact bind_eq_ok_iff.mpr ⟨zs, liftM_abort_eq_ok_iff.mpr (Native.ofWords_map_val zs), rfl⟩

theorem exists_limbs (hbits : limbBits ≤ 62) {count N : Nat} (hN : N < 2 ^ (limbBits * count)) :
    ∃ zs : List Native, zs.length = count ∧ Small limbBits zs ∧ Limbs.decodeNative limbBits zs = N ∧
      zs.map (·.val) = Limbs.encode limbBits count N := by
  have hval := Limbs.map_val_encode (Nat.lt_of_le_of_lt hbits (by decide)) count N
  refine ⟨_, by rw [List.length_map, Limbs.length_encode], ?_, ?_, hval⟩
  · intro z hz
    have hmem := List.mem_map_of_mem (f := (·.val)) hz
    rw [hval] at hmem
    exact Limbs.lt_of_mem_encode hmem
  · unfold Limbs.decodeNative
    rw [hval, Limbs.decode_encode (Nat.le_trans hbits (by decide)), Nat.mod_eq_of_lt hN]

section Witness

variable (hbits : limbBits ≤ 62) (hbound : k + (a.len - 1) ≤ t.numCells) (ha : t.readSlice a = .ok xs)
  (hxs : Small limbBits xs)

include hbits hbound ha hxs

theorem writesIff_result {r : CellSlice} (hlenb : b.length = a.len) (hlenr : r.len = a.len)
    (hb : b.read t = .ok (ys.map (·.val))) (hys : Small limbBits ys) :
    (Instruction.limbSum (recorded a b (.cells r) limbBits k)).WritesIff t
      (Limbs.decodeNative limbBits xs + Limbs.decodeNative limbBits ys < 2 ^ (limbBits * a.len))
      (· = .sumTooWide a.len) [r, ⟨k, a.len - 1⟩] fun t' =>
        ∃ zs cs, (recorded a b (.cells r) limbBits k).Solution t'.store t'.numCells xs ys zs cs := by
  have hplan := plan_result (s := recorded a b (.cells r) limbBits k) rfl ha hb
  have hlenx := (Trace.readSlice_eq_ok_iff.mp ha).length_eq
  have hleny := (LimbOperand.reads_of_read hb (Store.le_refl _)).length_eq.trans hlenb
  apply Instruction.WritesIff.of_plan
  · intro hlt
    replace hplan := hplan.trans (if_pos hlt)
    obtain ⟨zs, hlenz, hzs, hsum, hval⟩ := exists_limbs hbits hlt
    obtain ⟨p, hcarries, hfits, hpost⟩ :=
      exists_plan_of_decode_add b (.cells r) k hbits hlenx hleny hlenz hxs hys hzs hsum.symm
    have hderived := derivedPlan_map_val r zs hcarries
    rw [hval] at hderived
    refine ⟨.write r zs p, hplan.trans hderived, .write (hlenz.trans hlenr.symm) hfits, ?_⟩
    intro t' hextends hwritten
    have hreads := hextends.readSlice ha
    have hreadsb := LimbOperand.reads_of_read hb hextends.store
    rw [← hextends.numCells] at hbound hreadsb
    exact ⟨zs, hpost _ _ hbound hwritten.2 (Trace.readSlice_eq_ok_iff.mp hreads) hreadsb hwritten.1⟩
  · intro hlt
    exact ⟨_, rfl, hplan.trans (if_neg hlt)⟩

theorem writesIff_summand {c : CellSlice} (hlenb : c.len = a.len) (hlenz : zs.length = a.len)
    (hzs : Small limbBits zs) :
    (Instruction.limbSum (recorded a (.cells c) (.const (zs.map (·.val))) limbBits k)).WritesIff t
      (Limbs.decodeNative limbBits xs ≤ Limbs.decodeNative limbBits zs)
      (· = .negativeDifference (Limbs.decodeNative limbBits xs) (Limbs.decodeNative limbBits zs))
      [c, ⟨k, a.len - 1⟩] fun t' => ∃ ys cs, (recorded a (.cells c) (.const (zs.map (·.val))) limbBits
        k).Solution t'.store t'.numCells xs ys zs cs := by
  have hplan := plan_summand (s := recorded a (.cells c) (.const (zs.map (·.val))) limbBits k) rfl rfl ha
  have hlenx := (Trace.readSlice_eq_ok_iff.mp ha).length_eq
  apply Instruction.WritesIff.of_plan
  · intro hle
    replace hplan := hplan.trans (if_pos hle)
    have hlt := Limbs.decodeNative_lt hzs
    rw [hlenz] at hlt
    obtain ⟨ys, hleny, hys, hdifference, hval⟩ := exists_limbs hbits
      (Nat.lt_of_le_of_lt (Nat.sub_le _ (Limbs.decodeNative limbBits xs)) hlt)
    obtain ⟨p, hcarries, hfits, hpost⟩ := exists_plan_of_decode_add (.cells c)
      (.const (zs.map (·.val))) k hbits hlenx hleny hlenz hxs hys hzs (by omega)
    have hderived := derivedPlan_map_val c ys hcarries
    rw [hval] at hderived
    refine ⟨.write c ys p, hplan.trans hderived, .write (hleny.trans hlenb.symm) hfits, ?_⟩
    intro t' hextends hwritten
    have hreads := hextends.readSlice ha
    have hreadsr := LimbOperand.reads_of_read (o := .const (zs.map (·.val))) rfl hextends.store
    rw [← hextends.numCells] at hbound hreadsr
    exact ⟨ys, hpost _ _ hbound hwritten.2 (Trace.readSlice_eq_ok_iff.mp hreads) hwritten.1 hreadsr⟩
  · intro hle
    exact ⟨_, rfl, hplan.trans (if_neg hle)⟩

theorem writesIff_const (hpos : 0 < a.len) (hleny : ys.length = a.len) (hlenz : zs.length = a.len)
    (hys : Small limbBits ys) (hzs : Small limbBits zs) :
    (Instruction.limbSum (recorded a (.const (ys.map (·.val))) (.const (zs.map (·.val))) limbBits
      k)).WritesIff t
      (Limbs.decodeNative limbBits xs + Limbs.decodeNative limbBits ys = Limbs.decodeNative limbBits zs)
      (Unequal a.len) [⟨k, a.len - 1⟩] fun t' => ∃ cs, (recorded a (.const (ys.map (·.val)))
        (.const (zs.map (·.val))) limbBits k).Solution t'.store t'.numCells xs ys zs cs := by
  have hplan := plan_const (s := recorded a (.const (ys.map (·.val))) (.const (zs.map (·.val))) limbBits k)
    rfl rfl ha
  have hlenx := (Trace.readSlice_eq_ok_iff.mp ha).length_eq
  apply Instruction.WritesIff.of_plan
  · intro hsum
    obtain ⟨p, hcarries, hfits, hpost⟩ := exists_plan_of_decode_add (.const (ys.map (·.val)))
      (.const (zs.map (·.val))) k hbits hlenx hleny hlenz hxs hys hzs hsum
    refine ⟨p, hplan.trans hcarries, hfits, ?_⟩
    intro t' hextends hwritten
    have hreads := hextends.readSlice ha
    have hconst (vs : List Native) :=
      LimbOperand.reads_of_read (o := .const (vs.map (·.val))) rfl hextends.store
    rw [← hextends.numCells] at hbound hconst
    exact hpost _ _ hbound hwritten (Trace.readSlice_eq_ok_iff.mp hreads) (hconst ys) (hconst zs)
  · intro hsum
    obtain ⟨cause, hcause, herror⟩ := carriesPlan_eq_error (s := recorded a (.const (ys.map (·.val)))
      (.const (zs.map (·.val))) limbBits k) hbits (by rwa [List.length_map, hlenx])
      (by rw [List.length_map, List.length_map, hleny, hlenx])
      (by rw [List.length_map, List.length_map, hlenz, hlenx]) (List.forall_mem_map.mpr hxs)
      (List.forall_mem_map.mpr hys) hsum
    exact ⟨cause, hcause, hplan.trans herror⟩

end Witness

end LimbSum

open LimbSum

/--
What the gate accepts adds up over the integers. The witness pass goes through exactly if the numbers
leave room for the operand that is derived, or add up if there is none, and what it writes is the only
solution.
-/
theorem limbSum_exact {a : CellSlice} {b result : LimbOperand} {limbBits : Nat} (hbits : limbBits ≤ 62)
    (hpos : 0 < a.len) (hlenb : b.length = a.len) (hlenr : result.length = a.len) (k : Nat) :
    let sum := recorded a b result limbBits k
    let carries : CellSlice := ⟨k, a.len - 1⟩
    let decode := Limbs.decodeNative limbBits
    (Gadget.limbSum a b result limbBits).AddsAt k sum (a.len - 1)
        ((Record.ruleInstruction? .boolean carries).toList ++ [.limbSum sum]) ∧
      (∀ σ n xs ys zs cs, sum.Solution σ n xs ys zs cs → decode xs + decode ys = decode zs) ∧
      ∀ t xs, carries.stop ≤ t.numCells → t.readSlice a = .ok xs → Small limbBits xs →
        (∀ r ys, result = .cells r → b.read t = .ok (ys.map (·.val)) → Small limbBits ys →
          (Instruction.limbSum sum).WritesIff t (decode xs + decode ys < 2 ^ (limbBits * a.len))
            (· = .sumTooWide a.len) [r, carries] fun t' => ∃ zs cs,
              sum.Solution t'.store t'.numCells xs ys zs cs ∧
                ∀ σ n zs' cs', sum.Solution σ n xs ys zs' cs' → zs' = zs ∧ cs' = cs) ∧
        (∀ c zs, b = .cells c → result = .const (zs.map (·.val)) → Small limbBits zs →
          (Instruction.limbSum sum).WritesIff t (decode xs ≤ decode zs)
            (· = .negativeDifference (decode xs) (decode zs)) [c, carries] fun t' => ∃ ys cs,
              sum.Solution t'.store t'.numCells xs ys zs cs ∧
                ∀ σ n ys' cs', sum.Solution σ n xs ys' zs cs' → ys' = ys ∧ cs' = cs) ∧
        ∀ ys zs, b = .const (ys.map (·.val)) → result = .const (zs.map (·.val)) → Small limbBits ys →
          Small limbBits zs → (Instruction.limbSum sum).WritesIff t (decode xs + decode ys = decode zs)
            (Unequal a.len) [carries] fun t' => ∃ cs,
              sum.Solution t'.store t'.numCells xs ys zs cs ∧
                ∀ σ n cs', sum.Solution σ n xs ys zs cs' → cs' = cs := by
  intro sum carries decode
  have hunique {σ τ n m xs ys ys' zs zs' cs cs'} (h : sum.Solution σ n xs ys zs cs)
      (h' : sum.Solution τ m xs ys' zs' cs') (hsame : ys' = ys ∨ zs' = zs) :
      ys' = ys ∧ zs' = zs ∧ cs' = cs :=
    h.unique hbits hpos hlenb hlenr h' hsame
  refine ⟨Scenario.addsAt_recorded hpos hlenb hlenr k,
    fun σ n xs ys zs cs h => h.decode_add hbits hpos hlenb hlenr, fun t xs hbound ha hxs => ⟨?_, ?_, ?_⟩⟩
  · rintro r ys rfl hb hys
    apply (writesIff_result hbits hbound ha hxs hlenb hlenr hb hys).weaken
    rintro t' - ⟨zs, cs, h⟩
    exact ⟨zs, cs, h, fun σ n zs' cs' h' => (hunique h h' (.inl rfl)).2⟩
  · rintro c zs rfl rfl hzs
    have hlenz : zs.length = a.len := (List.length_map _).symm.trans hlenr
    apply (writesIff_summand hbits hbound ha hxs hlenb hlenz hzs).weaken
    rintro t' - ⟨ys, cs, h⟩
    refine ⟨ys, cs, h, fun σ n ys' cs' h' => ?_⟩
    obtain ⟨hys, -, hcs⟩ := hunique h h' (.inr rfl)
    exact ⟨hys, hcs⟩
  · rintro ys zs rfl rfl hys hzs
    have hleny : ys.length = a.len := (List.length_map _).symm.trans hlenb
    have hlenz : zs.length = a.len := (List.length_map _).symm.trans hlenr
    apply (writesIff_const hbits hbound ha hxs hpos hleny hlenz hys hzs).weaken
    rintro t' - ⟨cs, h⟩
    exact ⟨cs, h, fun σ n cs' h' => (hunique h h' (.inl rfl)).2.2⟩

theorem limbSum_exact_two_limbs :
    let sum := recorded ⟨0, 2⟩ (.const [3, 1]) (.cells ⟨2, 2⟩) 2 4
    let row (x y : Native) := Trace.ofRow #[some x, some y, none, none, none] (Nat.succ_pos 4)
    (∃ t' zs cs, (Instruction.limbSum sum).write (row 2 1) = .ok () t' ∧
        sum.Solution t'.store t'.numCells [2, 1] [3, 1] zs cs ∧ Limbs.decodeNative 2 zs = 13) ∧
      (Instruction.limbSum sum).write (row 3 3) = .error (.fault (.sumTooWide 2)) (row 3 3) := by
  -- six and seven are thirteen, and fifteen and seven need another limb
  intro sum row
  obtain ⟨-, hsound, hwrite⟩ := @limbSum_exact ⟨0, 2⟩ (.const [3, 1]) (.cells ⟨2, 2⟩) 2 (by decide)
    (by decide) rfl rfl 4
  have hread (x y : Native) : (row x y).readSlice ⟨0, 2⟩ = .ok [x, y] :=
    Trace.readSlice_ofRow _ (show 2 ≤ 5 by decide) rfl
  constructor
  · obtain ⟨hresult, -⟩ := hwrite (row 2 1) [2, 1] (by decide) (hread 2 1) (by decide)
    have h := hresult ⟨2, 2⟩ [3, 1] rfl rfl (by decide)
    obtain ⟨t', ht'⟩ := (h.succeeds_iff ⟨by decide, by decide, by decide⟩).mpr (by decide)
    obtain ⟨-, -, zs, cs, hsolution, -⟩ := h.written t' ht'
    exact ⟨t', zs, cs, ht', hsolution, (hsound _ _ _ _ _ _ hsolution).symm⟩
  · obtain ⟨hresult, -⟩ := hwrite (row 3 3) [3, 3] (by decide) (hread 3 3) (by decide)
    obtain ⟨cause, rfl, hrefused⟩ := (hresult ⟨2, 2⟩ [3, 1] rfl rfl (by decide)).refused (by decide)
    exact hrefused

end ForeignCurve
