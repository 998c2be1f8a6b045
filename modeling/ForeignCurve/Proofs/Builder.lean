import ForeignCurve.Builder
import ForeignCurve.Proofs.Except
import ForeignCurve.Proofs.Field.Headroom

namespace ForeignCurve

variable {α β : Type}

structure Builder.Extends (b b' : Builder) : Prop where
  instructions : b.instructions.toList <+: b'.instructions.toList
  numCells : b.numCells ≤ b'.numCells
  headroomFault? : ∀ f, b.headroomFault? = some f → b'.headroomFault? = some f

namespace Builder.Extends

protected theorem refl (b : Builder) : b.Extends b :=
  ⟨List.prefix_rfl, Nat.le_refl _, fun _ => id⟩

protected theorem trans {b b' b'' : Builder} (h : b.Extends b') (h' : b'.Extends b'') :
    b.Extends b'' :=
  ⟨h.instructions.trans h'.instructions, Nat.le_trans h.numCells h'.numCells,
    fun f hf => h'.headroomFault? f (h.headroomFault? f hf)⟩

theorem headroomFault?_eq_none {b b' : Builder} (h : b.Extends b') (hb' : b'.headroomFault? = none) :
    b.headroomFault? = none := by
  cases hb : b.headroomFault? with
  | none => rfl
  | some f =>
    rw [h.headroomFault? f hb] at hb'
    contradiction

end Builder.Extends

theorem Record.run_bind_eq_ok_iff {g : Record α} {f : α → Record β} {b b'' : Builder} {c : β} :
    (g >>= f).run b = .ok (c, b'') ↔
      ∃ a b', g.run b = .ok (a, b') ∧ (f a).run b' = .ok (c, b'') := by
  rw [StateT.run_bind, bind_eq_ok_iff]
  simp

class Grows (g : Record α) : Prop where
  grows : ∀ {b : Builder} {a : α} {b' : Builder}, g.run b = .ok (a, b') → b.Extends b'

namespace Grows

instance pure (a : α) : Grows (pure a) where
  grows h := by
    cases h
    exact .refl _

instance bind (g : Record α) (f : α → Record β) [hg : Grows g] [hf : ∀ a, Grows (f a)] :
    Grows (g >>= f) where
  grows h := by
    obtain ⟨a, b', hrun, h⟩ := Record.run_bind_eq_ok_iff.mp h
    exact (hg.grows hrun).trans ((hf a).grows h)

instance throw (e : Abort) : Grows (throw e : Record α) where
  grows h := by contradiction

instance lift (x : Except Abort α) : Grows (liftM x : Record α) where
  grows h := by
    cases x with
    | error e => contradiction
    | ok a =>
      cases h
      exact .refl _

instance ite (c : Prop) [Decidable c] (g g' : Record α) [Grows g] [Grows g'] :
    Grows (if c then g else g') := by
  split
  · infer_instance
  · infer_instance

instance append (i : Instruction) : Grows (Record.append i) where
  grows h := by
    cases h
    exact ⟨by simp, Nat.le_refl _, fun _ => id⟩

instance requireHeadroom (P : FieldParams) : Grows (Record.requireHeadroom P) where
  grows h := by
    cases h
    dsimp only
    split
    · next hnone _ => exact ⟨List.prefix_rfl, Nat.le_refl _, fun f hf => by simp [hnone] at hf⟩
    · exact .refl _

instance requireWidth (size : Nat) : Grows (Record.requireWidth size) where
  grows h := by
    cases h
    exact ⟨List.prefix_rfl, Nat.le_refl _, fun _ => id⟩

instance allocCells (size : Nat) (rule : CellRule) : Grows (Record.allocCells size rule) := by
  have hget : Grows (get : Record Builder) := ⟨fun h => by cases h; exact .refl _⟩
  have hmodify : Grows (modify fun b => { b with numCells := b.numCells + size } : Record Unit) :=
    ⟨fun h => by cases h; exact ⟨List.prefix_rfl, Nat.le_add_right _ _, fun _ => id⟩⟩
  have hrest (s : CellSlice) : Grows (match Record.ruleInstruction? rule s with
      | none => return s
      | some i => do Record.append i; return s : Record CellSlice) := by
    cases Record.ruleInstruction? rule s with
    | none => exact .pure s
    | some i => exact .bind _ _
  apply Grows.bind

instance alloc (k : Kind) : Grows (Record.alloc k) := by
  unfold Record.alloc
  infer_instance

instance allocArray (k : Kind) (length : Nat) : Grows (Record.allocArray k length) := by
  unfold Record.allocArray
  infer_instance

instance allocPoint (P : FieldParams) : Grows (Record.allocPoint P) := by
  unfold Record.allocPoint
  infer_instance

end Grows

theorem Record.run_lift_eq_ok_iff {x : Except Abort α} {b b' : Builder} {a : α} :
    (liftM x : Record α).run b = .ok (a, b') ↔ x = .ok a ∧ b' = b := by
  cases x with
  | error e =>
    constructor
    · intro h
      contradiction
    · rintro ⟨h, -⟩
      contradiction
  | ok c =>
    constructor
    · intro h
      cases h
      exact ⟨rfl, rfl⟩
    · rintro ⟨h, rfl⟩
      cases h
      rfl

theorem Record.of_requireHeadroom {P : FieldParams} {b b' : Builder}
    (hrun : (requireHeadroom P).run b = .ok ((), b')) :
    b'.numCells = b.numCells ∧ b'.instructions = b.instructions := by
  cases hrun
  dsimp only
  split
  · exact ⟨rfl, rfl⟩
  · exact ⟨rfl, rfl⟩

class Returns (g : Record α) : Prop where
  returns : ∀ b, ∃ a b', g.run b = .ok (a, b')

namespace Returns

instance pure (a : α) : Returns (pure a) where
  returns b := ⟨a, b, rfl⟩

theorem bind_of {g : Record α} {f : α → Record β} {Q : α → Prop} [hg : Returns g]
    (hQ : ∀ b a b', g.run b = .ok (a, b') → Q a) (hf : ∀ a, Q a → Returns (f a)) :
    Returns (g >>= f) where
  returns b := by
    obtain ⟨a, b', hrun⟩ := hg.returns b
    obtain ⟨c, b'', hrun'⟩ := (hf a (hQ b a b' hrun)).returns b'
    exact ⟨c, b'', Record.run_bind_eq_ok_iff.mpr ⟨a, b', hrun, hrun'⟩⟩

instance bind (g : Record α) (f : α → Record β) [Returns g] [hf : ∀ a, Returns (f a)] :
    Returns (g >>= f) :=
  bind_of (Q := fun _ => True) (fun _ _ _ _ => trivial) fun a _ => hf a

theorem lift {x : Except Abort α} {a : α} (h : x = .ok a) : Returns (liftM x : Record α) where
  returns b := ⟨a, b, Record.run_lift_eq_ok_iff.mpr ⟨h, rfl⟩⟩

theorem lift_bind {x : Except Abort α} {a : α} {f : α → Record β} (h : x = .ok a)
    (hf : Returns (f a)) : Returns ((liftM x : Record α) >>= f) := by
  have hx : Returns (liftM x : Record α) := lift h
  apply bind_of (Q := fun c => c = a)
  · intro b c b' hrun
    obtain ⟨hc, -⟩ := Record.run_lift_eq_ok_iff.mp hrun
    exact Except.ok.inj (hc.symm.trans h)
  · rintro _ rfl
    exact hf

instance requireHeadroom (P : FieldParams) : Returns (Record.requireHeadroom P) where
  returns _ := ⟨(), _, rfl⟩

end Returns

class Records (g : Record α) : Prop where
  records : ∀ b, ∃ a b', g.run b = .ok (a, b') ∧ b'.headroomFault? = b.headroomFault?

namespace Records

instance pure (a : α) : Records (pure a) where
  records b := ⟨a, b, rfl, rfl⟩

instance bind (g : Record α) (f : α → Record β) [hg : Records g] [hf : ∀ a, Records (f a)] :
    Records (g >>= f) where
  records b := by
    obtain ⟨a, b', hrun, hfault⟩ := hg.records b
    obtain ⟨c, b'', hrun', hfault'⟩ := (hf a).records b'
    exact ⟨c, b'', Record.run_bind_eq_ok_iff.mpr ⟨a, b', hrun, hrun'⟩, hfault'.trans hfault⟩

theorem of_returns {g : Record α} [hg : Returns g]
    (h : ∀ b a b', g.run b = .ok (a, b') → b'.headroomFault? = b.headroomFault?) : Records g where
  records b := by
    obtain ⟨a, b', hrun⟩ := hg.returns b
    exact ⟨a, b', hrun, h b a b' hrun⟩

end Records

structure Builder.Adds (b : Builder) (n : Nat) (is : List Instruction) (b' : Builder) : Prop where
  numCells : b'.numCells = b.numCells + n
  instructions : b'.instructions.toList = b.instructions.toList ++ is
  headroomFault? : b'.headroomFault? = b.headroomFault?

/--
A step that, in an arena of `i` cells, returns `a` and adds the given number of cells and the given
instructions.
-/
def Record.AddsAt (g : Record α) (i : Nat) (a : α) (n : Nat) (is : List Instruction) : Prop :=
  ∀ b : Builder, b.numCells = i → ∃ b', g.run b = .ok (a, b') ∧ b.Adds n is b'

namespace Record.AddsAt

variable {i n n' : Nat} {a : α} {is is' : List Instruction} {g : Record α}

theorem of_run {b b' : Builder} {c : α} (hg : g.AddsAt b.numCells a n is)
    (hrun : g.run b = .ok (c, b')) : c = a ∧ b.Adds n is b' := by
  obtain ⟨b₁, hrun₁, hadds⟩ := hg b rfl
  rw [hrun] at hrun₁
  cases hrun₁
  exact ⟨rfl, hadds⟩

theorem pure (i : Nat) (a : α) : AddsAt (pure a) i a 0 [] :=
  fun b _ => ⟨b, rfl, rfl, by simp, rfl⟩

theorem bind {f : α → Record β} {c : β} (hg : g.AddsAt i a n is)
    (hf : (f a).AddsAt (i + n) c n' is') : (g >>= f).AddsAt i c (n + n') (is ++ is') := by
  intro b hb
  obtain ⟨b', hrun, hadds⟩ := hg b hb
  obtain ⟨b'', hrun', hadds'⟩ := hf b' (by rw [hadds.numCells, hb])
  refine ⟨b'', Record.run_bind_eq_ok_iff.mpr ⟨a, b', hrun, hrun'⟩, ?_, ?_, ?_⟩
  · rw [hadds'.numCells, hadds.numCells, Nat.add_assoc]
  · rw [hadds'.instructions, hadds.instructions, List.append_assoc]
  · rw [hadds'.headroomFault?, hadds.headroomFault?]

theorem bind_nothing {f : α → Record β} {c : β} (hg : g.AddsAt i a 0 [])
    (hf : (f a).AddsAt i c n is) : (g >>= f).AddsAt i c n is := by
  have h := hg.bind hf
  rwa [Nat.zero_add, List.nil_append] at h

theorem bind_noCells {f : α → Record β} {c : β} (hg : g.AddsAt i a n is)
    (hf : (f a).AddsAt (i + n) c 0 is') : (g >>= f).AddsAt i c n (is ++ is') :=
  hg.bind hf

theorem bind_pure {f : α → β} (hg : g.AddsAt i a n is) :
    (g >>= fun x => Pure.pure (f x)).AddsAt i (f a) n is := by
  have h := hg.bind (f := fun x => Pure.pure (f x)) (pure (i + n) (f a))
  rwa [Nat.add_zero, List.append_nil] at h

theorem lift {x : Except Abort α} (i : Nat) (h : x = .ok a) :
    AddsAt (liftM x) i a 0 [] :=
  fun b _ => ⟨b, by rw [h]; rfl, rfl, by simp, rfl⟩

theorem append (i : Nat) (instruction : Instruction) :
    (Record.append instruction).AddsAt i () 0 [instruction] :=
  fun _ _ => ⟨_, rfl, rfl, by simp, rfl⟩

theorem bind_append {f : α → Instruction} (hg : g.AddsAt i a n is) :
    (g >>= fun x => Record.append (f x)).AddsAt i () n (is ++ [f a]) :=
  hg.bind (f := fun x => Record.append (f x)) (append _ (f a))

theorem requireHeadroom (i : Nat) (P : FieldParams) [hP : P.HasHeadroom] :
    (Record.requireHeadroom P).AddsAt i () 0 [] := by
  intro b _
  have hrun : (Record.requireHeadroom P).run b = .ok ((), b) := by
    unfold Record.requireHeadroom
    rw [hP.headroom_eq]
    change Except.ok ((), _) = _
    cases hfault : b.headroomFault? <;> simp [hfault]
  exact ⟨b, hrun, rfl, by simp, rfl⟩

theorem requireWidth (i : Nat) (size : Nat) : (Record.requireWidth size).AddsAt i () 0 [] :=
  fun _ _ => ⟨_, rfl, rfl, by simp, rfl⟩

theorem allocCells (i : Nat) (size : Nat) (rule : CellRule) :
    (Record.allocCells size rule).AddsAt i ⟨i, size⟩ size
      (ruleInstruction? rule ⟨i, size⟩).toList := by
  rintro b rfl
  cases hrule : ruleInstruction? rule ⟨b.numCells, size⟩ with
  | none =>
    refine ⟨{ b with numCells := b.numCells + size }, ?_, rfl, by simp, rfl⟩
    simp [Record.allocCells, hrule]
    rfl
  | some instruction =>
    refine ⟨{ b with
      numCells := b.numCells + size
      instructions := b.instructions.push instruction }, ?_, rfl, by simp, rfl⟩
    simp [Record.allocCells, hrule]
    rfl

theorem alloc (i : Nat) (k : Kind) :
    (Record.alloc k).AddsAt i ⟨i⟩ k.size (ruleInstruction? k.rule ⟨i, k.size⟩).toList := by
  unfold Record.alloc
  apply bind_nothing (requireWidth i k.size)
  exact bind_pure (allocCells i k.size k.rule)

theorem allocCellArray (i : Nat) {k : Kind} (hk : k.size ≠ 0) (length : Nat) :
    (Record.allocArray k length).AddsAt i ⟨⟨i, k.size * length⟩, length⟩ (k.size * length)
      (ruleInstruction? k.rule ⟨i, k.size * length⟩).toList := by
  have hslice : RegisterArray.ofSlice k ⟨i, k.size * length⟩ = .ok ⟨⟨i, k.size * length⟩, length⟩ := by
    rw [RegisterArray.ofSlice, if_neg hk]
    dsimp only
    rw [Nat.mul_div_cancel_left length (Nat.pos_of_ne_zero hk)]
  have hrest : (do
      let s ← Record.allocCells (k.size * length) k.rule
      RegisterArray.ofSlice k s : Record (RegisterArray k)).AddsAt i
        ⟨⟨i, k.size * length⟩, length⟩ (k.size * length)
        (ruleInstruction? k.rule ⟨i, k.size * length⟩).toList := by
    have h := (allocCells i (k.size * length) k.rule).bind
      (f := fun s => liftM (RegisterArray.ofSlice k s)) (lift (i + k.size * length) hslice)
    rwa [Nat.add_zero, List.append_nil] at h
  unfold Record.allocArray
  split
  · exact bind_nothing (requireWidth i k.size) hrest
  · exact hrest

theorem allocArray (i : Nat) {k : Kind} (hk : k.size = 1) (length : Nat) :
    (Record.allocArray k length).AddsAt i ⟨⟨i, length⟩, length⟩ length
      (ruleInstruction? k.rule ⟨i, length⟩).toList := by
  have h := allocCellArray i (k := k) (by omega) length
  rwa [hk, Nat.one_mul] at h

theorem returns (h : ∀ i, ∃ a n is, g.AddsAt i a n is) : Returns g where
  returns b := by
    obtain ⟨a, n, is, hadds⟩ := h b.numCells
    obtain ⟨b', hrun, -⟩ := hadds b rfl
    exact ⟨a, b', hrun⟩

end Record.AddsAt

end ForeignCurve
