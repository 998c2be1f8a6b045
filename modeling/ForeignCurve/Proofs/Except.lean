import ForeignCurve.Failure
import Mathlib.Data.List.Forall2

namespace ForeignCurve

variable {ε α β γ : Type}

theorem bind_eq_ok_iff {x : Except ε α} {f : α → Except ε β} {b : β} :
    x >>= f = .ok b ↔ ∃ a, x = .ok a ∧ f a = .ok b := by
  cases x with
  | error e => simp [bind, Except.bind]
  | ok a => simp [bind, Except.bind]

theorem exists_bind_eq_ok {x : Except ε α} {f : α → Except ε β} {a : α} (hx : x = .ok a)
    (hf : ∃ b, f a = .ok b) : ∃ b, x >>= f = .ok b := by
  rw [hx]
  exact hf

theorem bind_eq_error_iff {x : Except ε α} {f : α → Except ε β} {e : ε} :
    x >>= f = .error e ↔ x = .error e ∨ ∃ a, x = .ok a ∧ f a = .error e := by
  cases x with
  | error e' => simp [bind, Except.bind]
  | ok a => simp [bind, Except.bind]

theorem bind_eq_error_of_ok {x : Except ε α} {f : α → Except ε β} {a : α} {e : ε} (hx : x = .ok a)
    (hf : f a = .error e) : x >>= f = .error e := by
  rw [hx]
  exact hf

theorem of_unless {c : Prop} [Decidable c] {e : ε} {x : Except ε α} {a : α}
    (h : (if c then x else (do throw e; x)) = .ok a) : c ∧ x = .ok a := by
  by_cases hc : c
  · rw [if_pos hc] at h
    exact ⟨hc, h⟩
  · rw [if_neg hc] at h
    contradiction

theorem map_eq_ok_iff {x : Except ε α} {f : α → β} {b : β} :
    x.map f = .ok b ↔ ∃ a, x = .ok a ∧ f a = b := by
  cases x with
  | error e => simp [Except.map]
  | ok a => simp [Except.map]

theorem map_ok (a : α) (f : α → β) : (Except.ok a : Except ε α).map f = .ok (f a) := rfl

theorem map_pure (a : α) (f : α → β) : (pure a : Except ε α).map f = pure (f a) := rfl

theorem bind_map (x : Except ε α) (f : α → β) (g : β → Except ε γ) :
    x.map f >>= g = x >>= fun a => g (f a) := by
  cases x <;> rfl

theorem map_bind (x : Except ε α) (g : α → Except ε β) (f : β → γ) :
    (x >>= g).map f = x >>= fun a => (g a).map f := by
  cases x <;> rfl

theorem mapM_map {f : α → Except ε β} {g : β → γ} (as : List α) :
    as.mapM (fun a => (f a).map g) = (as.mapM f).map (List.map g) := by
  induction as with
  | nil => rfl
  | cons a as ih =>
    rw [List.mapM_cons, List.mapM_cons, ih, bind_map, map_bind]
    congr 1
    funext b
    rw [bind_map, map_bind]
    rfl

theorem mapM_cons_eq_ok_iff {f : α → Except ε β} {a : α} {as : List α} {bs : List β} :
    (a :: as).mapM f = .ok bs ↔ ∃ b rest, f a = .ok b ∧ as.mapM f = .ok rest ∧ bs = b :: rest := by
  rw [List.mapM_cons, bind_eq_ok_iff]
  constructor
  · rintro ⟨b, hb, h⟩
    obtain ⟨rest, hrest, h⟩ := bind_eq_ok_iff.mp h
    cases h
    exact ⟨b, rest, hb, hrest, rfl⟩
  · rintro ⟨b, rest, hb, hrest, rfl⟩
    exact ⟨b, hb, bind_eq_ok_iff.mpr ⟨rest, hrest, rfl⟩⟩

theorem mapM_eq_ok_iff {f : α → Except ε β} {as : List α} {bs : List β} :
    as.mapM f = .ok bs ↔ List.Forall₂ (fun a b => f a = .ok b) as bs := by
  induction as generalizing bs with
  | nil =>
    rw [List.mapM_nil, List.forall₂_nil_left_iff]
    constructor
    · intro h
      cases h
      rfl
    · rintro rfl
      rfl
  | cons a as ih =>
    rw [mapM_cons_eq_ok_iff]
    constructor
    · rintro ⟨b, rest, hb, hrest, rfl⟩
      exact .cons hb (ih.mp hrest)
    · intro h
      cases h with
      | cons hb hrest => exact ⟨_, _, hb, ih.mpr hrest, rfl⟩

theorem eq_of_forall₂_ok {f : α → Except ε β} {as : List α} {bs cs : List β}
    (h : List.Forall₂ (fun a b => f a = .ok b) as bs)
    (h' : List.Forall₂ (fun a b => f a = .ok b) as cs) : bs = cs :=
  Except.ok.inj ((mapM_eq_ok_iff.mpr h).symm.trans (mapM_eq_ok_iff.mpr h'))

theorem mapM_eq_ok {f : α → Except ε β} {g : α → β} {as : List α}
    (h : ∀ a ∈ as, f a = .ok (g a)) : as.mapM f = .ok (as.map g) := by
  induction as with
  | nil => rfl
  | cons a as ih =>
    rw [List.forall_mem_cons] at h
    exact mapM_cons_eq_ok_iff.mpr ⟨g a, as.map g, h.1, ih h.2, rfl⟩

theorem exists_of_mapM_eq_error {f : α → Except ε β} {as : List α} {e : ε}
    (h : as.mapM f = .error e) : ∃ a ∈ as, f a = .error e := by
  induction as with
  | nil => contradiction
  | cons a as ih =>
    rw [List.mapM_cons] at h
    cases ha : f a with
    | error e' =>
      rw [ha] at h
      cases h
      exact ⟨a, List.mem_cons_self, ha⟩
    | ok b =>
      rw [ha] at h
      cases has : as.mapM f with
      | error e' =>
        change (as.mapM f >>= fun bs => pure (b :: bs)) = _ at h
        rw [has] at h
        cases h
        obtain ⟨a', ha', he⟩ := ih has
        exact ⟨a', List.mem_cons_of_mem a ha', he⟩
      | ok bs =>
        change (as.mapM f >>= fun bs => pure (b :: bs)) = _ at h
        rw [has] at h
        contradiction

theorem zipExact_eq_ok_iff {as : List α} {bs : List β} {ps : List (α × β)} :
    zipExact as bs = .ok ps ↔ as.length = bs.length ∧ ps = as.zip bs := by
  induction as generalizing bs ps with
  | nil =>
    cases bs with
    | nil => simp [zipExact, eq_comm]
    | cons b bs => simp [zipExact]
  | cons a as ih =>
    cases bs with
    | nil => simp [zipExact]
    | cons b bs =>
      rw [zipExact, bind_eq_ok_iff]
      simp only [ih]
      constructor
      · rintro ⟨rest, ⟨hlen, rfl⟩, h⟩
        cases h
        simp [hlen]
      · rintro ⟨hlen, rfl⟩
        exact ⟨_, ⟨by simpa using hlen, rfl⟩, rfl⟩

def FailsOnly (C : ε → Prop) (x : Except ε α) : Prop :=
  ∀ e, x = .error e → C e

namespace FailsOnly

variable {C : ε → Prop}

theorem pure (a : α) : FailsOnly C (pure a) :=
  fun _ h => by contradiction

theorem bind {x : Except ε α} {f : α → Except ε β} (hx : FailsOnly C x)
    (hf : ∀ a, x = .ok a → FailsOnly C (f a)) : FailsOnly C (x >>= f) := by
  cases x with
  | error e =>
    intro e' h
    cases h
    exact hx e rfl
  | ok a => exact hf a rfl

theorem guard {c : Prop} [Decidable c] {e : ε} {x : Except ε α} (he : C e) (hx : c → FailsOnly C x) :
    FailsOnly C (if c then x else do throw e; x) := by
  split
  · next hc => exact hx hc
  · intro e' h
    cases h
    exact he

end FailsOnly

section Lift

variable {a : α}

@[simp]
theorem liftM_fault_eq_ok_iff {x : Except Fault α} :
    (liftM x : Except Failure α) = .ok a ↔ x = .ok a := by
  cases x with
  | error e => exact ⟨fun h => by contradiction, fun h => by contradiction⟩
  | ok b => exact ⟨fun h => by cases h; rfl, fun h => by cases h; rfl⟩

@[simp]
theorem liftM_abort_eq_ok_iff {x : Except Abort α} :
    (liftM x : Except Failure α) = .ok a ↔ x = .ok a := by
  cases x with
  | error e => exact ⟨fun h => by contradiction, fun h => by contradiction⟩
  | ok b => exact ⟨fun h => by cases h; rfl, fun h => by cases h; rfl⟩

end Lift

def SucceedsAs (x y : Except ε α) : Prop :=
  ∀ a, x = .ok a → y = .ok a

namespace SucceedsAs

variable {x y : Except ε α} {f g : α → Except ε β}

theorem refl (x : Except ε α) : SucceedsAs x x := fun _ h => h

theorem bind (h : SucceedsAs x y) (hf : ∀ a, SucceedsAs (f a) (g a)) :
    SucceedsAs (x >>= f) (y >>= g) := by
  intro b hb
  rw [bind_eq_ok_iff] at hb ⊢
  obtain ⟨a, ha, hb⟩ := hb
  exact ⟨a, h a ha, hf a b hb⟩

theorem lift {x y : Except Fault α} (h : SucceedsAs x y) :
    SucceedsAs (liftM x : Except Failure α) (liftM y) := by
  intro a ha
  rw [liftM_fault_eq_ok_iff] at ha ⊢
  exact h a ha

end SucceedsAs

/-- Two computations that fail in the same way, or succeed with related results. -/
inductive Agree (R : α → β → Prop) : Except ε α → Except ε β → Prop where
  | ok {a : α} {b : β} (h : R a b) : Agree R (.ok a) (.ok b)
  | error (e : ε) : Agree R (.error e) (.error e)

theorem Agree.refl (x : Except ε α) : Agree (fun a b => a = b) x x := by
  cases x with
  | error e => exact .error e
  | ok a => exact .ok rfl

theorem Agree.bind {δ : Type} {R : α → β → Prop} {R' : γ → δ → Prop} {x : Except ε α}
    {y : Except ε β} {f : α → Except ε γ} {g : β → Except ε δ} (h : Agree R x y)
    (hf : ∀ a b, R a b → Agree R' (f a) (g b)) : Agree R' (x >>= f) (y >>= g) := by
  cases h with
  | error e => exact .error e
  | ok hab => exact hf _ _ hab

theorem Agree.mapM {R : β → γ → Prop} {f : α → Except ε β} {g : α → Except ε γ}
    (h : ∀ a, Agree R (f a) (g a)) (as : List α) :
    Agree (List.Forall₂ R) (as.mapM f) (as.mapM g) := by
  induction as with
  | nil => exact .ok .nil
  | cons a as ih =>
    rw [List.mapM_cons, List.mapM_cons]
    refine (h a).bind fun b c hbc => ?_
    exact ih.bind fun bs cs hall => .ok (.cons hbc hall)

theorem forall₂_zip {δ : Type} {R : α → γ → Prop} {S : β → δ → Prop} {as : List α} {bs : List β}
    {cs : List γ} {ds : List δ} (h : List.Forall₂ R as cs) (h' : List.Forall₂ S bs ds) :
    List.Forall₂ (fun p q => R p.1 q.1 ∧ S p.2 q.2) (as.zip bs) (cs.zip ds) := by
  induction h generalizing bs ds with
  | nil => exact .nil
  | cons ha _ ih =>
    cases h' with
    | nil => exact .nil
    | cons hb hbs => exact .cons ⟨ha, hb⟩ (ih hbs)

theorem exists_forall₂ {R : α → β → Prop} {as : List α} (h : ∀ a ∈ as, ∃ b, R a b) :
    ∃ bs, List.Forall₂ R as bs := by
  induction as with
  | nil => exact ⟨[], .nil⟩
  | cons a as ih =>
    rw [List.forall_mem_cons] at h
    obtain ⟨b, hb⟩ := h.1
    obtain ⟨bs, hbs⟩ := ih h.2
    exact ⟨b :: bs, .cons hb hbs⟩

theorem exists_of_mem_right {R : α → β → Prop} {as : List α} {bs : List β}
    (h : List.Forall₂ R as bs) {b : β} (hb : b ∈ bs) : ∃ a ∈ as, R a b := by
  induction h with
  | nil => contradiction
  | cons hab _ ih =>
    rcases List.mem_cons.mp hb with rfl | hb
    · exact ⟨_, List.mem_cons_self, hab⟩
    · obtain ⟨a, ha, hR⟩ := ih hb
      exact ⟨a, List.mem_cons_of_mem _ ha, hR⟩

theorem forall_mem_zip_iff {R : α → β → Prop} {as : List α} {bs : List β}
    (h : as.length = bs.length) : (∀ p ∈ as.zip bs, R p.1 p.2) ↔ List.Forall₂ R as bs := by
  rw [List.forall₂_iff_zip, Prod.forall]
  exact ⟨fun hall => ⟨h, fun {a b} => hall a b⟩, fun hall _ _ => hall.2⟩

theorem forall₂_append_left {R : α → β → Prop} {as as' : List α} {bs : List β}
    (h : List.Forall₂ R (as ++ as') bs) :
    ∃ cs ds, bs = cs ++ ds ∧ List.Forall₂ R as cs ∧ List.Forall₂ R as' ds := by
  induction as generalizing bs with
  | nil => exact ⟨[], bs, rfl, .nil, h⟩
  | cons a as ih =>
    cases h with
    | cons hb hbs =>
      obtain ⟨cs, ds, rfl, hcs, hds⟩ := ih hbs
      exact ⟨_ :: cs, ds, rfl, .cons hb hcs, hds⟩

section State

variable {σ : Type}

theorem run_bind_eq_ok_iff {x : EStateM ε σ α} {f : α → EStateM ε σ β} {s s'' : σ} {b : β} :
    (x >>= f) s = .ok b s'' ↔ ∃ a s', x s = .ok a s' ∧ f a s' = .ok b s'' := by
  change EStateM.bind x f s = .ok b s'' ↔ _
  unfold EStateM.bind
  cases x s with
  | ok a s' => simp
  | error e s' => simp

theorem run_bind_eq_error_iff {x : EStateM ε σ α} {f : α → EStateM ε σ β} {s s'' : σ} {e : ε} :
    (x >>= f) s = .error e s'' ↔
      x s = .error e s'' ∨ ∃ a s', x s = .ok a s' ∧ f a s' = .error e s'' := by
  change EStateM.bind x f s = .error e s'' ↔ _
  unfold EStateM.bind
  cases x s with
  | ok a s' => simp
  | error e' s' => simp

theorem run_bind_eq_error {x : EStateM ε σ α} {f : α → EStateM ε σ β} {s s' : σ} {e : ε}
    (hx : x s = .error e s') : (x >>= f) s = .error e s' := by
  change EStateM.bind x f s = .error e s'
  unfold EStateM.bind
  rw [hx]

theorem run_bind_of_ok {x : EStateM ε σ α} {f : α → EStateM ε σ β} {s s' : σ} {a : α}
    (hx : x s = .ok a s') : (x >>= f) s = f a s' := by
  change EStateM.bind x f s = _
  unfold EStateM.bind
  rw [hx]

theorem run_bind_eq_error_of_ok {x : EStateM ε σ α} {f : α → EStateM ε σ β} {s s' s'' : σ} {a : α}
    {e : ε} (hx : x s = .ok a s') (hf : f a s' = .error e s'') : (x >>= f) s = .error e s'' :=
  (run_bind_of_ok hx).trans hf

end State

end ForeignCurve
