import ForeignCurve.Proofs.Component

namespace ForeignCurve

namespace FieldParams

def twoLimbs : FieldParams where
  limbBits := 4
  limbs := 2
  witnessLimbs := 2
  offset := 32
  modulus := 251

instance : twoLimbs.HasHeadroom := ⟨by decide⟩

instance : Fact twoLimbs.modulus.Prime := ⟨by norm_num [twoLimbs]⟩

end FieldParams

variable {ι κ σ τ ο : Type}

/--
Input registers of a certain shape, and what it means that they hold a value. Any assignment that passes
the range checks is one, and the limbs of any value that fits can be written.
-/
structure Inlet (ι σ : Type) where
  alloc : Record ι
  ofCell : Nat → ι
  size : Nat
  rules : Nat → List Instruction
  write : ι → σ → TraceM Unit
  read? : Table Native → Layout → ι → Option σ
  Fits : σ → Prop
  residues : σ → σ
  Reduced : σ → Prop
  Holds : Scenario → ι → σ → Prop
  adds : ∀ k, alloc.AddsAt k (ofCell k) size (rules k)
  input : ∀ k {v}, Fits v →
    Input alloc k (ofCell k) size (rules k) (write (ofCell k) v) fun w => Holds w (ofCell k) v
  exists_holds : ∀ {w : Scenario} {k}, k + size ≤ w.numCells → (∀ i ∈ rules k, w.Holds i) →
    ∃ v, Holds w (ofCell k) v
  read?_of_holds : ∀ {w : Scenario} {t l r v}, w.store = t.store l → Holds w r v → read? t l r = some v
  fits : ∀ {v}, Reduced v → Fits v
  residues_of_reduced : ∀ {v}, Reduced v → residues v = v

namespace Inlet

section Shapes

variable (P : FieldParams) [P.HasHeadroom]

def number : Inlet (FieldRegister P) Nat where
  alloc := Record.alloc (.field P)
  ofCell k := ⟨k⟩
  size := P.limbs
  rules := Record.fieldRules P
  write := TraceM.writeNumber
  read? t l r := t.number? l r
  Fits N := N < 2 ^ P.bits
  residues N := N % P.modulus
  Reduced N := N < P.modulus
  Holds w r N := w.Number r N
  adds := .allocField P
  input k _ hN := .number k hN
  exists_holds hbound h := (Scenario.holds_fieldRules_iff hbound).mp h
  read?_of_holds hw h := h.number? hw
  fits h := Nat.lt_trans h FieldParams.modulus_lt
  residues_of_reduced := Nat.mod_eq_of_lt

def point : Inlet (PointRegister P) Point where
  alloc := Record.allocPoint P
  ofCell := .ofCell P
  size := P.limbs + P.limbs
  rules := Record.pointRules P
  write := TraceM.writePoint
  read? t l r := t.point? l r
  Fits p := p.Reduced (2 ^ P.bits)
  residues p := p.reduce P.modulus
  Reduced p := p.Reduced P.modulus
  Holds w r p := w.Numbers r p
  adds := .allocPoint P
  input k _ hp := .point k hp
  exists_holds hbound h := (Scenario.holds_pointRules_iff hbound).mp h
  read?_of_holds hw h := h.point? hw
  fits h := h.fits
  residues_of_reduced := Point.reduce_of_reduced

end Shapes

def pair (I : Inlet ι σ) (J : Inlet κ τ) : Inlet (ι × κ) (σ × τ) where
  alloc := do
    let a ← I.alloc
    let b ← J.alloc
    return (a, b)
  ofCell k := (I.ofCell k, J.ofCell (k + I.size))
  size := I.size + J.size
  rules k := I.rules k ++ J.rules (k + I.size)
  write r v := do
    I.write r.1 v.1
    J.write r.2 v.2
  read? t l r := do
    let u ← I.read? t l r.1
    let v ← J.read? t l r.2
    return (u, v)
  Fits v := I.Fits v.1 ∧ J.Fits v.2
  residues v := (I.residues v.1, J.residues v.2)
  Reduced v := I.Reduced v.1 ∧ J.Reduced v.2
  Holds w r v := I.Holds w r.1 v.1 ∧ J.Holds w r.2 v.2
  adds k := .bind (I.adds k) (.bind_pure (J.adds (k + I.size)))
  input k _ hv := (I.input k hv.1).pair (J.input (k + I.size) hv.2)
  exists_holds hbound h := by
    rw [List.forall_mem_append] at h
    obtain ⟨u, hu⟩ := I.exists_holds (by omega) h.1
    obtain ⟨v, hv⟩ := J.exists_holds (by omega) h.2
    exact ⟨(u, v), hu, hv⟩
  read?_of_holds hw h := by
    rw [I.read?_of_holds hw h.1, J.read?_of_holds hw h.2]
    rfl
  fits h := ⟨I.fits h.1, J.fits h.2⟩
  residues_of_reduced h := Prod.ext (I.residues_of_reduced h.1) (J.residues_of_reduced h.2)

theorem read?_pair_eq_some_iff {I : Inlet ι σ} {J : Inlet κ τ} {t : Table Native} {l : Layout}
    {r : ι × κ} {v : σ × τ} :
    (I.pair J).read? t l r = some v ↔ I.read? t l r.1 = some v.1 ∧ J.read? t l r.2 = some v.2 := by
  change (do
    let u ← I.read? t l r.1
    let v ← J.read? t l r.2
    return (u, v)) = some v ↔ _
  cases I.read? t l r.1 with
  | none => simp
  | some u =>
    cases J.read? t l r.2 with
    | none => simp
    | some u' => simp [Prod.ext_iff]

def component (I : Inlet ι σ) (gadget : ι → Record ο) : Component ι ο where
  allocInput := I.alloc
  generate := gadget

section Promises

variable {I : Inlet ι σ} {gadget : ι → Record ο} [hgrows : ∀ i, Grows (gadget i)]
  (r : (I.component gadget).Recorded) {l : Layout}

instance (i : ι) : Grows ((I.component gadget).generate i) :=
  hgrows i

omit hgrows in
theorem input_eq : r.input = I.ofCell 0 :=
  (r.before_adds (I.adds 0)).1

theorem exists_accepted {t : Table Native}
    (h : ∀ i ∈ r.chip.instructions.toList, i.Holds (t.store l) r.chip.numCells) :
    ∃ (w : Scenario) (v : σ), ¬ w.Honest ∧ w.store = t.store l ∧ I.Holds w r.input v ∧
      ∀ Q : ο → Prop, w.Triple (gadget r.input) Q → Q r.output := by
  obtain ⟨w, hw, hstore, hbound, hrules, hpost⟩ := r.exists_accepted (I.adds 0) h
  obtain ⟨v, hv⟩ := I.exists_holds (by omega) hrules
  rw [input_eq r]
  exact ⟨w, v, hw, hstore, hv, hpost⟩

variable (I gadget)

theorem exists_promises (A D : σ → Prop) (Q : Scenario → σ → ο → Prop) [∀ i, Records (gadget i)]
    (hfits : ∀ v, A v → I.Fits v) (hregular : ∃ v, A v ∧ D v)
    (hspec : ∀ {w : Scenario} {r v}, I.Holds w r v → (w.Honest → A v) →
      w.Attempt (gadget r) (fun o => D v ∧ Q w v o) (¬ D v)) :
    ∃ r : (I.component gadget).Recorded, ∀ l : Layout, r.chip.manifest.required ≤ l.width →
      (r.chip.Guarantees l fun t => ∃ v w, w.store = t.store l ∧ I.read? t l r.input = some v ∧
        D v ∧ Q w v r.output) ∧
      ∀ v, A v → r.chip.ComputesIff l (I.write r.input v) (D v) fun t =>
        ∃ w : Scenario, w.Honest ∧ w.store = t.store ∧ w.numCells = t.numCells ∧ Q w v r.output := by
  have hrecords : Records ((I.component gadget).generate (I.ofCell 0)) :=
    inferInstanceAs (Records (gadget (I.ofCell 0)))
  obtain ⟨r⟩ := Component.exists_recorded (c := I.component gadget) (I.adds 0)
  refine ⟨r, fun l hl => ?_⟩
  have hpass (v : σ) (hv : A v) := by
    have h := r.attempts (I.input 0 (hfits v hv)) hl fun w hw hholds =>
      (hspec hholds fun _ => hv).weaken (fun _ ho => And.intro hw ho) id
    rwa [← input_eq r] at h
  constructor
  · -- one input that goes through shows that the circuit can be emitted
    obtain ⟨v, hv, hD⟩ := hregular
    obtain ⟨w, -, hcomputes⟩ | ⟨hC, -⟩ := hpass v hv
    case inr => exact absurd hD hC
    apply hcomputes.guarantees hl
    intro t ht
    obtain ⟨w, v, hw, hstore, hholds, hpost⟩ := exists_accepted r ht
    obtain ⟨hD, hQ⟩ :=
      hpost _ ((hspec hholds fun hw' => absurd hw' hw).triple fun hw' => absurd hw' hw)
    exact ⟨v, w, hstore, I.read?_of_holds hstore hholds, hD, hQ⟩
  · intro v hv
    apply Chip.ComputesIff.of_or
    refine (hpass v hv).imp ?_ id
    rintro ⟨w, ⟨hw, hD, hQ⟩, hcomputes⟩
    exact ⟨hD, hcomputes.weaken fun t ⟨hstore, hnum⟩ => ⟨w, hw, hstore, hnum, hQ⟩⟩

end Promises

end Inlet

end ForeignCurve
