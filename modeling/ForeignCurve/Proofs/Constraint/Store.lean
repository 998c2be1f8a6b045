import ForeignCurve.Proofs.Constraint.Hom

namespace ForeignCurve

instance : Arith (Option Native) where
  const := some
  add a b := do return (← a) + (← b)
  sub a b := do return (← a) - (← b)
  neg a := do return -(← a)
  mul a b := do return (← a) * (← b)

namespace Arith

theorem hom_some : Hom (some : Native → Option Native) where
  const _ := rfl
  add _ _ := rfl
  sub _ _ := rfl
  neg _ := rfl
  mul _ _ := rfl

end Arith

abbrev Store := Nat → Option Native

namespace Store

def cells (σ : Store) (n : Nat) : CellValues (Option Native) :=
  Array.ofFn fun i : Fin n => σ i

/-- A run inside of the arena holds the given values. -/
def Reads (σ : Store) (n : Nat) (s : CellSlice) (xs : List Native) : Prop :=
  (σ.cells n).slice s = .ok (xs.map some)

protected def le (σ τ : Store) : Prop :=
  ∀ i x, σ i = some x → τ i = some x

instance : LE Store := ⟨Store.le⟩

variable {σ τ : Store} {n : Nat} {s : CellSlice} {xs ys : List Native}

theorem le_refl (σ : Store) : σ ≤ σ := fun _ _ h => h

theorem le_trans {ρ : Store} (h : σ ≤ τ) (h' : τ ≤ ρ) : σ ≤ ρ := fun i x hx => h' i x (h i x hx)

theorem reads_iff : σ.Reads n s xs ↔ s.stop ≤ n ∧ s.indices.map σ = xs.map some := by
  unfold Reads cells
  rw [CellValues.slice_ofFn]
  split
  · next h =>
    rw [Except.ok.injEq]
    exact (and_iff_right h).symm
  · next h =>
    constructor
    · intro h'
      contradiction
    · intro h'
      exact absurd h'.1 h

theorem Reads.stop_le (h : σ.Reads n s xs) : s.stop ≤ n :=
  (reads_iff.mp h).1

theorem Reads.length_eq (h : σ.Reads n s xs) : xs.length = s.len := by
  have hmap := congrArg List.length (reads_iff.mp h).2
  rw [List.length_map, List.length_map, CellSlice.length_indices] at hmap
  exact hmap.symm

theorem Reads.unique (h : σ.Reads n s xs) (h' : σ.Reads n s ys) : xs = ys := by
  have hmap := (reads_iff.mp h).2.symm.trans (reads_iff.mp h').2
  exact List.map_injective_iff.mpr (fun _ _ h => Option.some.inj h) hmap

theorem Reads.store_eq {m : Nat} (h : σ.Reads n s xs) (h' : τ.Reads m s xs) {j : Nat}
    (hj : j ∈ s.indices) : τ j = σ j := by
  have hmap := (reads_iff.mp h').2.trans (reads_iff.mp h).2.symm
  exact List.map_inj_left.mp hmap j hj

theorem Reads.getElem (h : σ.Reads n s xs) {i : Nat} (hi : i < xs.length) :
    σ (s.start + i) = some xs[i] := by
  have hmap := (reads_iff.mp h).2
  have hlen := h.length_eq
  have hi' := congrArg (fun l => l[i]?) hmap
  simp only [CellSlice.indices, List.getElem?_map] at hi'
  rw [List.getElem?_range' (by omega), List.getElem?_eq_getElem hi] at hi'
  simpa using hi'

theorem reads_of_getElem (hs : s.stop ≤ n) (hlen : xs.length = s.len)
    (h : ∀ i (hi : i < xs.length), σ (s.start + i) = some xs[i]) : σ.Reads n s xs := by
  rw [reads_iff]
  refine ⟨hs, ?_⟩
  apply List.ext_getElem
  · simp [hlen]
  · intro i hi hi'
    rw [List.length_map] at hi'
    simp [CellSlice.indices, h i hi']

theorem Reads.mono (h : σ.Reads n s xs) (hle : σ ≤ τ) : τ.Reads n s xs := by
  apply reads_of_getElem h.stop_le h.length_eq
  intro i hi
  exact hle _ _ (h.getElem hi)

theorem Reads.get (h : σ.Reads n s xs) {i : Nat} (hi : i < xs.length) :
    (σ.cells n).get (s.start + i) = .ok (some xs[i]) := by
  have hi' : i < (xs.map some).length := by rwa [List.length_map]
  rw [CellValues.get_of_slice h hi', List.getElem_map]

theorem reads_append_iff {start k l : Nat} (hlen : xs.length = k) :
    σ.Reads n ⟨start, k + l⟩ (xs ++ ys) ↔ σ.Reads n ⟨start, k⟩ xs ∧ σ.Reads n ⟨start + k, l⟩ ys := by
  have hsplit : (⟨start, k + l⟩ : CellSlice).indices.map σ =
      (⟨start, k⟩ : CellSlice).indices.map σ ++ (⟨start + k, l⟩ : CellSlice).indices.map σ := by
    unfold CellSlice.indices
    rw [← List.range'_append_1, List.map_append]
  rw [reads_iff, reads_iff, reads_iff, hsplit, List.map_append]
  have hlen' : ((⟨start, k⟩ : CellSlice).indices.map σ).length = (xs.map some).length := by
    rw [List.length_map, List.length_map, CellSlice.length_indices, hlen]
  change start + (k + l) ≤ n ∧ _ ↔ (start + k ≤ n ∧ _) ∧ start + k + l ≤ n ∧ _
  constructor
  · rintro ⟨hbound, h⟩
    obtain ⟨hxs, hys⟩ := List.append_inj h hlen'
    exact ⟨⟨by omega, hxs⟩, by omega, hys⟩
  · rintro ⟨⟨-, hxs⟩, hbound, hys⟩
    rw [hxs, hys]
    exact ⟨by omega, rfl⟩

end Store

def Assertion.Holds (σ : Store) : Assertion (Option Native) → Prop
  | .vanishes value => value = some 0
  | .lookup table values =>
    ∃ xs : List Native, values = xs.map some ∧ table.contains (xs.map (·.val))
  | .link a b =>
    a.len = b.len ∧ ∀ i < a.len, ∃ x, σ (a.start + i) = some x ∧ σ (b.start + i) = some x

/-- Everything that an instruction asserts holds on a store. -/
def Instruction.Holds (σ : Store) (n : Nat) (i : Instruction) : Prop :=
  ∃ as, i.assertions (σ.cells n) = .ok as ∧ ∀ a ∈ as, a.Holds σ

end ForeignCurve
