import ForeignCurve.Failure

namespace ForeignCurve

/-- The powers of core. The modules of the program take these, whatever other instances are known. -/
abbrev Native.natPow : Pow Nat Nat :=
  instPowNat

/-- The order of the native field, `2^64 - 2^32 + 1`. -/
def order : Nat := 18446744069414584321

instance : @NeZero Nat Zero.ofOfNat0 order := ⟨by decide⟩

abbrev Native := Fin order

namespace Native

def ofNat (n : Nat) : Native :=
  Fin.ofNat order n

def ofWord (word : Nat) : Except Abort Native :=
  if h : word < order then .ok ⟨word, h⟩ else .error .notCanonical

def ofWords : List Nat → Except Abort (List Native)
  | [] => .ok []
  | word :: words => do return (← ofWord word) :: (← ofWords words)

def ofBool (b : Bool) : Native :=
  if b then 1 else 0

@[simp]
theorem val_ofNat (n : Nat) : (ofNat n).val = n % order := rfl

theorem ofNat_val (x : Native) : ofNat x.val = x :=
  Fin.ext (Nat.mod_eq_of_lt x.isLt)

theorem ofNat_add (m n : Nat) : ofNat (m + n) = ofNat m + ofNat n := by
  apply Fin.ext
  simp [Fin.val_add]

theorem ofNat_mul (m n : Nat) : ofNat (m * n) = ofNat m * ofNat n := by
  apply Fin.ext
  simp [Fin.val_mul]

theorem ofWord_eq_ok {w : Nat} (h : w < order) : ofWord w = .ok (ofNat w) := by
  simp [ofWord, h, ofNat, Fin.ofNat, Nat.mod_eq_of_lt h]

theorem ofWords_eq_ok {ws : List Nat} (h : ∀ w ∈ ws, w < order) :
    ofWords ws = .ok (ws.map ofNat) := by
  induction ws with
  | nil => rfl
  | cons w ws ih =>
    rw [List.forall_mem_cons] at h
    rw [ofWords, ofWord_eq_ok h.1, ih h.2]
    rfl

end Native

end ForeignCurve
