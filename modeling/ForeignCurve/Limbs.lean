import ForeignCurve.Native

namespace ForeignCurve

attribute [local instance] Native.natPow

def bitLength (n : Nat) : Nat :=
  if n = 0 then 0 else n.log2 + 1

namespace Limbs

/--
Splits `value` into `count` limbs of `bits` bits, lowest limb first. What is above is dropped, and
a limb wider than a word keeps its low 64 bits.
-/
def encode (bits : Nat) : Nat → Nat → List Nat
  | 0, _ => []
  | count + 1, value => value % 2 ^ bits % 2 ^ (64 : Nat) :: encode bits count (value >>> bits)

def decode (bits : Nat) : List Nat → Nat
  | [] => 0
  | limb :: limbs => (decode bits limbs <<< bits) + limb

@[simp]
theorem length_encode (bits count value : Nat) : (encode bits count value).length = count := by
  induction count generalizing value with
  | zero => rfl
  | succ count ih => simp [encode, ih]

theorem lt_of_mem_encode {bits count value limb : Nat} (h : limb ∈ encode bits count value) :
    limb < 2 ^ bits := by
  induction count generalizing value with
  | zero => simp [encode] at h
  | succ count ih =>
    rw [encode, List.mem_cons] at h
    cases h with
    | inl h =>
      subst h
      exact Nat.lt_of_le_of_lt (Nat.mod_le _ _) (Nat.mod_lt _ (Nat.two_pow_pos _))
    | inr h => exact ih h

def decodeNative (bits : Nat) (limbs : List Native) : Nat :=
  decode bits (limbs.map (·.val))

end Limbs

end ForeignCurve
