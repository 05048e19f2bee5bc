import Telematics.Number.Word

/-!
# Whole numbers with a bounded number of significant bits

`roundBits p n` is the number nearest to `n` that `p` binary digits and trailing zeros can write, a
number half way between two such going to the one with the even last digit. Numbers below `twoTo p`
are such numbers themselves and stay as they are (`roundBits_of_lt`).
-/

set_option autoImplicit false

namespace Telematics.Number

/-- The nearest number with at most `p` significant bits; halves go to the even neighbour. -/
def roundBits (p n : Nat) : Nat :=
  let unit := twoTo (n.log2 + 1 - p)
  let kept := n / unit
  let rest := n % unit
  if unit < 2 * rest ∨ (unit = 2 * rest ∧ kept % 2 = 1) then (kept + 1) * unit else kept * unit

/-- The nearest whole number with at most `p` significant bits, on either side of zero. -/
def roundBitsInt (p : Nat) (n : Int) : Int :=
  if n < 0 then -(roundBits p n.natAbs : Int) else roundBits p n.natAbs

/-- A number that fits stays as it is. -/
theorem roundBits_of_lt {p n : Nat} (h : n < twoTo p) : roundBits p n = n := by
  cases n with
  | zero => simp [roundBits]
  | succ n =>
    have hlog : (n + 1).log2 < p := (Nat.log2_lt (Nat.succ_ne_zero n)).2 h
    have hunit : (n + 1).log2 + 1 - p = 0 := Nat.sub_eq_zero_of_le hlog
    simp [roundBits, hunit, twoTo, Nat.mod_one]

/-- A number that fits stays as it is, on either side of zero. -/
theorem roundBitsInt_of_lt {p : Nat} {n : Int} (h : n.natAbs < twoTo p) : roundBitsInt p n = n := by
  simp only [roundBitsInt, roundBits_of_lt h]
  split <;> omega

end Telematics.Number
