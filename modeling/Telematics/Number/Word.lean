/-!
# Powers and the bounds of machine words

The powers of two and ten, and the bounds of the whole numbers that fit 32 or 64 bits.
-/

set_option autoImplicit false

namespace Telematics.Number

/-- A power of two. -/
def twoTo (n : Nat) : Nat := Nat.pow 2 n

/-- A power of ten. -/
def tenTo (n : Nat) : Nat := Nat.pow 10 n

/-- The largest number of 32 bits without a sign. -/
def mostNat32 : Nat := 4294967295

/-- The largest number of 64 bits without a sign. -/
def mostNat64 : Nat := 18446744073709551615

/-- The largest number of 32 bits with a sign. -/
def mostInt32 : Int := 2147483647

/-- The least number of 32 bits with a sign. -/
def leastInt32 : Int := -2147483648

/-- The largest number of 64 bits with a sign. -/
def mostInt64 : Int := 9223372036854775807

/-- The least number of 64 bits with a sign. -/
def leastInt64 : Int := -9223372036854775808

end Telematics.Number
