/-!
Powers of two and of ten, and the bounds of 64-bit words.
-/

namespace WordBlocks

/-- The power of two with an exponent. -/
def twoPow (n : Nat) : Nat :=
  Nat.pow 2 n

/-- The power of ten with an exponent. -/
def tenPow (n : Nat) : Nat :=
  Nat.pow 10 n

/-- The least signed 64-bit word. -/
def wordMin : Int := -9223372036854775808

/-- The greatest signed 64-bit word. -/
def wordMax : Int := 9223372036854775807

/-- The greatest unsigned 64-bit word. -/
def unsignedMax : Nat := 18446744073709551615

end WordBlocks
