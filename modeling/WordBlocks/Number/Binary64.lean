import WordBlocks.Number.Power

/-!
Numbers of the word-block programs: IEEE 754 binary64 values, held as their three fields so that
every operation on them is exact integer arithmetic. The two operations that matter are
`Binary64.ofRatio`, which rounds a quotient of natural numbers to the nearest value with ties to
the even significand, and `Binary64.truncate`, the integer part.
-/

namespace WordBlocks

/-- A binary64 value as its sign, biased exponent and fraction fields. -/
structure Binary64 where
  negative : Bool
  exponent : Fin 2048
  fraction : Fin (twoPow 52)
deriving DecidableEq, Repr

/-- The quotient `num / den` rounded to the nearest natural number, a half to the even one. -/
def roundHalfEven (num den : Nat) : Nat :=
  let q := num / den
  let r := num % den
  if 2 * r < den then q
  else if den < 2 * r then q + 1
  else if q % 2 = 0 then q
  else q + 1

namespace Binary64

/-- The value whose 64-bit interchange encoding is `word`. -/
def ofBits (word : Nat) : Binary64 where
  negative := word / twoPow 63 % 2 == 1
  exponent := ⟨word / twoPow 52 % 2048, Nat.mod_lt _ (by decide)⟩
  fraction := ⟨word % twoPow 52, Nat.mod_lt _ (by decide)⟩

/-- The 64-bit interchange encoding. -/
def toBits (x : Binary64) : Nat :=
  (if x.negative then twoPow 63 else 0) + x.exponent.val * twoPow 52 + x.fraction.val

/-- A zero of the given sign. -/
def zero (negative : Bool) : Binary64 :=
  ⟨negative, 0, ⟨0, by decide⟩⟩

/-- The infinity of the given sign. -/
def infinity (negative : Bool) : Binary64 :=
  ⟨negative, 2047, ⟨0, by decide⟩⟩

/-- The quiet NaN with an empty payload. -/
def nan : Binary64 :=
  ⟨false, 2047, ⟨twoPow 51, by decide⟩⟩

instance : Inhabited Binary64 := ⟨zero false⟩

def isFinite (x : Binary64) : Bool :=
  x.exponent.val != 2047

def isNaN (x : Binary64) : Bool :=
  x.exponent.val == 2047 && x.fraction.val != 0

def isInfinite (x : Binary64) : Bool :=
  x.exponent.val == 2047 && x.fraction.val == 0

def isZero (x : Binary64) : Bool :=
  x.exponent.val == 0 && x.fraction.val == 0

/-- The integer significand: a finite value has the magnitude `significand * 2 ^ power`. -/
def significand (x : Binary64) : Nat :=
  if x.exponent.val = 0 then x.fraction.val else twoPow 52 + x.fraction.val

/-- The power of two that goes with `significand`. -/
def power (x : Binary64) : Int :=
  if x.exponent.val = 0 then -1074 else (x.exponent.val : Int) - 1075

/-- The magnitude of a finite value as a quotient of natural numbers. -/
def ratio (x : Binary64) : Nat × Nat :=
  (x.significand * twoPow x.power.toNat, twoPow (-x.power).toNat)

/-- The value with the magnitude `m * 2 ^ q`, for a rounded significand `m ≤ 2 ^ 53` that is below
`2 ^ 52` only at the least power `-1074`. Magnitudes from `2 ^ 1024` on become infinite. -/
def ofSignificand (negative : Bool) (m : Nat) (q : Int) : Binary64 :=
  let (m, q) := if m = twoPow 53 then (twoPow 52, q + 1) else (m, q)
  if m < twoPow 52 then
    ⟨negative, 0, ⟨m % twoPow 52, Nat.mod_lt _ (by decide)⟩⟩
  else
    let biased := (q + 1075).toNat
    if biased < 2047 then
      ⟨negative, ⟨biased % 2048, Nat.mod_lt _ (by decide)⟩,
        ⟨(m - twoPow 52) % twoPow 52, Nat.mod_lt _ (by decide)⟩⟩
    else infinity negative

/-- The exponent of the greatest power of two that is at most `num / den`, both positive. -/
def floorLog2 (num den : Nat) : Int :=
  let guess : Int := (num.log2 : Int) - (den.log2 : Int)
  if den * twoPow guess.toNat ≤ num * twoPow (-guess).toNat then guess else guess - 1

/-- The value nearest to `num / den`, ties to the even significand. -/
def ofRatio (negative : Bool) (num den : Nat) : Binary64 :=
  if num = 0 then zero negative
  else
    let q := max (floorLog2 num den - 52) (-1074)
    ofSignificand negative (roundHalfEven (num * twoPow (-q).toNat) (den * twoPow q.toNat)) q

/-- The value nearest to an integer. -/
def ofInt (z : Int) : Binary64 :=
  ofRatio (z < 0) z.natAbs 1

/-- The product of the magnitudes of two finite values, rounded. -/
def mulMagnitude (x y : Binary64) : Binary64 :=
  ofRatio false (x.ratio.1 * y.ratio.1) (x.ratio.2 * y.ratio.2)

/-- The quotient of the magnitudes of two finite values, rounded; the divisor is not zero. -/
def divMagnitude (x y : Binary64) : Binary64 :=
  ofRatio false (x.ratio.1 * y.ratio.2) (x.ratio.2 * y.ratio.1)

/-- The integer part of a finite value. -/
def truncate (x : Binary64) : Int :=
  let n : Int := ((x.ratio.1 / x.ratio.2 : Nat) : Int)
  if x.negative then -n else n

/-- Whether a value is finite and has no fractional part. -/
def isIntegral (x : Binary64) : Bool :=
  x.isFinite && x.ratio.1 % x.ratio.2 == 0

/-- The integer part, moved into `[low, high]`. -/
def clampedInt (x : Binary64) (low high : Int) : Int :=
  max low (min high x.truncate)

end Binary64

end WordBlocks
