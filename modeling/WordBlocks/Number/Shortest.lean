import WordBlocks.Number.Numeral

/-!
The shortest decimal that reads back as a given binary64 value. A real number rounds to a value
when it lies in the interval between the midpoints to its two neighbours; the ends belong to the
interval when the significand is even. The search goes down the powers of ten and stops at the
first one that has a multiple in the interval.
-/

namespace WordBlocks

/-- The decimal `digits * 10 ^ exponent`. -/
structure Decimal where
  digits : Nat
  exponent : Int
deriving DecidableEq, Repr

/-- What to do when two decimals are equally near: take the upper one, or the even one. -/
inductive Tie where
  | up
  | even
deriving DecidableEq, Repr

namespace Binary64

/-- The factors that bring `c * 10 ^ k` and a number of quarters of the last place of `x` to one
scale: the first multiplies `c`, the second the quarters. -/
def scales (x : Binary64) (k : Int) : Nat × Nat :=
  let p := x.power - 2
  (tenPow k.toNat * twoPow (-p).toNat, tenPow (-k).toNat * twoPow p.toNat)

/-- The distance, in quarters of the last place, from `x` down to the end of its interval. It is
halved where the values below `x` stand twice as close. -/
def lowerGap (x : Binary64) : Nat :=
  if x.fraction.val = 0 ∧ 1 < x.exponent.val then 1 else 2

/-- Whether `c * 10 ^ k` rounds to the magnitude of `x`, which is finite and not zero. -/
def roundsFrom (x : Binary64) (c : Nat) (k : Int) : Bool :=
  let (s, t) := x.scales k
  let low := (4 * x.significand - x.lowerGap) * t
  let high := (4 * x.significand + 2) * t
  if x.significand % 2 = 0 then low ≤ c * s && c * s ≤ high
  else low < c * s && c * s < high

/-- The multiple of `10 ^ k` nearest to `x` among those that round to it. -/
def nearestMultiple? (tie : Tie) (x : Binary64) (k : Int) : Option Nat :=
  let (s, t) := x.scales k
  let c := 4 * x.significand * t / s
  match x.roundsFrom c k, x.roundsFrom (c + 1) k with
  | false, false => none
  | true, false => some c
  | false, true => some (c + 1)
  | true, true =>
    let twice := 8 * x.significand * t
    let middle := (2 * c + 1) * s
    if twice < middle then some c
    else if middle < twice then some (c + 1)
    else match tie with
      | .up => some (c + 1)
      | .even => some (if c % 2 = 0 then c else c + 1)

/-- Tries the powers of ten from `k` downwards, at most `steps` of them, and then settles for the
multiple at or below the value. -/
def shortestFrom (tie : Tie) (x : Binary64) : (steps : Nat) → (k : Int) → Decimal
  | 0, k => ⟨4 * x.significand * (x.scales k).2 / (x.scales k).1, k⟩
  | steps + 1, k =>
    match x.nearestMultiple? tie k with
    | some c => ⟨c, k⟩
    | none => shortestFrom tie x steps (k - 1)

/-- The shortest decimal that rounds to the magnitude of a finite value, and the nearest of the
shortest ones. The search starts above the value and reaches, at the latest, the power of ten
whose multiples hold the value exactly. -/
def shortest (tie : Tie) (x : Binary64) : Decimal :=
  if x.isZero then ⟨0, 0⟩
  else
    let start := (decimalDigits (x.ratio.1 / x.ratio.2)).length
    shortestFrom tie x (start + (-x.power).toNat) start

end Binary64

end WordBlocks
