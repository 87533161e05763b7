import WordBlocks.Json.Value
import WordBlocks.Number.Numeral

/-!
Numerals of JSON. Digits are collected into a significand as long as it fits 64 bits. Whole digits
that no longer fit only raise the exponent, and fraction digits that no longer fit are dropped.
The significand is then rounded to binary64 and multiplied or divided by a power of ten, so the
result is not always the value nearest to the numeral.
-/

namespace WordBlocks.JsonNumber

/-- Takes digits into a significand while it stays below `2 ^ 64`. Returns the significand and the
number of digits taken. -/
def absorb : Nat → List Char → Nat × Nat
  | n, [] => (n, 0)
  | n, d :: ds =>
    let m := 10 * n + (d.toNat - '0'.toNat)
    if m ≤ unsignedMax then
      let (total, taken) := absorb m ds
      (total, taken + 1)
    else (n, 0)

/-- The power of ten `10 ^ n`, rounded to binary64. -/
def powerOfTen (n : Nat) : Binary64 :=
  .ofRatio false (tenPow n) 1

/-- Scales a non-negative value by `10 ^ e`. Powers beyond `10 ^ 308` are divided off in steps of
that size, and too large a result is refused. -/
def scale? (x : Binary64) (e : Int) : Option Binary64 :=
  if 0 ≤ e ∧ e ≤ 308 then
    let y := x.mulMagnitude (powerOfTen e.toNat)
    if y.isInfinite then none else some y
  else if h : -308 ≤ e ∧ e < 0 then some (x.divMagnitude (powerOfTen (-e).toNat))
  else if x.isZero then some x
  else if h : 0 ≤ e then none
  else scale? (x.divMagnitude (powerOfTen 308)) (e + 308)
termination_by (-e).toNat
decreasing_by omega

/-- The parts of a numeral: sign, whole digits, fraction digits and written exponent. -/
structure Parts where
  negative : Bool
  whole : List Char
  fraction : Option (List Char)
  exponent : Option Int

/-- The value that the parts of a numeral denote. Without fraction and exponent it is an integer
when it fits 64 bits; minus zero is not an integer. -/
def Parts.value? (p : Parts) : Option JsonNumber :=
  let (significand, taken) := absorb 0 p.whole
  let raised : Int := ((p.whole.length - taken : Nat) : Int)
  let signed (x : Binary64) : JsonNumber := .float { x with negative := p.negative }
  match p.fraction, p.exponent with
  | none, none =>
    if raised = 0 then
      if !p.negative then some (.integer significand)
      else if 0 < significand ∧ significand ≤ twoPow 63 then some (.integer (-significand))
      else some (signed (.ofInt significand))
    else (scale? (.ofInt significand) raised).map signed
  | fraction, exponent =>
    let (significand, places) := absorb significand (fraction.getD [])
    (scale? (.ofInt significand) (raised - places + exponent.getD 0)).map signed

/-- Splits a numeral into its parts. There are no leading zeros, and a point and an exponent mark
are each followed by a digit. -/
def Parts.ofChars? (cs : List Char) : Option Parts :=
  let (negative, body) := match cs with
    | '-' :: rest => (true, rest)
    | other => (false, other)
  let whole := body.takeWhile Char.isDigit
  let rest := body.dropWhile Char.isDigit
  if whole.isEmpty || (whole.head? == some '0' && 1 < whole.length) then none
  else match rest with
    | '.' :: after =>
      let fraction := after.takeWhile Char.isDigit
      let rest := after.dropWhile Char.isDigit
      if fraction.isEmpty then none
      else if rest.isEmpty then some ⟨negative, whole, some fraction, none⟩
      else (Binary64.readExponent? rest).map fun e => ⟨negative, whole, some fraction, some e⟩
    | [] => some ⟨negative, whole, none, none⟩
    | rest => (Binary64.readExponent? rest).map fun e => ⟨negative, whole, none, some e⟩

/-- Reads a JSON numeral. -/
def ofChars? (cs : List Char) : Option JsonNumber :=
  (Parts.ofChars? cs).bind Parts.value?

end WordBlocks.JsonNumber
