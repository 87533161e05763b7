import WordBlocks.Number.Binary64

/-!
Numbers written as text. `Binary64.ofText?` reads a decimal numeral, with optional sign, point and
exponent, or one of the words for an infinity or NaN, and rounds it to the nearest binary64 value.
`wordInteger?` reads an integer that fits a signed 64-bit word.
-/

namespace WordBlocks

/-- The value of a string of decimal digits. -/
def digitsValue (ds : List Char) : Nat :=
  ds.foldl (fun n d => 10 * n + (d.toNat - '0'.toNat)) 0

/-- The decimal digits of a natural number, most significant first. -/
def decimalDigits (n : Nat) : List Char :=
  Nat.toDigits 10 n

/-- Splits off a leading sign; the flag says whether it was a minus. -/
def splitSign : List Char → Bool × List Char
  | '-' :: cs => (true, cs)
  | '+' :: cs => (false, cs)
  | cs => (false, cs)

/-- Reads an integer in decimal with an optional sign, if it fits a signed 64-bit word. -/
def wordInteger? (cs : List Char) : Option Int :=
  let (negative, ds) := splitSign cs
  if ds.isEmpty || !ds.all Char.isDigit then none
  else
    let n : Int := (digitsValue ds : Nat)
    let z := if negative then -n else n
    if wordMin ≤ z ∧ z ≤ wordMax then some z else none

namespace Binary64

/-- The value nearest to `digits * 10 ^ exponent`. A decimal of `n` digits lies below
`10 ^ (n + exponent)` and not below a tenth of it, so the extreme exponents need no arithmetic. -/
def ofDecimal (negative : Bool) (digits : Nat) (exponent : Int) : Binary64 :=
  if digits = 0 then zero negative
  else
    let top : Int := ((decimalDigits digits).length : Int) + exponent
    if 310 ≤ top then infinity negative
    else if top ≤ -324 then zero negative
    else ofRatio negative (digits * tenPow exponent.toNat) (tenPow (-exponent).toNat)

/-- Reads what may follow the digits of a numeral: nothing, or an exponent. -/
def readExponent? : List Char → Option Int
  | [] => some 0
  | c :: cs =>
    if c = 'e' ∨ c = 'E' then
      let (negative, ds) := splitSign cs
      if ds.isEmpty || !ds.all Char.isDigit then none
      else
        let n : Int := (digitsValue ds : Nat)
        some (if negative then -n else n)
    else none

/-- Reads an unsigned decimal numeral. There is a digit before or after the point. -/
def ofNumeral? (negative : Bool) (cs : List Char) : Option Binary64 :=
  let whole := cs.takeWhile Char.isDigit
  let rest := cs.dropWhile Char.isDigit
  let (fraction, rest) := match rest with
    | '.' :: after => (after.takeWhile Char.isDigit, after.dropWhile Char.isDigit)
    | other => ([], other)
  if whole.isEmpty && fraction.isEmpty then none
  else (readExponent? rest).map fun e =>
    ofDecimal negative (digitsValue (whole ++ fraction)) (e - fraction.length)

/-- Reads a number: an optional sign, then a numeral or the name of an infinity or of NaN in any
mixture of capital and small letters. -/
def ofText? (cs : List Char) : Option Binary64 :=
  let (negative, body) := splitSign cs
  let name := body.map Char.toLower
  if name = "inf".toList ∨ name = "infinity".toList then some (infinity negative)
  else if name = "nan".toList then some nan
  else ofNumeral? negative body

end Binary64

end WordBlocks
