import WordBlocks.Number.Shortest

/-!
Layouts for writing numbers. A `NumberLayout` collects the decisions that one output format makes
about the shortest decimal of a value: which exponents are written positionally, whether whole
numbers keep a point, and how the other values are spelled.
-/

namespace WordBlocks

/-- How a format writes numbers. -/
structure NumberLayout where
  /-- Which of two equally near decimals is written. -/
  tie : Tie
  /-- Whether a number whose leading digit stands for this power of ten is written positionally. -/
  positional : Int → Bool
  /-- Whether a whole number in positional layout ends in `.0`. -/
  point : Bool
  /-- The least number of digits of a written exponent. -/
  exponentWidth : Nat
  nan : String
  infinity : String
  negativeInfinity : String

namespace Decimal

/-- The digits of a decimal, most significant first. -/
def text (d : Decimal) : List Char :=
  decimalDigits d.digits

/-- The power of ten that the leading digit stands for. -/
def leadingExponent (d : Decimal) : Int :=
  ((d.text.length : Nat) : Int) - 1 + d.exponent

/-- All digits around a point. Without `point` a whole number has none. -/
def positional (point : Bool) (d : Decimal) : List Char :=
  let ds := d.text
  if 0 ≤ d.exponent then
    ds ++ List.replicate d.exponent.toNat '0' ++ (if point then ['.', '0'] else [])
  else
    let places := (-d.exponent).toNat
    if places < ds.length then
      ds.take (ds.length - places) ++ '.' :: ds.drop (ds.length - places)
    else
      '0' :: '.' :: List.replicate (places - ds.length) '0' ++ ds

/-- One digit, the others after a point, and a signed exponent of at least `width` digits. -/
def scientific (width : Nat) (d : Decimal) : List Char :=
  let e := d.leadingExponent
  let es := decimalDigits e.natAbs
  (match d.text with
    | [] => []
    | [c] => [c]
    | c :: cs => c :: '.' :: cs) ++
    'e' :: (if e < 0 then '-' else '+') :: List.replicate (width - es.length) '0' ++ es

end Decimal

namespace NumberLayout

/-- The characters of a finite magnitude. -/
def magnitude (f : NumberLayout) (x : Binary64) : List Char :=
  let d := x.shortest f.tie
  if x.isZero || f.positional d.leadingExponent then d.positional f.point
  else d.scientific f.exponentWidth

/-- The text of a number. -/
def write (f : NumberLayout) (x : Binary64) : String :=
  if x.isNaN then f.nan
  else if x.isInfinite then
    if x.negative then f.negativeInfinity else f.infinity
  else String.ofList ((if x.negative then ['-'] else []) ++ f.magnitude x)

end NumberLayout

end WordBlocks
