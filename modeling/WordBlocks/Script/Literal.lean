import WordBlocks.Number.Layout

/-!
Literals of the generated Python scripts: numbers, strings, and the negation of a number's text.
-/

namespace WordBlocks.Script

/-- Numbers are float literals: positional from `1e-4` up to below `1e16`, where whole numbers end
in `.0`, and otherwise with a signed exponent of at least two digits. -/
def numberLayout : NumberLayout where
  tie := .up
  positional := fun e => -4 ≤ e && e ≤ 15
  point := true
  exponentWidth := 2
  nan := "float('nan')"
  infinity := "float('inf')"
  negativeInfinity := "float('-inf')"

/-- The literal of a number. -/
def numberText (x : Binary64) : String :=
  numberLayout.write x

/-- A character inside a string literal. -/
def escapeChar (c : Char) : List Char :=
  if c = '\\' then ['\\', '\\']
  else if c = '\'' then ['\\', '\'']
  else if c = '\n' then ['\\', 'n']
  else if c = '\r' then ['\\', 'r']
  else if c = '\t' then ['\\', 't']
  else [c]

/-- The characters of a string literal, in single quotes. -/
def quoteChars (cs : List Char) : List Char :=
  '\'' :: cs.flatMap escapeChar ++ ['\'']

/-- The literal of a string. -/
def quote (s : String) : String :=
  String.ofList (quoteChars s.toList)

/-- A minus sign before the text of an expression. Text that has one already is put in
parentheses. -/
def negate (s : String) : String :=
  match s.toList with
  | '-' :: _ => "-(" ++ s ++ ")"
  | _ => "-" ++ s

end WordBlocks.Script
