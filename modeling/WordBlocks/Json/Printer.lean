import WordBlocks.Json.Value
import WordBlocks.Number.Layout

/-!
Writing JSON text without blanks. Fields are written in the order in which they are kept.
-/

namespace WordBlocks.Json

/-- Floats keep a decimal point, are positional from `1e-5` up to below `1e16`, and otherwise have
a signed exponent without padding. -/
def numberLayout : NumberLayout where
  tie := .even
  positional := fun e => -5 ≤ e && e ≤ 15
  point := true
  exponentWidth := 1
  nan := "null"
  infinity := "null"
  negativeInfinity := "null"

def numberText : JsonNumber → String
  | .integer z => toString z
  | .float x => numberLayout.write x

/-- The two hexadecimal digits of a number below 256. -/
def hexPair (n : Nat) : List Char :=
  [Nat.digitChar (n / 16), Nat.digitChar (n % 16)]

/-- A character inside a JSON string. Only quotes, backslashes and control characters are
escaped. -/
def escapeChar (c : Char) : List Char :=
  if c = '"' then ['\\', '"']
  else if c = '\\' then ['\\', '\\']
  else if c = '\x08' then ['\\', 'b']
  else if c = '\x0c' then ['\\', 'f']
  else if c = '\n' then ['\\', 'n']
  else if c = '\r' then ['\\', 'r']
  else if c = '\t' then ['\\', 't']
  else if c.toNat < 0x20 then '\\' :: 'u' :: '0' :: '0' :: hexPair c.toNat
  else [c]

/-- A text as a JSON string. -/
def quote (s : String) : String :=
  String.ofList ('"' :: s.toList.flatMap escapeChar ++ ['"'])

mutual

/-- The compact text of a value. -/
def text : Json → String
  | .null => "null"
  | .bool b => if b then "true" else "false"
  | .number n => numberText n
  | .string s => quote s
  | .array items => "[" ++ itemsText items ++ "]"
  | .object fields => "\x7b" ++ fieldsText fields ++ "\x7d"

/-- Items with commas between them. -/
def itemsText : List Json → String
  | [] => ""
  | [v] => text v
  | v :: rest => text v ++ "," ++ itemsText rest

/-- Fields with commas between them. -/
def fieldsText : List (String × Json) → String
  | [] => ""
  | [(key, v)] => quote key ++ ":" ++ text v
  | (key, v) :: rest => quote key ++ ":" ++ text v ++ "," ++ fieldsText rest

end

end WordBlocks.Json
