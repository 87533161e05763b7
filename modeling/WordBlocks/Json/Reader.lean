import WordBlocks.Json.Numeral

/-!
Reading JSON text. The text is first cut into tokens by a machine that looks at one character at a
time, and the tokens are then assembled by a machine that keeps the open arrays and objects. A text
is a value or nothing: the reader does not say where a bad text goes wrong.
-/

namespace WordBlocks.Json

/-- A mark of punctuation, or a value that is no array or object. -/
inductive Token where
  | openArray
  | closeArray
  | openObject
  | closeObject
  | colon
  | comma
  | scalar (value : Json)

/-- Where the character machine stands. Characters of an unfinished token are kept in reverse. -/
inductive Lexing where
  /-- Between tokens. -/
  | idle
  /-- Inside `null`, `true` or `false`. -/
  | word (letters : List Char)
  /-- Inside a numeral. -/
  | numeral (chars : List Char)
  /-- Inside a string. -/
  | quoted (text : List Char)
  /-- After a backslash in a string. -/
  | escape (text : List Char)
  /-- Inside the four digits of a character code, perhaps after the first half of a pair. -/
  | code (text : List Char) (high : Option Nat) (missing : Nat) (value : Nat)
  /-- After the first half of a pair, before the backslash of the second. -/
  | pairBackslash (text : List Char) (high : Nat)
  /-- After the backslash of the second half of a pair. -/
  | pairMark (text : List Char) (high : Nat)

/-- The character machine: the tokens found so far, in reverse, and where it stands. -/
structure Lexer where
  tokens : List Token
  state : Lexing

/-- Blanks that may stand between tokens. -/
def isSeparator (c : Char) : Bool :=
  c == ' ' || c == '\t' || c == '\n' || c == '\r'

/-- Characters that a numeral may hold. -/
def isNumeralChar (c : Char) : Bool :=
  c.isDigit || c == '-' || c == '+' || c == '.' || c == 'e' || c == 'E'

def hexDigit? (c : Char) : Option Nat :=
  if c.isDigit then some (c.toNat - '0'.toNat)
  else if 'a' ≤ c ∧ c ≤ 'f' then some (c.toNat - 'a'.toNat + 10)
  else if 'A' ≤ c ∧ c ≤ 'F' then some (c.toNat - 'A'.toNat + 10)
  else none

/-- The value named by a word. -/
def ofWord? (letters : List Char) : Option Json :=
  if letters = "null".toList then some .null
  else if letters = "true".toList then some (.bool true)
  else if letters = "false".toList then some (.bool false)
  else none

namespace Lexer

/-- Takes a character between tokens. -/
def start (tokens : List Token) (c : Char) : Option Lexer :=
  if isSeparator c then some ⟨tokens, .idle⟩
  else if c = '[' then some ⟨.openArray :: tokens, .idle⟩
  else if c = ']' then some ⟨.closeArray :: tokens, .idle⟩
  else if c = '\x7b' then some ⟨.openObject :: tokens, .idle⟩
  else if c = '\x7d' then some ⟨.closeObject :: tokens, .idle⟩
  else if c = ':' then some ⟨.colon :: tokens, .idle⟩
  else if c = ',' then some ⟨.comma :: tokens, .idle⟩
  else if c = '"' then some ⟨tokens, .quoted []⟩
  else if c.isDigit || c == '-' then some ⟨tokens, .numeral [c]⟩
  else if c.isLower then some ⟨tokens, .word [c]⟩
  else none

/-- The character that a one-letter escape stands for. -/
def escaped? (c : Char) : Option Char :=
  if c = '"' ∨ c = '\\' ∨ c = '/' then some c
  else if c = 'b' then some '\x08'
  else if c = 'f' then some '\x0c'
  else if c = 'n' then some '\n'
  else if c = 'r' then some '\r'
  else if c = 't' then some '\t'
  else none

/-- Takes a complete character code: a character, the first half of a pair, or the second half of
the pair begun before. Halves do not stand alone. -/
def takeCode (tokens : List Token) (text : List Char) (high : Option Nat) (n : Nat) :
    Option Lexer :=
  match high with
  | none =>
    if 0xD800 ≤ n ∧ n ≤ 0xDBFF then some ⟨tokens, .pairBackslash text n⟩
    else if 0xDC00 ≤ n ∧ n ≤ 0xDFFF then none
    else some ⟨tokens, .quoted (Char.ofNat n :: text)⟩
  | some first =>
    if 0xDC00 ≤ n ∧ n ≤ 0xDFFF then
      some ⟨tokens, .quoted
        (Char.ofNat (0x10000 + (first - 0xD800) * 0x400 + (n - 0xDC00)) :: text)⟩
    else none

/-- Takes one character. -/
def step (lexer : Lexer) (c : Char) : Option Lexer :=
  let tokens := lexer.tokens
  match lexer.state with
  | .idle => start tokens c
  | .word letters =>
    if c.isLower then some ⟨tokens, .word (c :: letters)⟩
    else (ofWord? letters.reverse).bind fun v => start (.scalar v :: tokens) c
  | .numeral chars =>
    if isNumeralChar c then some ⟨tokens, .numeral (c :: chars)⟩
    else (JsonNumber.ofChars? chars.reverse).bind fun n =>
      start (.scalar (.number n) :: tokens) c
  | .quoted text =>
    if c = '"' then some ⟨.scalar (.string (String.ofList text.reverse)) :: tokens, .idle⟩
    else if c = '\\' then some ⟨tokens, .escape text⟩
    else if c.toNat < 0x20 then none
    else some ⟨tokens, .quoted (c :: text)⟩
  | .escape text =>
    if c = 'u' then some ⟨tokens, .code text none 3 0⟩
    else (escaped? c).map fun e => ⟨tokens, .quoted (e :: text)⟩
  | .code text high missing value =>
    (hexDigit? c).bind fun d =>
      match missing with
      | 0 => takeCode tokens text high (16 * value + d)
      | left + 1 => some ⟨tokens, .code text high left (16 * value + d)⟩
  | .pairBackslash text high =>
    if c = '\\' then some ⟨tokens, .pairMark text high⟩ else none
  | .pairMark text high =>
    if c = 'u' then some ⟨tokens, .code text (some high) 3 0⟩ else none

/-- The tokens of a text that ends here. -/
def finish (lexer : Lexer) : Option (List Token) :=
  match lexer.state with
  | .idle => some lexer.tokens.reverse
  | .word letters =>
    (ofWord? letters.reverse).map fun v => (.scalar v :: lexer.tokens).reverse
  | .numeral chars =>
    (JsonNumber.ofChars? chars.reverse).map fun n =>
      (.scalar (.number n) :: lexer.tokens).reverse
  | _ => none

end Lexer

/-- Cuts a text into tokens. -/
def tokens? (cs : List Char) : Option (List Token) :=
  (cs.foldlM Lexer.step ⟨[], .idle⟩).bind Lexer.finish

/-- Sets a field. A field that is already there keeps its place. -/
def insertField (fields : List (String × Json)) (key : String) (v : Json) :
    List (String × Json) :=
  if fields.any (·.1 == key) then
    fields.map fun f => if f.1 == key then (key, v) else f
  else fields ++ [(key, v)]

/-- An array or object that is still open. Items are kept in reverse; an object also holds the key
of the value that is being read. -/
inductive Frame where
  | array (items : List Json)
  | object (fields : List (String × Json)) (key : String)

/-- What may come next. -/
inductive Expecting where
  /-- A value. -/
  | value
  /-- A value, or the end of an array without items. -/
  | firstItem
  /-- A key. -/
  | key
  /-- A key, or the end of an object without fields. -/
  | firstKey
  /-- The colon after a key. -/
  | colon
  /-- A comma or the end of the innermost open array or object. -/
  | separator
  /-- Nothing: the value of the whole text is complete. -/
  | done (v : Json)

/-- The token machine: the open arrays and objects, innermost first, and what may come next. -/
structure Assembly where
  frames : List Frame
  expecting : Expecting

/-- Arrays and objects may be nested this deep. -/
def maxDepth : Nat := 127

namespace Assembly

/-- Puts a complete value where it belongs. -/
def complete (frames : List Frame) (v : Json) : Assembly :=
  match frames with
  | [] => ⟨[], .done v⟩
  | .array items :: rest => ⟨.array (v :: items) :: rest, .separator⟩
  | .object fields key :: rest => ⟨.object (insertField fields key v) key :: rest, .separator⟩

/-- Opens an array or object. -/
def enter (frames : List Frame) (frame : Frame) (next : Expecting) : Option Assembly :=
  if frames.length < maxDepth then some ⟨frame :: frames, next⟩ else none

/-- Takes a token where a value may begin. -/
def beginValue (frames : List Frame) : Token → Option Assembly
  | .scalar v => some (complete frames v)
  | .openArray => enter frames (.array []) .firstItem
  | .openObject => enter frames (.object [] "") .firstKey
  | _ => none

/-- Takes one token. -/
def step (a : Assembly) (t : Token) : Option Assembly :=
  match a.expecting, t, a.frames with
  | .value, t, frames => beginValue frames t
  | .firstItem, .closeArray, .array items :: rest => some (complete rest (.array items.reverse))
  | .firstItem, t, frames => beginValue frames t
  | .firstKey, .closeObject, .object fields _ :: rest => some (complete rest (.object fields))
  | .firstKey, .scalar (.string s), .object fields _ :: rest =>
    some ⟨.object fields s :: rest, .colon⟩
  | .key, .scalar (.string s), .object fields _ :: rest =>
    some ⟨.object fields s :: rest, .colon⟩
  | .colon, .colon, frames => some ⟨frames, .value⟩
  | .separator, .comma, .array items :: rest => some ⟨.array items :: rest, .value⟩
  | .separator, .comma, .object fields key :: rest => some ⟨.object fields key :: rest, .key⟩
  | .separator, .closeArray, .array items :: rest =>
    some (complete rest (.array items.reverse))
  | .separator, .closeObject, .object fields _ :: rest => some (complete rest (.object fields))
  | _, _, _ => none

end Assembly

/-- Reads a text that holds exactly one JSON value. -/
def parse? (text : String) : Option Json :=
  (tokens? text.toList).bind fun ts =>
    (ts.foldlM Assembly.step ⟨[], .value⟩).bind fun a =>
      match a.expecting with
      | .done v => some v
      | _ => none

end WordBlocks.Json
