import WordBlocks.Number.Binary64

/-!
JSON values. An object is a list of fields in the order of their first appearance, and a number
remembers whether it was written as an integer, because the two kinds answer differently to
`Json.integer?`.
-/

namespace WordBlocks

/-- A JSON number: an integer that fits 64 bits, or a binary64 value. -/
inductive JsonNumber where
  | integer (value : Int)
  | float (value : Binary64)
deriving DecidableEq, Repr

/-- The number as a binary64 value, rounded if it is an integer. -/
def JsonNumber.toBinary64 : JsonNumber → Binary64
  | .integer z => .ofInt z
  | .float x => x

/-- A JSON value with the order of its fields. -/
inductive Json where
  | null
  | bool (value : Bool)
  | number (value : JsonNumber)
  | string (value : String)
  | array (items : List Json)
  | object (fields : List (String × Json))
deriving Repr, BEq

namespace Json

instance : Inhabited Json := ⟨null⟩

def bool? : Json → Option Bool
  | bool b => some b
  | _ => none

def string? : Json → Option String
  | string s => some s
  | _ => none

def array? : Json → Option (List Json)
  | array items => some items
  | _ => none

def object? : Json → Option (List (String × Json))
  | object fields => some fields
  | _ => none

/-- Any number, as a binary64 value. -/
def float? : Json → Option Binary64
  | number n => some n.toBinary64
  | _ => none

/-- A number that was written as an integer and fits a signed 64-bit word. -/
def integer? : Json → Option Int
  | number (.integer z) => if z ≤ wordMax then some z else none
  | _ => none

/-- The value of a field of an object. -/
def field? (v : Json) (key : String) : Option Json :=
  v.object?.bind (·.lookup key)

/-- The item of an array at a position. -/
def item? (v : Json) (i : Nat) : Option Json :=
  v.array?.bind (·[i]?)

end Json

end WordBlocks
