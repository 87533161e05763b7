import WordBlocks.Block
import WordBlocks.Number.Numeral

/-!
What is bound to a slot. A binding is the identifier of a block, a primitive such as `[4, "10"]`,
or a wrapper `[kind, payload, shadow]` around another binding. Primitives have a code of at least 4
and wrappers a smaller one.
-/

namespace WordBlocks

/-- What a slot holds once its wrappers are removed. -/
inductive Slot where
  | block (id : String)
  | value (e : Expr)
deriving DecidableEq, Repr

namespace Slot

/-- Text that is written in a slot: a number if it reads as one. -/
def literal (raw : String) : Expr :=
  match Binary64.ofText? (Text.trimChars raw.toList) with
  | some x => .number x
  | none => .text raw

/-- The reference in a primitive `[code, name, id]`, from what follows the code. -/
def primitiveReference (rest : List Json) : Except CompileError Reference :=
  match rest.head?.bind Json.string? with
  | some name => .ok ⟨name, (rest[1]?.bind Json.string?).getD ""⟩
  | none => .error (.malformed .referenceWithoutName)

/-- Whether a primitive with this code refers to a variable or list. -/
def isReferenceCode (code : Int) : Bool :=
  code == 12 || code == 13

/-- The expression of a primitive, from its code and what follows it. -/
def primitive (code : Int) (rest : List Json) : Except CompileError Expr :=
  if isReferenceCode code then (primitiveReference rest).map .ref
  else
    let v := rest.head?.getD .null
    if code = 11 then .ok (.text (v.string?.getD ""))
    else .ok (match v with
      | .number n => .number n.toBinary64
      | .string s => literal s
      | .bool b => .text (if b then "true" else "false")
      | _ => .text "")

/-- Resolves a binding. A wrapper whose payload is missing or null stands for its shadow, and for
zero if it has none. -/
def ofJson : Json → Except CompileError Slot
  | .string id => .ok (.block id)
  | .array (head :: rest) =>
    match head.integer? with
    | some code =>
      if 4 ≤ code then (primitive code rest).map .value
      else match rest with
        | .null :: .null :: _ => .ok (.value .zero)
        | .null :: shadow :: _ => ofJson shadow
        | [.null] | [] => .ok (.value .zero)
        | payload :: _ => ofJson payload
    | none => .error (.malformed (.bindingWithoutKind (Json.text (.array (head :: rest)))))
  | .array [] => .error (.malformed (.bindingWithoutKind (Json.text (.array []))))
  | other => .error (.malformed (.unexpectedBinding other.text))

end Slot

/-- The letters of the ports of a hub. -/
def portLetters : List Char :=
  ['A', 'B', 'C', 'D', 'E', 'F']

/-- Ports named by their letters, in alphabetical order and each once. -/
def portSet (raw : String) : Except CompileError Expr :=
  let letters := Text.trimChars raw.toList
  if letters.isEmpty || !letters.all portLetters.contains then
    .error (.unsupportedPort (.selector (String.ofList letters)))
  else .ok (.ports (portLetters.filter letters.contains))

/-- The left and the right port of a movement pair. -/
def portPair (raw : String) : Except CompileError Expr :=
  let letters := Text.trimChars raw.toList
  match letters with
  | [left, right] =>
    if letters.all portLetters.contains && left != right then .ok (.ports letters)
    else .error (.unsupportedPort (.pairSelector (String.ofList letters)))
  | _ => .error (.unsupportedPort (.pairSelector (String.ofList letters)))

/-- The ports in a primitive whose letters `read` understands. -/
def primitivePorts (read : String → Except CompileError Expr) (binding : Json)
    (primitive : List Json) : Except CompileError Expr :=
  match primitive.head?.bind Json.integer? with
  | some code =>
    if Slot.isReferenceCode code then (Slot.primitiveReference primitive.tail).map .ref
    else match primitive[1]?.bind Json.string? with
      | some letters => read letters
      | none => .error (.unsupportedPort .numericLiteral)
  | none => .error (.unsupportedPort (.binding binding.text))

namespace Project

/-- Reads a slot for ports. It holds a menu or text with port letters, or a variable or list. -/
def ports (p : Project) (read : String → Except CompileError Expr) (b : Block) (slot : String) :
    Except CompileError Expr :=
  match b.input? slot with
  | none => .error (.unsupportedPort (.missingInput slot b.opcode))
  | some binding =>
    match b.inputBlock? slot with
    | some id => do
      let source ← p.block id
      match source.menuValue? with
      | some letters => read letters
      | none =>
        if source.opcode = "data_variable" then
          return .ref (← p.reference source "VARIABLE")
        else if source.opcode = "data_listcontents" then
          return .ref (← p.reference source "LIST")
        else throw (.unsupportedPort (.reporter source.opcode))
    | none =>
      match ((binding.item? 1).bind Json.array?).or binding.array? with
      | some primitive => primitivePorts read binding primitive
      | none => .error (.unsupportedPort (.binding binding.text))

end Project

end WordBlocks
