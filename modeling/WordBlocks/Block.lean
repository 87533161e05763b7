import WordBlocks.Json.Printer
import WordBlocks.Program.Expr
import WordBlocks.Project

/-!
Blocks. A block has an opcode, slots that hold its operands and bodies, and drop-down fields. A menu
is a shadow block without operands whose only field is what the user picked.
-/

namespace WordBlocks

/-- A drop-down field: the chosen text, and the identifier of what it names. -/
structure Field where
  text : Option String
  id : Option String
deriving DecidableEq, Repr

/-- The text of a value that may stand in a field. -/
def Field.textOf? : Json → Option String
  | .string s => some s
  | .number n => some (Json.numberText n)
  | _ => none

def Field.ofJson : Json → Field
  | .string s => ⟨some s, none⟩
  | .array items => ⟨items.head?.bind textOf?, items[1]?.bind Json.string?⟩
  | _ => ⟨none, none⟩

/-- A block of the program. -/
structure Block where
  opcode : String
  next : Option String
  topLevel : Bool
  shadow : Bool
  x : Option Binary64
  y : Option Binary64
  inputs : List (String × Json)
  fields : List (String × Field)

namespace Block

/-- Reads a block. Whatever an object lacks has a default, and only an object is a block. -/
def ofJson? (v : Json) : Option Block :=
  match v with
  | .object _ => some {
      opcode := ((v.field? "opcode").bind Json.string?).getD ""
      next := (v.field? "next").bind Json.string?
      topLevel := ((v.field? "topLevel").bind Json.bool?).getD false
      shadow := ((v.field? "shadow").bind Json.bool?).getD false
      x := (v.field? "x").bind Json.float?
      y := (v.field? "y").bind Json.float?
      inputs := ((v.field? "inputs").bind Json.object?).getD []
      fields := (((v.field? "fields").bind Json.object?).getD []).map
        fun f => (f.1, Field.ofJson f.2) }
  | _ => none

/-- What is bound to a slot. -/
def input? (b : Block) (slot : String) : Option Json :=
  b.inputs.lookup slot

/-- The identifier of the block that drives a slot, which is the binding itself or its second
item. -/
def inputBlock? (b : Block) (slot : String) : Option String :=
  match b.input? slot with
  | some (.string id) => some id
  | some (.array items) => items[1]?.bind Json.string?
  | _ => none

def fieldText? (b : Block) (field : String) : Option String :=
  (b.fields.lookup field).bind (·.text)

def fieldId? (b : Block) (field : String) : Option String :=
  (b.fields.lookup field).bind (·.id)

/-- The text of a field that must be there. -/
def requireField (b : Block) (field : String) : Except CompileError String :=
  match b.fieldText? field with
  | some s => .ok s
  | none => .error (.malformed (.missingField b.opcode field))

/-- What the user picked, if the block is a menu. -/
def menuValue? (b : Block) : Option String :=
  if b.shadow && b.inputs.isEmpty then
    match b.fields with
    | [(_, f)] => f.text
    | _ => none
  else none

end Block

namespace Project

/-- The block with an identifier. -/
def block (p : Project) (id : String) : Except CompileError Block :=
  match (p.blocks.lookup id).bind Block.ofJson? with
  | some b => .ok b
  | none => .error (.malformed (.missingBlock id))

/-- Reads the field of a block that names a variable or list. The name that the project declares
for the identifier wins over the name in the field. -/
def reference (p : Project) (b : Block) (field : String) : Except CompileError Reference := do
  let name ← b.requireField field
  let id := (b.fieldId? field).getD ""
  return ⟨(p.declaredName? id).getD name, id⟩

end Project

end WordBlocks
