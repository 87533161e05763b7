import WordBlocks.Error
import WordBlocks.Json.Value

/-!
Projects. Of a whole project file only the second target matters, the one that holds the program:
its declarations and its blocks. `Project.ofJson` picks them out.
-/

namespace WordBlocks

/-- A declared variable. -/
structure VariableDecl where
  id : String
  name : String
  initial : Json

/-- A declared list. -/
structure ListDecl where
  id : String
  name : String
  items : List Json

/-- A declared broadcast message. -/
structure BroadcastDecl where
  id : String
  name : String

/-- The parts of a project file that describe the program. -/
structure Project where
  variableDecls : List VariableDecl
  listDecls : List ListDecl
  broadcastDecls : List BroadcastDecl
  /-- The blocks by their identifiers, in the order of the file. -/
  blocks : List (String × Json)
  extensions : List String

namespace Project

/-- A section of the program target. -/
def sectionOf (target : Json) (key : String) : Except CompileError (List (String × Json)) :=
  match (target.field? key).bind Json.object? with
  | some fields => .ok fields
  | none => .error (.malformed (.noSection key))

/-- The name and the payload of a declaration, which is written as an array of the two. -/
def nameAndPayload (kind id : String) (declaration : Json) :
    Except CompileError (String × Json) :=
  match declaration.array? with
  | none => .error (.malformed (.declarationNotArray kind id))
  | some items =>
    match items.head?.bind Json.string? with
    | none => .error (.malformed (.declarationWithoutName kind id))
    | some name => .ok (name, items[1]?.getD .null)

def variableOf (entry : String × Json) : Except CompileError VariableDecl := do
  let (name, initial) ← nameAndPayload "variable" entry.1 entry.2
  return ⟨entry.1, name, initial⟩

def listOf (entry : String × Json) : Except CompileError ListDecl := do
  let (name, items) ← nameAndPayload "list" entry.1 entry.2
  return ⟨entry.1, name, items.array?.getD []⟩

def broadcastOf (entry : String × Json) : Except CompileError BroadcastDecl :=
  match entry.2.string? with
  | some name => .ok ⟨entry.1, name⟩
  | none => .error (.malformed (.declarationWithoutName "broadcast" entry.1))

/-- The second target of a project file. -/
def programTarget (file : Json) : Except CompileError Json :=
  match (file.field? "targets").bind Json.array? with
  | none => .error (.malformed .noTargets)
  | some targets =>
    match targets[1]? with
    | some target => .ok target
    | none => .error (.malformed (.tooFewTargets targets.length))

/-- The extensions in use. The file lists them beside the targets or inside the program target. -/
def extensionsOf (file target : Json) : Except CompileError (List String) :=
  match ((file.field? "extensions").or (target.field? "extensions")).bind Json.array? with
  | some items => .ok (items.filterMap Json.string?)
  | none => .error (.malformed .noExtensions)

/-- Picks the program out of a project file. -/
def ofJson (file : Json) : Except CompileError Project := do
  let target ← programTarget file
  let variableDecls ← (← sectionOf target "variables").mapM variableOf
  let listDecls ← (← sectionOf target "lists").mapM listOf
  let broadcastDecls ← (← sectionOf target "broadcasts").mapM broadcastOf
  let blocks ← sectionOf target "blocks"
  let extensions ← extensionsOf file target
  return ⟨variableDecls, listDecls, broadcastDecls, blocks, extensions⟩

/-- The variable declared under an identifier. -/
def variableDecl? (p : Project) (id : String) : Option VariableDecl :=
  p.variableDecls.find? (·.id == id)

/-- The list declared under an identifier. -/
def listDecl? (p : Project) (id : String) : Option ListDecl :=
  p.listDecls.find? (·.id == id)

/-- The name that the project declares for an identifier. -/
def declaredName? (p : Project) (id : String) : Option String :=
  ((p.variableDecl? id).map (·.name)).or ((p.listDecl? id).map (·.name))

end Project

end WordBlocks
