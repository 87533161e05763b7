import WordBlocks.Program.Node

/-!
A program as a Graphviz graph. Every statement and expression is a vertex, numbered in the order of
the visit. Each vertex hangs below its owner; the statements of a stack all have the owner of the
stack, so that a stack is drawn flat.
-/

namespace WordBlocks.Diagram

/-- A vertex of the graph with its caption and the number of its owner. -/
structure Vertex where
  id : Nat
  label : String
  parent : Option Nat
deriving DecidableEq, Repr

/-- The nodes still to be visited, the next one first, each with its owner. -/
abbrev Pending := List (Node × Option Nat)

/-- The number of vertices still to come. -/
def Pending.size (pending : Pending) : Nat :=
  pending.foldr (·.1.size + ·) 0

/-- What is still to be visited after a node: its children, then what follows it in its stack, then
the rest. -/
def Pending.advance (id : Nat) (n : Node) (parent : Option Nat) (pending : Pending) : Pending :=
  n.children.map (·, some id) ++ n.next.map (·, parent) ++ pending

theorem Pending.size_advance (id : Nat) (n : Node) (parent : Option Nat) (pending : Pending) :
    (Pending.advance id n parent pending).size + 1 = Pending.size ((n, parent) :: pending) := by
  simpa [Pending.advance, Pending.size, List.foldr_map] using n.size_eq (Pending.size pending)

/-- Visits the pending nodes and numbers them from `id` on. -/
def visit (id : Nat) (pending : Pending) : List Vertex :=
  match pending with
  | [] => []
  | (n, parent) :: rest =>
    ⟨id, n.label, parent⟩ :: visit (id + 1) (Pending.advance id n parent rest)
termination_by pending.size
decreasing_by
  have := Pending.size_advance id n parent rest
  omega

/-- The vertices of a program. -/
def vertices (forest : Forest) : List Vertex :=
  visit 0 ((forest.flatMap Node.ofStack).map (·, none))

/-- Puts a backslash before quotes and backslashes. -/
def escapeChar (c : Char) : List Char :=
  if c = '\\' ∨ c = '"' then ['\\', c] else [c]

/-- A caption as it stands between quotes. -/
def escape (label : String) : String :=
  String.ofList (label.toList.flatMap escapeChar)

/-- The line that declares a vertex. -/
def Vertex.line (v : Vertex) : String :=
  toString v.id ++ " [label=\"" ++ escape v.label ++ "\"]"

/-- The line for the edge from the owner, if there is one. -/
def Vertex.edge? (v : Vertex) : Option String :=
  v.parent.map fun p => toString p ++ " -> " ++ toString v.id

/-- The Graphviz text of a program: the vertices, then the edges. -/
def render (forest : Forest) : String :=
  let vs := vertices forest
  "digraph \x7brankdir=\"TB\"\n" ++ "\n".intercalate (vs.map Vertex.line) ++ "\n" ++
    "\n".intercalate (vs.filterMap Vertex.edge?) ++ "\x7d"

end WordBlocks.Diagram
