import WordBlocks.Proofs.NumberText
import WordBlocks.Proofs.Preorder
import WordBlocks.Proofs.Scanner
import WordBlocks.Script.Identifier

/-!
Diagrams read back. `Dot.read` reads a directed graph whose vertices are numbers with captions:
names are words or stand in quotes, where a backslash makes a quote or a backslash part of the name.
The graph in a rendered diagram has just the vertices and edges of the recursive traversal of the
program (`read_render`).
-/

namespace WordBlocks.Dot

/-- A token of a graph description. Of a name it is known whether it was quoted. -/
inductive Token where
  | name (text : String) (quoted : Bool)
  | openBrace
  | closeBrace
  | openBracket
  | closeBracket
  | equals
  | arrow
  | semicolon
  | comma
deriving DecidableEq, Repr

/-- What a scanner of graph descriptions is in the middle of. -/
inductive Mode where
  | between
  | word (cs : List Char)
  | quoted (cs : List Char)
  | escaped (cs : List Char)
  | dash
deriving DecidableEq, Repr

def isBlank (c : Char) : Bool :=
  c == ' ' || c == '\n' || c == '\t' || c == '\r'

def punctuation? (c : Char) : Option Token :=
  if c = '\x7b' then some .openBrace
  else if c = '\x7d' then some .closeBrace
  else if c = '[' then some .openBracket
  else if c = ']' then some .closeBracket
  else if c = '=' then some .equals
  else if c = ';' then some .semicolon
  else if c = ',' then some .comma
  else none

/-- What a character starts outside of any name. -/
def start (c : Char) : Option (List Token × Mode) :=
  if Script.isNameChar c then some ([], .word [c])
  else if isBlank c then some ([], .between)
  else if c = '"' then some ([], .quoted [])
  else if c = '-' then some ([], .dash)
  else (punctuation? c).map fun t => ([t], .between)

def step : Mode → Char → Option (List Token × Mode)
  | .between, c => start c
  | .word cs, c =>
    if Script.isNameChar c then some ([], .word (cs ++ [c]))
    else (start c).map fun (ts, mode) => (.name (String.ofList cs) false :: ts, mode)
  | .quoted cs, c =>
    if c = '"' then some ([.name (String.ofList cs) true], .between)
    else if c = '\\' then some ([], .escaped cs)
    else some ([], .quoted (cs ++ [c]))
  | .escaped cs, c =>
    if c = '"' ∨ c = '\\' then some ([], .quoted (cs ++ [c]))
    else some ([], .quoted (cs ++ ['\\', c]))
  | .dash, c => if c = '>' then some ([.arrow], .between) else none

def scanner : Scanner Mode Token where
  start := .between
  step := step
  finish
    | .between => some []
    | .word cs => some [.name (String.ofList cs) false]
    | .quoted _ | .escaped _ | .dash => none

/-- A directed graph with captions, its vertices and edges in the order of the description. -/
structure Graph where
  nodes : List (Nat × String)
  edges : List (Nat × Nat)
deriving DecidableEq, Repr

/-- The number that a name consists of. -/
def number? (name : String) : Option Nat :=
  let ds := name.toList
  if ds.isEmpty || !ds.all Char.isDigit then none else some (digitsValue ds)

mutual

/-- Reads statements up to the closing brace: settings of the graph, edges and vertices. -/
def statements : List Token → Option Graph
  | [.closeBrace] => some ⟨[], []⟩
  | .semicolon :: rest => statements rest
  | .name _ _ :: .equals :: .name _ _ :: rest => statements rest
  | .name a _ :: .arrow :: .name b _ :: rest => do
    let source ← number? a
    let target ← number? b
    let g ← statements rest
    return { g with edges := (source, target) :: g.edges }
  | .name a _ :: .openBracket :: rest => do
    let id ← number? a
    attributes id none rest
  | _ => none

/-- Reads the attributes of a vertex and what follows them. The last caption counts. -/
def attributes (id : Nat) (label : Option String) : List Token → Option Graph
  | .closeBracket :: rest => do
    let caption ← label
    let g ← statements rest
    return { g with nodes := (id, caption) :: g.nodes }
  | .comma :: rest | .semicolon :: rest => attributes id label rest
  | .name key _ :: .equals :: .name value _ :: rest =>
    attributes id (if key = "label" then some value else label) rest
  | _ => none

end

/-- Reads the description of a directed graph. -/
def read (text : String) : Option Graph :=
  match scanner.tokens? text with
  | some (.name "digraph" false :: .openBrace :: rest) => statements rest
  | _ => none

open Diagram (Vertex)
open Scanner (Scans)

theorem scans_escape (seen cs : List Char) :
    scanner.Scans (.quoted seen) (cs.flatMap Diagram.escapeChar) [] (.quoted (seen ++ cs)) := by
  refine Scans.flatMap (fun seen c _ => ?_) seen
  unfold Diagram.escapeChar
  split
  case isTrue h =>
    have hslash : scanner.step (.quoted seen) '\\' = some ([], .escaped seen) := rfl
    have hescaped : scanner.step (.escaped seen) c = some ([], .quoted (seen ++ [c])) :=
      if_pos h.symm
    exact .cons hslash (.single hescaped)
  case isFalse h =>
    obtain ⟨hslash, hquote⟩ := not_or.mp h
    apply Scans.single
    change step (.quoted seen) c = _
    rw [step, if_neg hquote, if_neg hslash]

theorem scans_word {cs : List Char} (h : ∀ c ∈ cs, Script.isNameChar c = true)
    (seen : List Char) : scanner.Scans (.word seen) cs [] (.word (seen ++ cs)) :=
  .chars (fun _ c hc => if_pos (h c hc)) seen

theorem isNameChar_of_isDigit {c : Char} (h : c.isDigit = true) : Script.isNameChar c = true := by
  simp [Script.isNameChar, Char.isAlphanum, h]

theorem scans_number (n : Nat) :
    scanner.Scans .between (toString n).toList [] (.word (toString n).toList) := by
  have hchars : ∀ c ∈ (toString n).toList, Script.isNameChar c = true := fun c hc =>
    isNameChar_of_isDigit (isDigit_of_mem_toString hc)
  cases hdigits : (toString n).toList with
  | nil =>
      rw [toList_toString] at hdigits
      exact absurd hdigits (decimalDigits_ne_nil n)
  | cons c cs =>
      rw [hdigits, List.forall_mem_cons] at hchars
      have hc : scanner.step .between c = some ([], .word [c]) := if_pos hchars.1
      exact .cons hc (scans_word hchars.2 [c])

def nodeTokens (v : Vertex) : List Token :=
  [.name (toString v.id) false, .openBracket, .name "label" false, .equals, .name v.label true,
    .closeBracket]

def edgeTokens (edge : Nat × Nat) : List Token :=
  [.name (toString edge.1) false, .arrow, .name (toString edge.2) false]

theorem scans_line (v : Vertex) :
    scanner.Scans .between v.line.toList (nodeTokens v) .between := by
  have hopening : scanner.Scans (.word (toString v.id).toList) " [label=\"".toList
      [.name (String.ofList (toString v.id).toList) false, .openBracket, .name "label" false,
        .equals] (.quoted []) := by
    rfl
  have hclosing : scanner.Scans (.quoted v.label.toList) "\"]".toList
      [.name (String.ofList v.label.toList) true, .closeBracket] .between := by
    rfl
  rw [String.ofList_toList] at hopening hclosing
  simp only [Vertex.line, Diagram.escape, String.toList_append, String.toList_ofList]
  exact (((scans_number v.id).append hopening).append (scans_escape [] _)).append hclosing

def edgeLine (edge : Nat × Nat) : String :=
  toString edge.1 ++ " -> " ++ toString edge.2

theorem scans_edgeLine (edge : Nat × Nat) :
    scanner.Scans .between (edgeLine edge).toList [.name (toString edge.1) false, .arrow]
      (.word (toString edge.2).toList) := by
  have harrow : scanner.Scans (.word (toString edge.1).toList) " -> ".toList
      [.name (String.ofList (toString edge.1).toList) false, .arrow] .between := by
    rfl
  rw [String.ofList_toList] at harrow
  simp only [edgeLine, String.toList_append]
  exact ((scans_number edge.1).append harrow).append (scans_number edge.2)

theorem scans_lines (vs : List Vertex) :
    scanner.Scans .between ("\n".intercalate (vs.map Vertex.line)).toList (vs.flatMap nodeTokens)
      .between := by
  induction vs with
  | nil => exact .nil _
  | cons v vs ih =>
      cases vs with
      | nil => simpa using scans_line v
      | cons w vs =>
          have hbreak : scanner.Scans .between "\n".toList [] .between := rfl
          rw [List.map_cons, List.map_cons, String.intercalate_cons_cons, String.toList_append,
            String.toList_append]
          exact ((scans_line v).append hbreak).append ih

theorem scans_edges (edges : List (Nat × Nat)) :
    scanner.Scans .between ("\n".intercalate (edges.map edgeLine) ++ "\x7d").toList
      (edges.flatMap edgeTokens ++ [.closeBrace]) .between := by
  induction edges with
  | nil => rfl
  | cons edge edges ih =>
      -- The last number of a line is still open there: the brace or the line break completes it.
      have hbrace : scanner.Scans (.word (toString edge.2).toList) "\x7d".toList
          [.name (String.ofList (toString edge.2).toList) false, .closeBrace] .between := by
        rfl
      have hbreak : scanner.Scans (.word (toString edge.2).toList) "\n".toList
          [.name (String.ofList (toString edge.2).toList) false] .between := by
        rfl
      rw [String.ofList_toList] at hbrace hbreak
      cases edges with
      | nil =>
          rw [List.map_cons, List.map_nil, String.intercalate_singleton, String.toList_append]
          exact (scans_edgeLine edge).append hbrace
      | cons edge' edges =>
          rw [List.map_cons, List.map_cons, String.intercalate_cons_cons, String.append_assoc,
            String.toList_append, String.toList_append]
          exact ((scans_edgeLine edge).append hbreak).append ih

@[simp] theorem number?_repr (n : Nat) : number? n.repr = some n := by
  have hdigits : n.repr.toList = decimalDigits n := Nat.toList_repr
  have hall : (decimalDigits n).all Char.isDigit = true :=
    List.all_eq_true.mpr fun c hc => isDigit_of_mem_decimalDigits hc
  simp [number?, hdigits, hall, decimalDigits_ne_nil, digitsValue_decimalDigits]

theorem statements_edges (edges : List (Nat × Nat)) :
    statements (edges.flatMap edgeTokens ++ [.closeBrace]) = some ⟨[], edges⟩ := by
  induction edges with
  | nil => rfl
  | cons edge edges ih =>
      rw [List.flatMap_cons, List.append_assoc, edgeTokens]
      simp [statements, ih]

theorem statements_nodes {rest : List Token} {edges : List (Nat × Nat)}
    (hrest : statements rest = some ⟨[], edges⟩) (vs : List Vertex) :
    statements (vs.flatMap nodeTokens ++ rest) = some ⟨vs.map fun v => (v.id, v.label), edges⟩ := by
  induction vs with
  | nil => exact hrest
  | cons v vs ih =>
      rw [List.flatMap_cons, List.append_assoc, nodeTokens]
      simp [statements, attributes, ih]

def graphOf (vs : List Vertex) : Graph :=
  ⟨vs.map fun v => (v.id, v.label), vs.filterMap fun v => v.parent.map (·, v.id)⟩

theorem edgeLines_eq (vs : List Vertex) :
    vs.filterMap Vertex.edge? = (graphOf vs).edges.map edgeLine := by
  rw [graphOf, List.map_filterMap]
  refine List.filterMap_congr fun v _ => ?_
  rw [Vertex.edge?, Option.map_map]
  rfl

theorem tokens?_render (forest : Forest) :
    scanner.tokens? (Diagram.render forest) = some
      ([.name "digraph" false, .openBrace, .name "rankdir" false, .equals, .name "TB" true] ++
        forest.preorder.flatMap nodeTokens ++
        ((graphOf forest.preorder).edges.flatMap edgeTokens ++ [.closeBrace])) := by
  have hheader : scanner.Scans .between "digraph \x7brankdir=\"TB\"\n".toList
      [.name "digraph" false, .openBrace, .name "rankdir" false, .equals, .name "TB" true]
      .between := by
    rfl
  have hbreak : scanner.Scans .between "\n".toList [] .between := rfl
  have htext := ((hheader.append (scans_lines forest.preorder)).append hbreak).append
    (scans_edges (graphOf forest.preorder).edges)
  have hrender : Diagram.render forest = "digraph \x7brankdir=\"TB\"\n" ++
      "\n".intercalate (forest.preorder.map Vertex.line) ++ "\n" ++
      ("\n".intercalate ((graphOf forest.preorder).edges.map edgeLine) ++ "\x7d") := by
    unfold Diagram.render
    dsimp only
    rw [Diagram.vertices_eq, edgeLines_eq]
    exact String.append_assoc
  rw [← String.toList_append, ← String.toList_append, ← String.toList_append, ← hrender,
    List.append_nil] at htext
  rw [Scanner.tokens?_of_scans htext rfl, List.append_nil]

theorem read_render_eq (forest : Forest) :
    read (Diagram.render forest) = some (graphOf forest.preorder) := by
  have hedges := statements_edges (graphOf forest.preorder).edges
  have hnodes := statements_nodes hedges forest.preorder
  simp only [read, tokens?_render, List.cons_append, List.nil_append, statements]
  exact hnodes

/-- A rendered diagram reads back as the recursive traversal of its program. Its vertices are
numbered in order, one for each statement and expression of the program. The edges lead from owners
to what they own, which comes later, and lead to every vertex but those of the stacks themselves. -/
theorem read_render (forest : Forest) :
    ∃ g, read (Diagram.render forest) = some g ∧
      g.nodes = forest.preorder.map (fun v => (v.id, v.label)) ∧
      g.edges = forest.preorder.filterMap (fun v => v.parent.map (·, v.id)) ∧
      g.nodes.map (·.1) = List.range forest.count ∧
      g.edges.map (·.2) = (List.range forest.count).filter (· ∉ forest.chain 0) ∧
      ∀ edge ∈ g.edges, edge.1 < edge.2 := by
  refine ⟨graphOf forest.preorder, read_render_eq forest, rfl, rfl, ?_, ?_, ?_⟩
  · rw [graphOf, List.map_map]
    exact Diagram.ids_preorder forest
  · -- An edge for each vertex with an owner.
    rw [← Diagram.owned_preorder, graphOf, List.map_filterMap, ← List.filterMap_eq_filter,
      List.map_filterMap]
    refine List.filterMap_congr fun v _ => ?_
    cases hparent : v.parent <;> simp [hparent, Option.guard]
  · intro edge hedge
    obtain ⟨v, hv, hedge⟩ := List.mem_filterMap.mp hedge
    obtain ⟨owner, howner, rfl⟩ := Option.map_eq_some_iff.mp hedge
    exact Diagram.parent_lt_of_mem_preorder hv howner

end WordBlocks.Dot
