import WordBlocks.Program.Stmt

/-!
Programs as trees. A node is an expression, or a statement together with the statements that follow
it in its stack. The size of a node counts the expressions and statements in it, and the nodes
below and after a node are smaller than the node (`Node.size_eq`).
-/

namespace WordBlocks

/-- An expression, or a non-empty stack seen from its first statement. -/
inductive Node where
  | expr (e : Expr)
  | stack (first : Stmt) (rest : Stack)

namespace Node

/-- The node of a stack, if it has a statement. -/
def ofStack : Stack → List Node
  | [] => []
  | first :: rest => [stack first rest]

def label : Node → String
  | expr e => e.label
  | stack first _ => first.label

/-- The nodes that a node owns, in order: operands first, then bodies. What follows a statement in
its stack is not among them. -/
def children : Node → List Node
  | expr e => e.children.map expr
  | stack first _ => first.operands.map expr ++ first.bodies.flatMap ofStack

/-- What follows a statement in its stack. -/
def next : Node → List Node
  | expr _ => []
  | stack _ rest => ofStack rest

end Node

/-- The number of expressions in an expression. -/
def Expr.size : Expr → Nat
  | number _ | text _ | ports _ | ref _ | reading _ | listLength _ => 1
  | unary _ e | device _ e | keyPressed e | listQuery _ _ e => e.size + 1
  | binary _ a b | deviceTest _ a b => a.size + b.size + 1
  | between v a b => v.size + a.size + b.size + 1

mutual

/-- The number of statements and expressions in a statement. -/
def Stmt.size : Stmt → Nat
  | .hat _ _ => 1
  | .action a => a.operands.foldr (·.size + ·) 1
  | .repeatTimes e body => e.size + Stack.size body + 1
  | .forever body => Stack.size body + 1
  | .repeatUntil e body => e.size + Stack.size body + 1
  | .ifThen e body => e.size + Stack.size body + 1
  | .ifElse e body orElse => e.size + (Stack.size body + Stack.size orElse) + 1

/-- The number of statements and expressions in a stack. -/
def Stack.size : List Stmt → Nat
  | [] => 0
  | first :: rest => first.size + Stack.size rest

end

namespace Node

/-- The number of statements and expressions in a node. -/
def size : Node → Nat
  | expr e => e.size
  | stack first rest => first.size + Stack.size rest

@[simp] theorem size_expr (e : Expr) : (expr e).size = e.size :=
  rfl

@[simp] theorem size_stack (first : Stmt) (rest : Stack) :
    (stack first rest).size = first.size + Stack.size rest :=
  rfl

theorem foldr_size_ofStack (s : Stack) (k : Nat) :
    (ofStack s).foldr (·.size + ·) k = Stack.size s + k := by
  cases s with
  | nil => simp [ofStack, Stack.size]
  | cons first rest => simp [ofStack, Stack.size]

theorem foldr_size_operands (es : List Expr) (m k : Nat) :
    es.foldr (·.size + ·) (m + k) = es.foldr (·.size + ·) m + k :=
  List.foldr_hom (· + k) fun e n => (Nat.add_assoc e.size n k).symm

theorem foldr_size_children (first : Stmt) (rest : Stack) (k : Nat) :
    (stack first rest).children.foldr (·.size + ·) k + 1 = first.size + k := by
  cases first with
  | action a =>
      have hone := foldr_size_operands a.operands k 1
      have hk := foldr_size_operands a.operands 1 k
      rw [Nat.add_comm 1 k, hone] at hk
      simpa [children, Stmt.operands, Stmt.bodies, Stmt.size, List.foldr_map] using hk
  | hat _ _ => simp [children, Stmt.operands, Stmt.bodies, Stmt.size, Nat.add_comm]
  | _ =>
      simp [children, Stmt.operands, Stmt.bodies, Stmt.size, foldr_size_ofStack]
      omega

theorem size_eq (n : Node) (k : Nat) :
    (n.children ++ n.next).foldr (·.size + ·) k + 1 = n.size + k := by
  cases n with
  | expr e =>
      cases e <;> simp [children, next, Expr.children, Expr.size] <;> omega
  | stack first rest =>
      rw [List.foldr_append, foldr_size_children, next, foldr_size_ofStack, size_stack,
        Nat.add_assoc]

end Node

end WordBlocks
