import WordBlocks.Program.Node

/-!
The nodes of a program in the order of a script generator: a node comes before its operands and
bodies, and these come before what follows the node in its stack. The operand of a key press is left
out, because no script is ever generated from it.
-/

namespace WordBlocks

namespace Expr

/-- The operands that a script is generated from. -/
def visible : Expr → List Expr
  | keyPressed _ => []
  | e => e.children

/-- An expression and the expressions below it, in the order of the visit. -/
def visited : Expr → List Expr
  | e@(number _) | e@(text _) | e@(ports _) | e@(ref _) | e@(reading _) | e@(listLength _)
  | e@(keyPressed _) => [e]
  | e@(unary _ a) | e@(device _ a) | e@(listQuery _ _ a) => e :: a.visited
  | e@(binary _ a b) | e@(deviceTest _ a b) => e :: (a.visited ++ b.visited)
  | e@(between v a b) => e :: (v.visited ++ (a.visited ++ b.visited))

theorem visited_eq (e : Expr) : e.visited = e :: e.visible.flatMap visited := by
  cases e <;> simp [visited, visible, children]

theorem mem_visited_of_visible {e operand x : Expr} (hoperand : operand ∈ e.visible)
    (hx : x ∈ operand.visited) : x ∈ e.visited := by
  rw [visited_eq]
  exact List.mem_cons_of_mem _ (List.mem_flatMap.mpr ⟨operand, hoperand, hx⟩)

theorem mem_visited_self (e : Expr) : e ∈ e.visited := by
  rw [visited_eq]
  exact List.mem_cons_self

def letters : Expr → List Char
  | ports cs => cs
  | _ => []

/-- Expressions whose ports, at every depth, are of some kind. -/
def PortsIn (P : Char → Prop) (e : Expr) : Prop :=
  ∀ x ∈ e.visited, ∀ c ∈ x.letters, P c

namespace PortsIn

variable {P Q : Char → Prop} {e o : Expr}

theorem own (h : e.PortsIn P) : ∀ c ∈ e.letters, P c :=
  h e e.mem_visited_self

theorem operand (h : e.PortsIn P) (ho : o ∈ e.visible) : o.PortsIn P :=
  fun x hx => h x (mem_visited_of_visible ho hx)

theorem imp (h : e.PortsIn P) (himp : ∀ c, P c → Q c) : e.PortsIn Q :=
  fun x hx c hc => himp c (h x hx c hc)

theorem of_visible (hown : ∀ c ∈ e.letters, P c) (h : ∀ o ∈ e.visible, o.PortsIn P) :
    e.PortsIn P := by
  intro x hx
  rw [visited_eq] at hx
  rcases List.mem_cons.mp hx with rfl | hx
  · exact hown
  · obtain ⟨o, ho, hx⟩ := List.mem_flatMap.mp hx
    exact h o ho x hx

end PortsIn

end Expr

namespace Node

/-- The nodes below a node that a script is generated from. -/
def visible : Node → List Node
  | expr e => e.visible.map expr
  | n => n.children

theorem visible_subset (n : Node) : ∀ m ∈ n.visible, m ∈ n.children := by
  intro m h
  cases n with
  | expr e => cases e <;> simp_all [visible, children, Expr.visible]
  | stack first rest => exact h

theorem size_le_foldr {ns : List Node} {m : Node} (h : m ∈ ns) :
    m.size ≤ ns.foldr (·.size + ·) 0 := by
  induction ns with
  | nil => cases h
  | cons n ns ih =>
      rw [List.foldr_cons]
      rcases List.mem_cons.mp h with rfl | h
      · exact Nat.le_add_right _ _
      · exact Nat.le_add_left_of_le (ih h)

theorem size_lt_of_mem {n m : Node} (h : m ∈ n.children ++ n.next) : m.size < n.size := by
  have hle := size_le_foldr h
  have heq := n.size_eq 0
  omega

theorem size_lt_of_mem_visible {n m : Node} (h : m ∈ n.visible) : m.size < n.size :=
  size_lt_of_mem (List.mem_append_left _ (visible_subset n m h))

theorem size_lt_of_mem_next {n m : Node} (h : m ∈ n.next) : m.size < n.size :=
  size_lt_of_mem (List.mem_append_right _ h)

/-- A node, the nodes below it and the nodes after it, in the order of the visit. -/
def visited (n : Node) : List Node :=
  n :: (n.visible.attach.flatMap (fun m => visited m.1) ++
    n.next.attach.flatMap (fun m => visited m.1))
termination_by n.size
decreasing_by
  · exact size_lt_of_mem_visible m.2
  · exact size_lt_of_mem_next m.2

theorem visited_eq (n : Node) :
    n.visited = n :: (n.visible.flatMap visited ++ n.next.flatMap visited) := by
  rw [visited]
  simp [List.flatMap_subtype]

theorem visited_expr (e : Expr) : (expr e).visited = e.visited.map expr := by
  induction e with
  | number _ | text _ | ports _ | ref _ | reading _ | listLength _ | keyPressed _ =>
      simp [visited_eq, visible, next, Expr.visited, Expr.visible, Expr.children]
  | unary _ a ih | device _ a ih | listQuery _ _ a ih =>
      rw [visited_eq]
      simp [visible, next, Expr.visited, Expr.visible, Expr.children, ih]
  | binary _ a b iha ihb | deviceTest _ a b iha ihb =>
      rw [visited_eq]
      simp [visible, next, Expr.visited, Expr.visible, Expr.children, iha, ihb]
  | between v a b ihv iha ihb =>
      rw [visited_eq]
      simp [visible, next, Expr.visited, Expr.visible, Expr.children, ihv, iha, ihb]

theorem visited_subset (n : Node) {m : Node} (h : m ∈ n.visited) : m.visited ⊆ n.visited := by
  rw [visited_eq, ← List.flatMap_append] at h
  rcases List.mem_cons.mp h with rfl | h
  · exact List.Subset.refl _
  · obtain ⟨k, hk, hm⟩ := List.mem_flatMap.mp h
    have hsize : k.size < n.size := by
      rcases List.mem_append.mp hk with hk | hk
      · exact size_lt_of_mem_visible hk
      · exact size_lt_of_mem_next hk
    intro l hl
    rw [n.visited_eq, ← List.flatMap_append]
    exact List.mem_cons_of_mem _ (List.mem_flatMap.mpr ⟨k, hk, visited_subset k hm hl⟩)
termination_by n.size

end Node

theorem Expr.visited_subset {e x : Expr} (hx : x ∈ e.visited) : x.visited ⊆ e.visited := by
  have hmem : ∀ {a b : Expr}, .expr a ∈ (Node.expr b).visited ↔ a ∈ b.visited := by
    simp [Node.visited_expr]
  intro y hy
  exact hmem.mp ((Node.expr e).visited_subset (hmem.mpr hx) (hmem.mpr hy))

/-- The nodes of a stack, in the order of the visit. -/
def Stack.visited (s : Stack) : List Node :=
  (Node.ofStack s).flatMap Node.visited

@[simp] theorem Stack.visited_nil : Stack.visited [] = [] := rfl

/-- A statement comes first, then its operands, its bodies and what follows it. -/
theorem Stack.visited_cons (first : Stmt) (rest : Stack) :
    Stack.visited (first :: rest) = .stack first rest ::
      ((first.operands.flatMap Expr.visited).map .expr ++ first.bodies.flatMap Stack.visited ++
        Stack.visited rest) := by
  have hbodies : first.bodies.flatMap Stack.visited =
      (first.bodies.flatMap Node.ofStack).flatMap Node.visited := List.flatMap_assoc.symm
  have hoperands : (first.operands.flatMap Expr.visited).map Node.expr =
      (first.operands.map Node.expr).flatMap Node.visited := by
    simp only [List.map_flatMap, List.flatMap_map, Node.visited_expr]
  rw [hbodies, hoperands, ← List.flatMap_append]
  simp only [Stack.visited, Node.ofStack, List.flatMap_cons, List.flatMap_nil, List.append_nil]
  rw [Node.visited_eq]
  rfl

theorem Stack.forall_mem_visited_cons {P : Node → Prop} (hexpr : ∀ e, P (.expr e)) (first : Stmt)
    (rest : Stack) :
    (∀ n ∈ Stack.visited (first :: rest), P n) ↔
      P (.stack first rest) ∧ (∀ body ∈ first.bodies, ∀ n ∈ Stack.visited body, P n) ∧
        ∀ n ∈ Stack.visited rest, P n := by
  have hexprs : ∀ n ∈ (first.operands.flatMap Expr.visited).map Node.expr, P n := by
    intro n hn
    obtain ⟨e, _, rfl⟩ := List.mem_map.mp hn
    exact hexpr e
  simp only [Stack.visited_cons, List.forall_mem_cons, List.forall_mem_append,
    List.forall_mem_flatMap, and_assoc]
  exact and_congr_right fun _ => ⟨And.right, fun h => ⟨hexprs, h⟩⟩

mutual

theorem Stmt.exists_operand_of_mem_visited (s : Stmt) {e : Expr} :
    ∀ body ∈ s.bodies, .expr e ∈ Stack.visited body → ∃ first rest,
      .stack first rest ∈ Stack.visited body ∧ ∃ o ∈ first.operands, e ∈ o.visited := by
  cases s with
  | hat x y | action a => simp [Stmt.bodies]
  | forever body | repeatTimes _ body | repeatUntil _ body | ifThen _ body =>
      exact List.forall_mem_singleton.mpr (Stack.exists_operand_of_mem_visited body)
  | ifElse _ body orElse =>
      exact List.forall_mem_cons.mpr ⟨Stack.exists_operand_of_mem_visited body,
        List.forall_mem_singleton.mpr (Stack.exists_operand_of_mem_visited orElse)⟩

theorem Stack.exists_operand_of_mem_visited (s : List Stmt) {e : Expr}
    (h : .expr e ∈ Stack.visited s) :
    ∃ first rest, .stack first rest ∈ Stack.visited s ∧ ∃ o ∈ first.operands, e ∈ o.visited := by
  cases s with
  | nil => cases h
  | cons first rest =>
      rw [Stack.visited_cons] at h ⊢
      simp only [List.mem_cons, reduceCtorEq, false_or, List.mem_append] at h
      rcases h with (h | h) | h
      · obtain ⟨d, hd, heq⟩ := List.mem_map.mp h
        obtain rfl := Node.expr.inj heq
        exact ⟨first, rest, List.mem_cons_self, List.mem_flatMap.mp hd⟩
      · obtain ⟨body, hbody, h⟩ := List.mem_flatMap.mp h
        obtain ⟨f, r, hmem, ho⟩ := Stmt.exists_operand_of_mem_visited first body hbody h
        refine ⟨f, r, List.mem_cons_of_mem _ (List.mem_append_left _ ?_), ho⟩
        exact List.mem_append_right _ (List.mem_flatMap.mpr ⟨body, hbody, hmem⟩)
      · obtain ⟨f, r, hmem, ho⟩ := Stack.exists_operand_of_mem_visited rest h
        exact ⟨f, r, List.mem_cons_of_mem _ (List.mem_append_right _ hmem), ho⟩

end

/-- The nodes of a program that a script is generated from: those below a hat. -/
def Forest.visited (forest : Forest) : List Node :=
  forest.flatMap fun
    | .hat _ _ :: body => Stack.visited body
    | _ => []

theorem Forest.visited_cons_hat (x y : Option Binary64) (body : Stack) (rest : Forest) :
    Forest.visited ((.hat x y :: body) :: rest) = Stack.visited body ++ Forest.visited rest :=
  List.flatMap_cons

theorem Forest.visited_cons_loose {root : Stack} (rest : Forest)
    (h : ∀ x y body, root ≠ .hat x y :: body) :
    Forest.visited (root :: rest) = Forest.visited rest := by
  unfold Forest.visited
  rw [List.flatMap_cons]
  split
  · exact absurd rfl (h _ _ _)
  · rfl

theorem Forest.expr_mem_visited {forest : Forest} {s : Stmt} {rest : Stack} {o e : Expr}
    (h : .stack s rest ∈ Forest.visited forest) (ho : o ∈ s.operands) (he : e ∈ o.visited) :
    .expr e ∈ Forest.visited forest := by
  have hbelow : .expr e ∈ (Node.stack s rest).visited := by
    have hmem : .expr e ∈ Stack.visited (s :: rest) := by
      rw [Stack.visited_cons]
      refine List.mem_cons_of_mem _ (List.mem_append_left _ (List.mem_append_left _ ?_))
      exact List.mem_map_of_mem (List.mem_flatMap.mpr ⟨o, ho, he⟩)
    simpa [Stack.visited, Node.ofStack] using hmem
  obtain ⟨root, hroot, h⟩ := List.mem_flatMap.mp h
  refine List.mem_flatMap.mpr ⟨root, hroot, ?_⟩
  split at h
  · obtain ⟨n, hn, h⟩ := List.mem_flatMap.mp h
    exact List.mem_flatMap.mpr ⟨n, hn, n.visited_subset h hbelow⟩
  · cases h

/-- Programs whose ports, in all that a script is generated from, are of some kind. -/
def Forest.PortsIn (P : Char → Prop) (forest : Forest) : Prop :=
  ∀ e, .expr e ∈ Forest.visited forest → ∀ c ∈ e.letters, P c

theorem Forest.PortsIn.operand {P : Char → Prop} {forest : Forest} {s : Stmt} {rest : Stack}
    {o : Expr} (h : Forest.PortsIn P forest) (hs : .stack s rest ∈ Forest.visited forest)
    (ho : o ∈ s.operands) : o.PortsIn P :=
  fun x hx => h x (expr_mem_visited hs ho hx)

theorem Forest.exists_operand_of_mem_visited {forest : Forest} {e : Expr}
    (h : .expr e ∈ Forest.visited forest) :
    ∃ first rest, .stack first rest ∈ Forest.visited forest ∧
      ∃ o ∈ first.operands, e ∈ o.visited := by
  obtain ⟨root, hroot, h⟩ := List.mem_flatMap.mp h
  split at h
  · obtain ⟨first, rest, hmem, ho⟩ := Stack.exists_operand_of_mem_visited _ h
    exact ⟨first, rest, List.mem_flatMap.mpr ⟨_, hroot, hmem⟩, ho⟩
  · cases h

end WordBlocks
