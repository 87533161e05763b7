import Mathlib.Data.List.Nodup
import WordBlocks.Diagram

/-!
The order of the vertices of a diagram. A diagram visits a program with one list of pending nodes,
and the vertices come out as in the plain recursion over the program: a node, then its children from
left to right, then what follows it in its stack (`vertices_eq`). Their number is the number of
statements and expressions of the program (`Forest.count`), which is counted through the fields of
every kind of statement and not through the children that a diagram shows. Each vertex but those of
the stacks themselves hangs below an earlier one.
-/

namespace WordBlocks

def DataAction.count : DataAction → Nat
  | set _ value | change _ value => value.size
  | append _ item => item.size
  | delete _ index => index.size
  | clear _ => 0
  | insert _ item index => item.size + index.size
  | replace _ index item => index.size + item.size

def MotorAction.count : MotorAction → Nat
  | run ports _ value _ => ports.size + value.size
  | goTo ports _ position => ports.size + position.size
  | start ports _ | stop ports => ports.size
  | setSpeed ports speed => ports.size + speed.size

def MovementAction.count : MovementAction → Nat
  | move _ value _ => value.size
  | steer steering value _ => steering.size + value.size
  | start _ | stop => 0
  | startSteering steering => steering.size
  | setSpeed speed => speed.size
  | setMotors ports => ports.size
  | setRotation distance _ => distance.size

def LightAction.count : LightAction → Nat
  | displayFor pattern duration => pattern.size + duration.size
  | display pattern => pattern.size
  | write text => text.size
  | off => 0
  | setBrightness brightness => brightness.size
  | setPixel x y brightness => x.size + y.size + brightness.size
  | setButton color => color.size
  | lightSensor port pattern => port.size + pattern.size

def SoundAction.count : SoundAction → Nat
  | play _ | start _ | stop => 0
  | beep note duration => note.size + duration.size
  | startBeep note => note.size
  | setVolume volume | changeVolume volume => volume.size

/-- The number of expressions in the fields of a statement without a body. -/
def Action.count : Action → Nat
  | data a => a.count
  | motor a => a.count
  | movement a => a.count
  | light a => a.count
  | sound a => a.count
  | wait duration => duration.size
  | waitUntil condition => condition.size
  | resetTimer | resetYaw | placeholder _ _ => 0

mutual

/-- The number of statements and expressions in a statement, itself included. -/
def Stmt.count : Stmt → Nat
  | .hat _ _ => 1
  | .action a => 1 + a.count
  | .repeatTimes times body => 1 + times.size + Stack.count body
  | .forever body => 1 + Stack.count body
  | .repeatUntil condition body => 1 + condition.size + Stack.count body
  | .ifThen condition body => 1 + condition.size + Stack.count body
  | .ifElse condition body orElse => 1 + condition.size + Stack.count body + Stack.count orElse

def Stack.count : List Stmt → Nat
  | [] => 0
  | first :: rest => first.count + Stack.count rest

end

/-- The number of statements and expressions in a program. -/
def Forest.count : Forest → Nat
  | [] => 0
  | root :: rest => Stack.count root + Forest.count rest

theorem Action.count_add (a : Action) (k : Nat) :
    a.count + k = a.operands.foldr (·.size + ·) k := by
  cases a with
  | data a =>
      cases a <;> simp [count, DataAction.count, operands, DataAction.operands, Nat.add_assoc]
  | motor a =>
      cases a <;> simp [count, MotorAction.count, operands, MotorAction.operands, Nat.add_assoc]
  | movement a =>
      cases a <;>
        simp [count, MovementAction.count, operands, MovementAction.operands, Nat.add_assoc]
  | light a =>
      cases a <;> simp [count, LightAction.count, operands, LightAction.operands, Nat.add_assoc]
  | sound a =>
      cases a <;> simp [count, SoundAction.count, operands, SoundAction.operands, Nat.add_assoc]
  | _ => simp [count, operands]

mutual

theorem Stmt.count_eq (s : Stmt) : s.count = s.size := by
  cases s with
  | hat x y => rw [Stmt.count, Stmt.size]
  | action a => rw [Stmt.count, Stmt.size, Nat.add_comm, a.count_add]
  | repeatTimes e body | repeatUntil e body | ifThen e body =>
      rw [Stmt.count, Stmt.size, Stack.count_eq body]
      omega
  | forever body =>
      rw [Stmt.count, Stmt.size, Stack.count_eq body]
      omega
  | ifElse e body orElse =>
      rw [Stmt.count, Stmt.size, Stack.count_eq body, Stack.count_eq orElse]
      omega

theorem Stack.count_eq (s : List Stmt) : Stack.count s = Stack.size s := by
  cases s with
  | nil => rw [Stack.count, Stack.size]
  | cons first rest => rw [Stack.count, Stack.size, first.count_eq, Stack.count_eq rest]

end

open Diagram (Vertex)

/-- The vertices of an expression that hangs below `owner`, numbered from `id` on: the expression,
then its operands from left to right. -/
def Expr.preorder (owner : Option Nat) (id : Nat) (e : Expr) : List Vertex :=
  ⟨id, e.label, owner⟩ ::
    match e with
    | .number _ | .text _ | .ports _ | .ref _ | .reading _ | .listLength _ => []
    | .unary _ a | .device _ a | .keyPressed a | .listQuery _ _ a => a.preorder (some id) (id + 1)
    | .binary _ a b | .deviceTest _ a b =>
      a.preorder (some id) (id + 1) ++ b.preorder (some id) (id + 1 + a.size)
    | .between v a b =>
      v.preorder (some id) (id + 1) ++ a.preorder (some id) (id + 1 + v.size) ++
        b.preorder (some id) (id + 1 + v.size + a.size)

def Expr.preorders (owner : Option Nat) (id : Nat) : List Expr → List Vertex
  | [] => []
  | e :: es => e.preorder owner id ++ preorders owner (id + e.size) es

mutual

/-- The vertices of a statement: the statement, then its operands, then its bodies. -/
def Stmt.preorder (owner : Option Nat) (id : Nat) (s : Stmt) : List Vertex :=
  ⟨id, s.label, owner⟩ ::
    match s with
    | .hat _ _ => []
    | .action a => Expr.preorders (some id) (id + 1) a.operands
    | .repeatTimes e body | .repeatUntil e body | .ifThen e body =>
      e.preorder (some id) (id + 1) ++ Stack.preorder (some id) (id + 1 + e.size) body
    | .forever body => Stack.preorder (some id) (id + 1) body
    | .ifElse e body orElse =>
      e.preorder (some id) (id + 1) ++ Stack.preorder (some id) (id + 1 + e.size) body ++
        Stack.preorder (some id) (id + 1 + e.size + Stack.count body) orElse

/-- The vertices of a stack: those of its first statement, then those of the statements that follow,
which all have one owner. -/
def Stack.preorder (owner : Option Nat) (id : Nat) : List Stmt → List Vertex
  | [] => []
  | first :: rest => first.preorder owner id ++ Stack.preorder owner (id + first.count) rest

end

def Stack.preorders (owner : Option Nat) (id : Nat) : List Stack → List Vertex
  | [] => []
  | s :: rest => Stack.preorder owner id s ++ preorders owner (id + Stack.count s) rest

/-- The vertices of a program: those of its stacks, which nothing owns. -/
def Forest.preorder (forest : Forest) : List Vertex :=
  Stack.preorders none 0 forest

theorem Expr.preorder_eq (owner : Option Nat) (id : Nat) (e : Expr) :
    e.preorder owner id = ⟨id, e.label, owner⟩ :: Expr.preorders (some id) (id + 1) e.children := by
  cases e <;> simp [Expr.preorder, Expr.preorders, Expr.children, Nat.add_assoc]

theorem Stmt.preorder_eq (owner : Option Nat) (id : Nat) (s : Stmt) :
    s.preorder owner id = ⟨id, s.label, owner⟩ ::
      (Expr.preorders (some id) (id + 1) s.operands ++
        Stack.preorders (some id) (id + 1 + s.operands.foldr (·.size + ·) 0) s.bodies) := by
  cases s <;> simp [Stmt.preorder, Expr.preorders, Stack.preorders, Stmt.operands, Stmt.bodies]

namespace Diagram

def preorderOf (owner : Option Nat) (id : Nat) : Node → List Vertex
  | .expr e => e.preorder owner id
  | .stack first rest => Stack.preorder owner id (first :: rest)

namespace Pending

/-- The vertices of the nodes still to be visited, one node after the other. -/
def preorder (id : Nat) : Pending → List Vertex
  | [] => []
  | (n, owner) :: rest => preorderOf owner id n ++ preorder (id + n.size) rest

theorem size_append (before after : Pending) :
    size (before ++ after) = size before + size after := by
  induction before with
  | nil => exact (Nat.zero_add _).symm
  | cons entry before ih =>
      change entry.1.size + size (before ++ after) = entry.1.size + size before + size after
      rw [ih, Nat.add_assoc]

theorem preorder_append (id : Nat) (before after : Pending) :
    preorder id (before ++ after) = preorder id before ++ preorder (id + size before) after := by
  induction before generalizing id with
  | nil => rfl
  | cons entry before ih =>
      have hsize : id + size (entry :: before) = id + entry.1.size + size before := by
        simp [size, Nat.add_assoc]
      rw [List.cons_append, preorder, preorder, ih, List.append_assoc, hsize]

variable (owner : Option Nat) (id : Nat)

theorem size_exprs (es : List Expr) :
    size ((es.map Node.expr).map (·, owner)) = es.foldr (·.size + ·) 0 := by
  simp [size, List.foldr_map]

theorem preorder_exprs (es : List Expr) :
    preorder id ((es.map Node.expr).map (·, owner)) = Expr.preorders owner id es := by
  induction es generalizing id with
  | nil => rfl
  | cons e es ih =>
      rw [List.map_cons, List.map_cons, preorder, ih]
      rfl

theorem size_ofStack (s : Stack) : size ((Node.ofStack s).map (·, owner)) = Stack.count s := by
  rw [Stack.count_eq, size, List.foldr_map]
  exact Node.foldr_size_ofStack s 0

theorem preorder_ofStack (s : Stack) :
    preorder id ((Node.ofStack s).map (·, owner)) = Stack.preorder owner id s := by
  cases s with
  | nil =>
      rw [Stack.preorder]
      rfl
  | cons first rest => exact List.append_nil _

theorem preorder_stacks (ss : List Stack) :
    preorder id ((ss.flatMap Node.ofStack).map (·, owner)) = Stack.preorders owner id ss := by
  induction ss generalizing id with
  | nil => rfl
  | cons s ss ih =>
      rw [List.flatMap_cons, List.map_append, preorder_append, preorder_ofStack, size_ofStack, ih,
        Stack.preorders]

theorem size_stacks (ss : List Stack) :
    size ((ss.flatMap Node.ofStack).map (·, owner)) = Forest.count ss := by
  induction ss with
  | nil => rfl
  | cons s ss ih =>
      rw [List.flatMap_cons, List.map_append, size_append, size_ofStack, ih, Forest.count]

theorem size_after (n : Node) :
    size (n.children.map (·, some id) ++ n.next.map (·, owner)) + 1 = n.size := by
  have h := size_advance id n owner []
  rw [advance, List.append_nil] at h
  exact h

theorem size_children_stack (first : Stmt) (rest : Stack) :
    size ((Node.stack first rest).children.map (·, some id)) + 1 = first.count := by
  have h := size_after none id (.stack first rest)
  rw [size_append, Node.next, size_ofStack, Node.size, ← first.count_eq, ← Stack.count_eq] at h
  omega

theorem stmt_preorder_eq (first : Stmt) (rest : Stack) :
    first.preorder owner id = ⟨id, first.label, owner⟩ ::
      preorder (id + 1) ((Node.stack first rest).children.map (·, some id)) := by
  rw [Stmt.preorder_eq, Node.children, List.map_append, preorder_append, preorder_exprs, size_exprs,
    preorder_stacks]

theorem preorderOf_eq (n : Node) :
    preorderOf owner id n = ⟨id, n.label, owner⟩ ::
      preorder (id + 1) (n.children.map (·, some id) ++ n.next.map (·, owner)) := by
  cases n with
  | expr e =>
      rw [preorderOf, Expr.preorder_eq, Node.children, Node.next, List.map_nil, List.append_nil,
        preorder_exprs]
      rfl
  | stack first rest =>
      have hcount : id + 1 + size ((Node.stack first rest).children.map (·, some id)) =
          id + first.count := by
        rw [← size_children_stack id first rest]
        omega
      rw [preorderOf, Stack.preorder, stmt_preorder_eq owner id first rest, preorder_append, hcount,
        Node.next, preorder_ofStack]
      rfl

theorem preorder_advance (n : Node) (rest : Pending) :
    preorder id ((n, owner) :: rest) =
      ⟨id, n.label, owner⟩ :: preorder (id + 1) (advance id n owner rest) := by
  have hsize : id + 1 + size (n.children.map (·, some id) ++ n.next.map (·, owner)) =
      id + n.size := by
    rw [← size_after owner id n]
    omega
  rw [advance, preorder_append, hsize, preorder, preorderOf_eq, List.cons_append]

end Pending

/-- The pending nodes come out in the order of the recursion. -/
theorem visit_eq (id : Nat) (pending : Pending) : visit id pending = pending.preorder id := by
  induction id, pending using visit.induct with
  | case1 id => rw [visit, Pending.preorder]
  | case2 id n owner rest ih =>
      -- What is pending after a step stands for the rest of what was pending before it.
      rw [visit, ih, Pending.preorder_advance]

theorem vertices_eq (forest : Forest) : vertices forest = forest.preorder := by
  rw [vertices, visit_eq, Pending.preorder_stacks, Forest.preorder]

theorem ids_visit (id : Nat) (pending : Pending) :
    (visit id pending).map (·.id) = List.range' id pending.size := by
  induction id, pending using visit.induct with
  | case1 id => rw [visit]; rfl
  | case2 id n owner rest ih =>
      rw [visit, List.map_cons, ih, ← Pending.size_advance id n owner rest, List.range'_succ]

theorem ids_preorder (forest : Forest) :
    forest.preorder.map (·.id) = List.range forest.count := by
  rw [← vertices_eq, vertices, ids_visit, Pending.size_stacks, List.range_eq_range']

theorem parent_lt_of_visit (id : Nat) (pending : Pending)
    (h : ∀ entry ∈ pending, ∀ owner, entry.2 = some owner → owner < id) :
    ∀ v ∈ visit id pending, ∀ owner, v.parent = some owner → owner < v.id := by
  induction id, pending using visit.induct with
  | case1 id =>
      rw [visit]
      simp
  | case2 id n owner rest ih =>
      rw [visit, List.forall_mem_cons]
      rw [List.forall_mem_cons] at h
      refine ⟨h.1, ih ?_⟩
      simp only [Pending.advance, List.forall_mem_append, List.forall_mem_map]
      refine ⟨⟨fun c _ o ho => ?_, fun c _ o ho => ?_⟩, fun entry hentry o ho => ?_⟩
      · -- Only the children are owned by the node that was visited last.
        obtain rfl := Option.some.inj ho
        exact Nat.lt_succ_self id
      · exact Nat.lt_succ_of_lt (h.1 o ho)
      · exact Nat.lt_succ_of_lt (h.2 entry hentry o ho)

theorem parent_lt_of_mem_preorder {forest : Forest} {v : Vertex} (hv : v ∈ forest.preorder)
    {owner : Nat} (howner : v.parent = some owner) : owner < v.id := by
  rw [← vertices_eq] at hv
  refine parent_lt_of_visit 0 _ (fun entry hentry o ho => ?_) v hv owner howner
  obtain ⟨n, _, rfl⟩ := List.mem_map.mp hentry
  cases ho

theorem owned_of_visit (id : Nat) (pending : Pending) (h : ∀ entry ∈ pending, entry.2.isSome) :
    ∀ v ∈ visit id pending, v.parent.isSome := by
  induction id, pending using visit.induct with
  | case1 id =>
      rw [visit]
      simp
  | case2 id n owner rest ih =>
      rw [visit, List.forall_mem_cons]
      rw [List.forall_mem_cons] at h
      refine ⟨h.1, ih ?_⟩
      simp only [Pending.advance, List.forall_mem_append, List.forall_mem_map]
      exact ⟨⟨fun c _ => rfl, fun c _ => h.1⟩, h.2⟩

end Diagram

/-- The numbers of the statements that a stack consists of, its bodies left out. -/
def Stack.chain (id : Nat) : Stack → List Nat
  | [] => []
  | first :: rest => id :: Stack.chain (id + first.count) rest

/-- The numbers of the statements of the stacks that a program consists of. -/
def Forest.chain (id : Nat) : Forest → List Nat
  | [] => []
  | root :: rest => Stack.chain id root ++ Forest.chain (id + Stack.count root) rest

namespace Diagram

theorem unowned_stack (id : Nat) (s : Stack) :
    ((Stack.preorder none id s).filter (·.parent.isNone)).map (·.id) = Stack.chain id s := by
  induction s generalizing id with
  | nil => rw [Stack.preorder]; rfl
  | cons first rest ih =>
      -- Below the first statement everything is owned.
      have howned : ∀ v ∈ Pending.preorder (id + 1) ((Node.stack first rest).children.map
          (·, some id)), ¬v.parent.isNone = true := by
        intro v hv
        rw [← visit_eq] at hv
        have hsome := owned_of_visit _ _ (by simp) v hv
        simp [Option.isSome_iff_ne_none.mp hsome]
      rw [Stack.preorder, Pending.stmt_preorder_eq none id first rest, List.filter_append,
        List.map_append, ih, Stack.chain, List.filter_cons_of_pos rfl,
        List.filter_eq_nil_iff.mpr howned]
      rfl

theorem unowned_preorders (id : Nat) (forest : Forest) :
    ((Stack.preorders none id forest).filter (·.parent.isNone)).map (·.id) =
      Forest.chain id forest := by
  induction forest generalizing id with
  | nil => rfl
  | cons root rest ih =>
      rw [Stack.preorders, List.filter_append, List.map_append, unowned_stack, ih, Forest.chain]

theorem owned_preorder (forest : Forest) :
    (forest.preorder.filter (·.parent.isSome)).map (·.id) =
      (List.range forest.count).filter (· ∉ forest.chain 0) := by
  rw [← ids_preorder, List.filter_map, ← unowned_preorders]
  refine congrArg (List.map _) (List.filter_congr fun v hv => ?_)
  -- Numbers tell vertices apart, so a number in the chain is that of a vertex without an owner.
  have hnodup : (forest.preorder.map (·.id)).Nodup := by
    rw [ids_preorder]
    exact List.nodup_range
  have hinj := List.inj_on_of_nodup_map hnodup
  rw [Function.comp_apply, Bool.eq_iff_iff, decide_eq_true_eq, List.mem_map]
  constructor
  · rintro hsome ⟨w, hw, hid⟩
    obtain ⟨hmem, hnone⟩ := List.mem_filter.mp hw
    obtain rfl := hinj hmem hv hid
    simp_all
  · intro hnot
    by_contra hnone
    exact hnot ⟨v, List.mem_filter.mpr ⟨hv, by simpa using hnone⟩, rfl⟩

end Diagram

end WordBlocks
