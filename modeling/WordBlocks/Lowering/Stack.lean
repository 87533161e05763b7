import WordBlocks.Lowering.Statement

/-!
From blocks to programs. Operands and bodies are found by following block identifiers, so the
recursion is over the blocks of the project: `path` holds the blocks that are being worked out, and
a reporter that is an operand inside itself, or a statement inside its own body, is refused. The two
are counted apart: a block in a slot is read as a reporter, whatever statement the slot belongs to.
A stack is followed along its links to the next block, and a block that is met twice on the way is
refused too.
-/

namespace WordBlocks

/-- The number of blocks that are not among `ids`. -/
def Project.remaining (p : Project) (ids : List String) : Nat :=
  p.blocks.countP fun b => !ids.contains b.1

theorem Project.remaining_le (p : Project) (ids : List String) :
    p.remaining ids ≤ p.blocks.length :=
  List.countP_le_length

theorem Project.exists_mem_blocks {p : Project} {id : String} {b : Block}
    (h : p.block id = .ok b) : ∃ v, (id, v) ∈ p.blocks := by
  unfold Project.block at h
  cases hv : p.blocks.lookup id with
  | none => simp [hv] at h
  | some v =>
      refine ⟨v, ?_⟩
      obtain ⟨l₁, l₂, hl, -⟩ := List.lookup_eq_some_iff.mp hv
      simp [hl]

theorem countP_lt_of_imp {α : Type} {f g : α → Bool} {l : List α} {a : α}
    (h : ∀ x, f x = true → g x = true) (ha : a ∈ l) (hf : f a = false) (hg : g a = true) :
    l.countP f < l.countP g := by
  induction l with
  | nil => simp at ha
  | cons x l ih =>
      have hle : l.countP f ≤ l.countP g := List.countP_mono_left fun x _ => h x
      rcases List.mem_cons.mp ha with rfl | ha
      · simp only [List.countP_cons, hf, hg]
        simp
        omega
      · have hlt := ih ha
        simp only [List.countP_cons]
        split <;> split
        · omega
        · exact absurd (h x ‹_›) ‹_›
        · omega
        · omega

/-- Each further block that is visited leaves fewer of them. -/
theorem Project.remaining_cons_lt {p : Project} {id : String} {b : Block} {ids : List String}
    (hb : p.block id = .ok b) (hid : id ∉ ids) : p.remaining (id :: ids) < p.remaining ids := by
  obtain ⟨v, hv⟩ := Project.exists_mem_blocks hb
  refine countP_lt_of_imp (fun x hx => ?_) hv ?_ ?_
  · simp only [List.contains_cons, Bool.not_or, Bool.and_eq_true] at hx
    exact hx.2
  · simp
  · simpa using hid

namespace Project

variable (p : Project) (bestEffort : Bool)

/-- The expression that is bound to a slot, inside the reporters of `path`. -/
def exprIn (path : List String) (binding : Json) : Except CompileError Expr :=
  match Slot.ofJson binding with
  | .error e => .error e
  | .ok (.value e) => .ok e
  | .ok (.block id) =>
    if _ : id ∈ path then .error (.malformed (.cyclicNesting id))
    else
      match _ : p.block id with
      | .error e => .error e
      | .ok b => b.expression p bestEffort fun inner => exprIn (id :: path) inner
termination_by p.remaining path
decreasing_by exact Project.remaining_cons_lt ‹_› ‹_›

/-- The expression that is bound to a slot. -/
def expr (binding : Json) : Except CompileError Expr :=
  p.exprIn bestEffort [] binding

/-- The stack that starts at a block, inside the bodies of the statements of `path` and after the
blocks of `visited`. -/
def stackIn (path visited : List String) (start : Option String) : Except CompileError Stack :=
  match start with
  | none => .ok []
  | some id =>
    if _ : id ∈ visited then .error (.malformed (.cyclicChain id))
    else if _ : id ∈ path then .error (.malformed (.cyclicNesting id))
    else
      match _ : p.block id with
      | .error e => .error e
      | .ok b => do
        let first ← b.statement p (p.expr bestEffort) bestEffort
          fun body => stackIn (id :: path) [] body
        let rest ← stackIn path (id :: visited) b.next
        return first :: rest
termination_by p.remaining path * (p.blocks.length + 1) + p.remaining visited
decreasing_by
  · have hpath := Project.remaining_cons_lt ‹_› ‹id ∉ path›
    have hall := p.remaining_le []
    have := Nat.mul_le_mul_right (p.blocks.length + 1) hpath
    rw [Nat.succ_mul] at this
    omega
  · have := Project.remaining_cons_lt ‹_› ‹id ∉ visited›
    omega

/-- The stack that starts at a block. -/
def stack (start : Option String) : Except CompileError Stack :=
  p.stackIn bestEffort [] [] start

/-- The blocks that start a stack of the program: those at top level, reporters apart. -/
def roots : List String :=
  p.blocks.filterMap fun (id, v) =>
    (Block.ofJson? v).bind fun b =>
      if b.topLevel && !isReporterOpcode b.opcode then some id else none

/-- The program of a project: its stacks in the order of their first blocks. -/
def forest : Except CompileError Forest :=
  p.roots.mapM fun id => p.stack bestEffort (some id)

end Project

end WordBlocks
