import WordBlocks.Proofs.Lowered

/-!
References of a program to the variables and lists of its project. A reference is named in the field
of a block, or it is written out as a primitive in a slot. The name in a field gives way to the name
that the project declares, the name in a primitive does not. `Project.Holds` says which primitives a
program reads, and those that bear an outdated name are exactly the references of the program that
do (`mem_references_iff_of_stale`).
-/

namespace WordBlocks

open Script (bind_eq_ok_iff map_eq_ok_iff pure_eq_ok_iff)

/-- All references in an expression. -/
def Expr.references : Expr → List Reference
  | number _ | text _ | ports _ | reading _ => []
  | ref r | listLength r => [r]
  | unary _ e | device _ e | keyPressed e => e.references
  | binary _ a b | deviceTest _ a b => a.references ++ b.references
  | between v a b => v.references ++ a.references ++ b.references
  | listQuery _ r e => r :: e.references

mutual

def Stmt.references : Stmt → List Reference
  | .hat _ _ => []
  | .action a => (Stmt.action a).ownReferences ++ a.operands.flatMap Expr.references
  | .repeatTimes e body | .repeatUntil e body | .ifThen e body =>
    e.references ++ Stack.references body
  | .forever body => Stack.references body
  | .ifElse e body orElse => e.references ++ Stack.references body ++ Stack.references orElse

def Stack.references : List Stmt → List Reference
  | [] => []
  | first :: rest => first.references ++ Stack.references rest

end

def Forest.references (forest : Forest) : List Reference :=
  forest.flatMap Stack.references

theorem Expr.mem_references_iff {e : Expr} {r : Reference} :
    r ∈ e.references ↔ r ∈ e.ownReferences ∨ ∃ operand ∈ e.children, r ∈ operand.references := by
  cases e <;> simp [references, ownReferences, children]

theorem Stmt.mem_references_iff {s : Stmt} {r : Reference} :
    r ∈ s.references ↔ (r ∈ s.ownReferences ∨ ∃ e ∈ s.operands, r ∈ e.references) ∨
      ∃ body ∈ s.bodies, r ∈ Stack.references body := by
  cases s <;> simp [references, ownReferences, operands, bodies]

theorem Stack.mem_references_cons {first : Stmt} {rest : Stack} {r : Reference} :
    r ∈ Stack.references (first :: rest) ↔ r ∈ first.references ∨ r ∈ Stack.references rest := by
  simp [Stack.references]

namespace Block

/-- A slot for ports that holds the primitive of a reference. -/
def PortHolds (b : Block) : OperandSlot → Reference → Prop
  | .ports name, r | .pair name, r =>
    ∃ primitive, b.portPrimitive? name = some primitive ∧ Json.IsReference primitive r
  | .value _, _ => False

end Block

namespace Project

variable (p : Project)

/-- A reporter of the palette that stands in a slot. -/
structure IsReporter (id : String) (b : Block) (form : ReporterForm) : Prop where
  block : p.block id = .ok b
  noMenu : b.menuValue? = none
  form : ReporterForm.ofOpcode? b.opcode = some form

structure IsStatement (id : String) (b : Block) (form : StatementForm) : Prop where
  block : p.block id = .ok b
  form : StatementForm.ofOpcode? b.opcode = some form

/-- The primitives of references that are read with what is bound to a slot: the one that is bound
to it, or those in the slots of the reporter that is. -/
inductive SlotHolds : Json → Reference → Prop where
  | value {binding : Json} {r : Reference} (h : Slot.ofJson binding = .ok (.value (.ref r))) :
      SlotHolds binding r
  | port {binding : Json} {id : String} {b : Block} {form : ReporterForm} {s : OperandSlot}
      {r : Reference} (hslot : Slot.ofJson binding = .ok (.block id)) (hb : p.IsReporter id b form)
      (hs : s ∈ form.layout.operands) (h : b.PortHolds s r) : SlotHolds binding r
  | operand {binding : Json} {id : String} {b : Block} {form : ReporterForm} {name : String}
      {inner : Json} {r : Reference} (hslot : Slot.ofJson binding = .ok (.block id))
      (hb : p.IsReporter id b form) (hs : .value name ∈ form.layout.operands)
      (hinner : b.input? name = some inner) (h : SlotHolds inner r) : SlotHolds binding r

inductive StackHolds : Option String → Reference → Prop where
  | port {id : String} {b : Block} {form : StatementForm} {s : OperandSlot} {r : Reference}
      (hb : p.IsStatement id b form) (hs : s ∈ form.layout.operands) (h : b.PortHolds s r) :
      StackHolds (some id) r
  | operand {id : String} {b : Block} {form : StatementForm} {name : String} {binding : Json}
      {r : Reference} (hb : p.IsStatement id b form) (hs : .value name ∈ form.layout.operands)
      (hbinding : b.input? name = some binding) (h : p.SlotHolds binding r) :
      StackHolds (some id) r
  | body {id : String} {b : Block} {form : StatementForm} {name : String} {r : Reference}
      (hb : p.IsStatement id b form) (hs : name ∈ form.layout.bodies)
      (h : StackHolds (b.inputBlock? name) r) : StackHolds (some id) r
  | next {id : String} {b : Block} {r : Reference} (hb : p.block id = .ok b)
      (h : StackHolds b.next r) : StackHolds (some id) r

/-- The primitives of references that are read with a program. -/
def Holds (r : Reference) : Prop :=
  ∃ id ∈ p.roots, p.StackHolds (some id) r

/-- A reference that bears the name which the project declares for its identifier, if any. -/
def Agrees (r : Reference) : Prop :=
  ∀ name ∈ p.declaredName? r.id, r.name = name

instance (r : Reference) : Decidable (p.Agrees r) :=
  inferInstanceAs (Decidable (∀ name ∈ p.declaredName? r.id, r.name = name))

variable {p} {b : Block} {r : Reference}

theorem agrees_of_reference {field : String} (h : p.reference b field = .ok r) : p.Agrees r := by
  simp only [reference, bind_eq_ok_iff, pure_eq_ok_iff] at h
  obtain ⟨name, _, rfl⟩ := h
  intro declared hdeclared
  simp [Option.mem_def.mp hdeclared]

theorem ports_of_isReference {read : String → Except CompileError Expr} {name : String}
    {primitive : List Json} (hprimitive : b.portPrimitive? name = some primitive)
    (hr : Json.IsReference primitive r) : p.ports read b name = .ok (.ref r) := by
  obtain ⟨code, hcode, hreference, hr⟩ := hr
  unfold Block.portPrimitive? at hprimitive
  split at hprimitive
  · cases hprimitive
  · rename_i hblock
    obtain ⟨binding, hbinding, hprimitive⟩ := Option.bind_eq_some_iff.mp hprimitive
    simp [ports, hbinding, hblock, hprimitive, primitivePorts, hcode, hreference, hr]
    rfl

theorem holds_of_ports {read : String → Except CompileError Expr}
    (hread : ∀ raw e, read raw = .ok e → r ∉ e.references) {name : String} {e : Expr}
    (h : p.ports read b name = .ok e) (hr : r ∈ e.references) :
    p.Agrees r ∨ ∃ primitive, b.portPrimitive? name = some primitive ∧
      Json.IsReference primitive r := by
  refine ports_induction (P := fun e => r ∈ e.references → _) ?_ ?_ ?_ h hr
  · intro raw e he hr
    exact absurd hr (hread raw e he)
  · intro source field r' hr' hr
    obtain rfl := List.mem_singleton.mp hr
    exact .inl (agrees_of_reference hr')
  · intro primitive r' hprimitive hr' hr
    obtain rfl := List.mem_singleton.mp hr
    exact .inr ⟨primitive, hprimitive, hr'⟩

end Project

theorem references_of_portSet {raw : String} {e : Expr} (h : portSet raw = .ok e) (r : Reference) :
    r ∉ e.references := by
  simp only [portSet] at h
  split at h
  · cases h
  · obtain rfl := Except.ok.inj h
    exact List.not_mem_nil

theorem references_of_portPair {raw : String} {e : Expr} (h : portPair raw = .ok e)
    (r : Reference) : r ∉ e.references := by
  simp only [portPair] at h
  split at h
  · split at h
    · obtain rfl := Except.ok.inj h
      exact List.not_mem_nil
    · cases h
  · cases h

namespace Block.Reads

variable {p : Project} {slot : Json → Except CompileError Expr} {b : Block} {layout : BlockLayout}
  {references : List Reference} {operands : List Expr} {r : Reference}

/-- A reference in the parts of a block is named as the project declares it, or it is held by a slot
of the block. -/
theorem cases (h : b.Reads p slot layout references operands)
    (hr : r ∈ references ∨ ∃ e ∈ operands, r ∈ e.references) :
    p.Agrees r ∨ (∃ s ∈ layout.operands, b.PortHolds s r) ∨
      ∃ name binding e, .value name ∈ layout.operands ∧ b.input? name = some binding ∧
        slot binding = .ok e ∧ r ∈ e.references := by
  rcases hr with hr | ⟨e, he, hr⟩
  · obtain ⟨field, _, hfield⟩ := exists_of_mem_right h.references hr
    exact .inl (Project.agrees_of_reference hfield)
  · obtain ⟨s, hs, hread⟩ := exists_of_mem_right h.operands he
    cases s with
    | ports name =>
        refine (Project.holds_of_ports ?_ hread hr).imp_right fun hport => .inl ⟨_, hs, hport⟩
        exact fun _ _ he => references_of_portSet he r
    | pair name =>
        refine (Project.holds_of_ports ?_ hread hr).imp_right fun hport => .inl ⟨_, hs, hport⟩
        exact fun _ _ he => references_of_portPair he r
    | value name =>
        simp only [operandIn, operand] at hread
        split at hread
        · exact .inr (.inr ⟨name, _, e, hs, ‹_›, hread, hr⟩)
        · obtain rfl := Except.ok.inj hread
          exact absurd hr List.not_mem_nil

theorem mem_of_portHolds (h : b.Reads p slot layout references operands) {s : OperandSlot}
    (hs : s ∈ layout.operands) (hport : b.PortHolds s r) : ∃ e ∈ operands, r ∈ e.references := by
  obtain ⟨e, he, hread⟩ := exists_of_mem_left h.operands hs
  refine ⟨e, he, ?_⟩
  cases s with
  | ports name | pair name =>
      obtain ⟨primitive, hprimitive, hr⟩ := hport
      obtain rfl := Except.ok.inj ((Project.ports_of_isReference hprimitive hr).symm.trans hread)
      exact List.mem_singleton_self r
  | value name => cases hport

theorem exists_operand (h : b.Reads p slot layout references operands) {name : String}
    (hs : .value name ∈ layout.operands) {binding : Json}
    (hbinding : b.input? name = some binding) :
    ∃ e ∈ operands, slot binding = .ok e := by
  obtain ⟨e, he, hread⟩ := exists_of_mem_left h.operands hs
  simp only [operandIn, operand, hbinding] at hread
  exact ⟨e, he, hread⟩

end Block.Reads

namespace Project

variable {p : Project} {bestEffort : Bool} {r : Reference}

theorem slotHolds_of_exprIn {path : List String} {binding : Json} {e : Expr}
    (h : p.exprIn bestEffort path binding = .ok e) :
    r ∈ e.references → p.Agrees r ∨ p.SlotHolds binding r := by
  refine exprIn_induction (P := fun binding e =>
    r ∈ e.references → p.Agrees r ∨ p.SlotHolds binding r) ?_ ?_ h
  · intro binding e hvalue hr
    rcases Slot.value_cases hvalue with ⟨x, rfl⟩ | ⟨s, rfl⟩ | ⟨r', rfl⟩
    · cases hr
    · cases hr
    · obtain rfl := List.mem_singleton.mp hr
      exact .inr (.value hvalue)
  · intro binding id b slot e hslot hb ih h hr
    rcases Block.expression_cases h with ⟨s, rfl⟩ | ⟨form, hmenu, hform, h⟩ | rfl
    · cases hr
    · have hb : p.IsReporter id b form := ⟨hb, hmenu, hform⟩
      rcases (Block.reporter_reads h).cases (Expr.mem_references_iff.mp hr) with
        hagrees | ⟨s, hs, hport⟩ | ⟨name, inner, e, hs, hinner, he, hr⟩
      · exact .inl hagrees
      · exact .inr (.port hslot hb hs hport)
      · exact (ih inner e he hr).imp_right (.operand hslot hb hs hinner)
    · cases hr

theorem reporter_of_exprIn {path : List String} {binding : Json} {e : Expr} {id : String}
    {b : Block} {form : ReporterForm} (hslot : Slot.ofJson binding = .ok (.block id))
    (hb : p.IsReporter id b form) (h : p.exprIn bestEffort path binding = .ok e) :
    b.reporter p (p.exprIn bestEffort (id :: path)) form = .ok e := by
  rcases exprIn_cases h with hvalue | ⟨id', b', hslot', _, hb', h⟩
  · rw [hslot] at hvalue
    cases hvalue
  · rw [hslot] at hslot'
    obtain rfl := Slot.block.inj (Except.ok.inj hslot')
    obtain rfl := Except.ok.inj (hb.block.symm.trans hb')
    simpa [Block.expression, hb.noMenu, hb.form] using h

theorem mem_of_slotHolds {binding : Json} (hholds : p.SlotHolds binding r) {path : List String}
    {e : Expr} (h : p.exprIn bestEffort path binding = .ok e) : r ∈ e.references := by
  induction hholds generalizing path e with
  | value hvalue =>
      rw [exprIn, hvalue] at h
      obtain rfl := Except.ok.inj h
      exact List.mem_singleton_self _
  | port hslot hb hs hport =>
      have hreads := Block.reporter_reads (reporter_of_exprIn hslot hb h)
      exact Expr.mem_references_iff.mpr (.inr (hreads.mem_of_portHolds hs hport))
  | operand hslot hb hs hinner _ ih =>
      have hreads := Block.reporter_reads (reporter_of_exprIn hslot hb h)
      obtain ⟨operand, hmem, hoperand⟩ := hreads.exists_operand hs hinner
      exact Expr.mem_references_iff.mpr (.inr ⟨operand, hmem, ih hoperand⟩)

theorem stackHolds_of_stackIn {path visited : List String} {start : Option String} {s : Stack}
    (h : p.stackIn bestEffort path visited start = .ok s) :
    r ∈ Stack.references s → p.Agrees r ∨ p.StackHolds start r := by
  refine stackIn_induction (P := fun start s =>
    r ∈ Stack.references s → p.Agrees r ∨ p.StackHolds start r) ?_ ?_ h
  · intro hr
    cases hr
  · intro id b stack first rest hb hbodies hfirst hrest hr
    rcases Stack.mem_references_cons.mp hr with hr | hr
    · rcases Block.statement_cases hfirst with ⟨form, hform, hfirst⟩ | ⟨_, _, rfl⟩
      · have hb : p.IsStatement id b form := ⟨hb, hform⟩
        rcases Stmt.mem_references_iff.mp hr with hr | ⟨body, hbody, hr⟩
        · rcases (Block.statementOf_reads hfirst).cases hr with
            hagrees | ⟨s, hs, hport⟩ | ⟨name, binding, e, hs, hbinding, he, hr⟩
          · exact .inl hagrees
          · exact .inr (.port hb hs hport)
          · exact (slotHolds_of_exprIn he hr).imp_right (.operand hb hs hbinding)
        · obtain ⟨name, hname, hread⟩ :=
            exists_of_mem_right (Block.statementOf_bodies hfirst) hbody
          exact (hbodies _ body hread hr).imp_right (.body hb hname)
      · cases hr
    · exact (hrest hr).imp_right (.next hb)

theorem statementOf_of_stackIn {path visited : List String} {id : String} {s : Stack} {b : Block}
    {form : StatementForm} (hb : p.IsStatement id b form)
    (h : p.stackIn bestEffort path visited (some id) = .ok s) :
    ∃ first rest, s = first :: rest ∧
      b.statementOf p (p.expr bestEffort) (p.stackIn bestEffort (id :: path) []) form =
        .ok first := by
  obtain ⟨b', first, rest, _, _, hb', hfirst, _, rfl⟩ := stackIn_cases h
  obtain rfl := Except.ok.inj (hb.block.symm.trans hb')
  simp only [Block.statement, hb.form] at hfirst
  exact ⟨first, rest, rfl, hfirst⟩

theorem mem_of_stackHolds {start : Option String} (hholds : p.StackHolds start r)
    {path visited : List String} {s : Stack}
    (h : p.stackIn bestEffort path visited start = .ok s) : r ∈ Stack.references s := by
  -- On where the primitive is held. The path and the visited blocks differ from place to place, but
  -- any run that succeeds passes through all of them.
  induction hholds generalizing path visited s with
  | port hb hs hport =>
      obtain ⟨first, rest, rfl, hfirst⟩ := statementOf_of_stackIn hb h
      refine Stack.mem_references_cons.mpr (.inl (Stmt.mem_references_iff.mpr (.inl (.inr ?_))))
      exact (Block.statementOf_reads hfirst).mem_of_portHolds hs hport
  | operand hb hs hbinding hslot =>
      obtain ⟨first, rest, rfl, hfirst⟩ := statementOf_of_stackIn hb h
      obtain ⟨e, hmem, he⟩ := (Block.statementOf_reads hfirst).exists_operand hs hbinding
      refine Stack.mem_references_cons.mpr (.inl (Stmt.mem_references_iff.mpr (.inl (.inr ?_))))
      exact ⟨e, hmem, mem_of_slotHolds hslot he⟩
  | body hb hs _ ih =>
      obtain ⟨first, rest, rfl, hfirst⟩ := statementOf_of_stackIn hb h
      obtain ⟨body, hmem, hbody⟩ := exists_of_mem_left (Block.statementOf_bodies hfirst) hs
      refine Stack.mem_references_cons.mpr (.inl (Stmt.mem_references_iff.mpr (.inr ?_)))
      exact ⟨body, hmem, ih hbody⟩
  | next hb _ ih =>
      obtain ⟨b', first, rest, _, _, hb', _, hrest, rfl⟩ := stackIn_cases h
      obtain rfl := Except.ok.inj (hb.symm.trans hb')
      exact Stack.mem_references_cons.mpr (.inr (ih hrest))

end Project

/-- The references of a program that bear another name than the project declares are the primitives
with that name. -/
theorem mem_references_iff_of_stale {project : Json} {bestEffort : Bool} {forest : Forest}
    {p : Project} {r : Reference} (h : lower project bestEffort = .ok forest)
    (hp : Project.ofJson project = .ok p) (hstale : ¬p.Agrees r) :
    r ∈ Forest.references forest ↔ p.Holds r := by
  simp only [lower, bind_eq_ok_iff] at h
  obtain ⟨p', hp', h⟩ := h
  obtain rfl := Except.ok.inj (hp.symm.trans hp')
  have hstacks := Project.forest_eq_ok_iff.mp h
  constructor
  · intro hr
    obtain ⟨s, hs, hr⟩ := List.mem_flatMap.mp hr
    obtain ⟨id, hid, hstack⟩ := exists_of_mem_right hstacks hs
    exact ⟨id, hid, (Project.stackHolds_of_stackIn hstack hr).resolve_left hstale⟩
  · rintro ⟨id, hid, hholds⟩
    obtain ⟨s, hs, hstack⟩ := exists_of_mem_left hstacks hid
    exact List.mem_flatMap.mpr ⟨s, hs, Project.mem_of_stackHolds hholds hstack⟩

theorem forall_mem_references_iff {project : Json} {bestEffort : Bool} {forest : Forest}
    {p : Project} {P : Reference → Prop} (h : lower project bestEffort = .ok forest)
    (hp : Project.ofJson project = .ok p) (hP : ∀ r, p.Agrees r → P r) :
    (∀ r ∈ Forest.references forest, P r) ↔ ∀ r, p.Holds r → P r := by
  constructor
  · intro hall r hr
    by_contra hne
    exact hne (hall r ((mem_references_iff_of_stale h hp (mt (hP r) hne)).mpr hr))
  · intro hall r hr
    by_contra hne
    exact hne (hall r ((mem_references_iff_of_stale h hp (mt (hP r) hne)).mp hr))

/-- All references of a program to a declared variable or list bear the declared name just if the
primitives that it reads do. -/
theorem references_agree_iff {project : Json} {bestEffort : Bool} {forest : Forest} {p : Project}
    {id name : String} (h : lower project bestEffort = .ok forest)
    (hp : Project.ofJson project = .ok p) (hname : p.declaredName? id = some name) :
    (∀ r ∈ Forest.references forest, r.id = id → r.name = name) ↔
      ∀ r, p.Holds r → r.id = id → r.name = name := by
  refine forall_mem_references_iff h hp ?_
  rintro r hagrees rfl
  exact hagrees name hname

/-- A project that sets the variable `speed`, called by an older name in the block that does so. -/
def Json.renamedVariable (value : Json) (reporters : List (String × Json)) : Json :=
  .program [("v", .array [.string "speed", .null])] []
    (("below", .object [("opcode", .string "data_setvariableto"),
      ("fields", .object [("VARIABLE", .array [.string "old", .string "v"])]),
      ("inputs", .object [("VALUE", value)])]) :: reporters)

/-- The variable is set to the sum of itself with itself, read in a block with its older name and
written as a primitive with its name. -/
def Json.renamedVariableSum : Json :=
  .renamedVariable (.array [.number (.integer 3), .string "sum"])
    [("sum", .object [("opcode", .string "operator_add"),
        ("inputs", .object [("NUM1", .array [.number (.integer 3), .string "get"]),
          ("NUM2", .array [.number (.integer 3),
            .array [.number (.integer 12), .string "speed", .string "v"]])])]),
      ("get", .object [("opcode", .string "data_variable"),
        ("fields", .object [("VARIABLE", .array [.string "old", .string "v"])])])]

theorem references_agree_sum :
    ∃ p, Project.ofJson .renamedVariableSum = .ok p ∧ p.declaredName? "v" = some "speed" ∧
      ∀ r, p.Holds r → r.id = "v" → r.name = "speed" := by
  have hlower : lower .renamedVariableSum false = .ok [[.hat none none,
      .action (.data (.set ⟨"speed", "v"⟩ (.binary (.arithmetic .add)
        (.ref ⟨"speed", "v"⟩) (.ref ⟨"speed", "v"⟩))))]] := by
    with_unfolding_all rfl
  refine ⟨_, rfl, rfl, (references_agree_iff hlower rfl rfl).mp ?_⟩
  decide

/-- The variable is set to itself, written as a primitive with its older name. -/
def Json.renamedVariableStale : Json :=
  .renamedVariable (.array [.number (.integer 3),
    .array [.number (.integer 12), .string "old", .string "v"]]) []

/-- A primitive keeps the name that is written in it, where the block around it does not. -/
theorem lower_primitive_keeps_name :
    ∃ p, Project.ofJson .renamedVariableStale = .ok p ∧ p.declaredName? "v" = some "speed" ∧
      lower .renamedVariableStale false = .ok [[.hat none none,
        .action (.data (.set ⟨"speed", "v"⟩ (.ref ⟨"old", "v"⟩)))]] := by
  refine ⟨_, rfl, rfl, ?_⟩
  with_unfolding_all rfl

end WordBlocks
