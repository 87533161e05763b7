import WordBlocks.Proofs.Faults

/-!
Compiling with best effort. A strict run and a lenient run of one computation are compared by
`Extends`: the lenient one never stops at an unknown opcode, and it gives whatever the strict one
gives if that one does not stop there. The relation passes through `>>=`, so each function of the
lowering has it as soon as the slots and bodies that it reads have it.
-/

namespace WordBlocks

section

variable {α β : Type}

/-- A run that does not stop at an unknown opcode. -/
def Known (run : Except CompileError α) : Prop :=
  ∀ opcode, run ≠ .error (.unsupportedOpcode opcode)

namespace Known

variable {x : Except CompileError α} {f : α → Except CompileError β}

@[simp] theorem ok (a : α) : Known (.ok a) := by
  intro opcode h
  cases h

@[simp] theorem malformed (cause : Malformation) : Known (α := α) (.error (.malformed cause)) := by
  intro opcode h
  cases h

@[simp] theorem unsupportedPort (fault : PortFault) :
    Known (α := α) (.error (.unsupportedPort fault)) := by
  intro opcode h
  cases h

@[simp] theorem invalidChoice (kind raw : String) :
    Known (α := α) (.error (.invalidChoice kind raw)) := by
  intro opcode h
  cases h

theorem bind (hx : Known x) (hf : ∀ a, Known (f a)) : Known (x >>= f) := by
  cases x with
  | error e => exact fun opcode h => hx opcode (congrArg _ (Except.error.inj h))
  | ok a => exact hf a

theorem of_bind (h : Known (x >>= f)) : Known x := by
  rintro opcode rfl
  exact h opcode rfl

theorem map {g : α → β} (hx : Known x) : Known (x.map g) := by
  cases x with
  | error e => exact fun opcode h => hx opcode (congrArg _ (Except.error.inj h))
  | ok a => exact .ok (g a)

theorem mapM {g : α → Except CompileError β} (hg : ∀ a, Known (g a)) (l : List α) :
    Known (l.mapM g) := by
  induction l with
  | nil => exact .ok _
  | cons a l ih =>
      rw [List.mapM_cons]
      exact (hg a).bind fun _ => ih.bind fun _ => .ok _

end Known

/-- The lenient run of a computation does not stop at an unknown opcode, and it is the strict run
unless that one does. -/
structure Extends (strict lenient : Except CompileError α) : Prop where
  known : Known lenient
  agrees : Known strict → lenient = strict

namespace Extends

variable {x x' : Except CompileError α} {f f' : α → Except CompileError β}

theorem refl (h : Known x) : Extends x x :=
  ⟨h, fun _ => rfl⟩

theorem ok (a : α) : Extends (.ok a) (.ok a) :=
  refl (.ok a)

theorem of_unsupported {opcode : String} (h : Known x') :
    Extends (.error (.unsupportedOpcode opcode)) x' :=
  ⟨h, fun hstrict => absurd rfl (hstrict opcode)⟩

theorem bind (hx : Extends x x') (hf : ∀ a, Extends (f a) (f' a)) :
    Extends (x >>= f) (x' >>= f') := by
  refine ⟨hx.known.bind fun a => (hf a).known, fun hstrict => ?_⟩
  rw [hx.agrees hstrict.of_bind]
  cases x with
  | error e => rfl
  | ok a => exact (hf a).agrees hstrict

theorem bind_of_known (hx : Known x) (hf : ∀ a, x = .ok a → Extends (f a) (f' a)) :
    Extends (x >>= f) (x >>= f') := by
  cases x with
  | error e => exact refl fun opcode h => hx opcode (congrArg _ (Except.error.inj h))
  | ok a => exact hf a rfl

theorem mapM {g g' : α → Except CompileError β} (hg : ∀ a, Extends (g a) (g' a)) (l : List α) :
    Extends (l.mapM g) (l.mapM g') := by
  induction l with
  | nil => exact .ok _
  | cons a l ih =>
      rw [List.mapM_cons, List.mapM_cons]
      exact (hg a).bind fun _ => ih.bind fun _ => .ok _

end Extends

end

namespace Block

variable (b : Block)

theorem known_requireField (field : String) : Known (b.requireField field) := by
  unfold requireField
  split <;> simp

theorem known_choice (α : Type) [Choice α] (field : String) : Known (b.choice α field) := by
  refine (b.known_requireField field).bind fun raw => ?_
  simp only [Choice.ofField]
  split <;> simp

theorem known_function (field : String) (arity : Nat) : Known (b.function field arity) := by
  refine (b.known_choice MathFunction field).bind fun f => ?_
  split
  · exact .ok f
  · exact .invalidChoice _ _

end Block

namespace Slot

theorem known_primitiveReference (rest : List Json) : Known (primitiveReference rest) := by
  unfold primitiveReference
  split <;> simp

theorem known_primitive (code : Int) (rest : List Json) : Known (primitive code rest) := by
  simp only [primitive]
  split
  · exact (known_primitiveReference rest).map
  · split <;> simp

theorem known_ofJson (binding : Json) : Known (ofJson binding) := by
  fun_induction ofJson binding with
  | case2 head rest code _ _ => exact (known_primitive code rest).map
  | _ => simp_all

end Slot

theorem known_portSet (raw : String) : Known (portSet raw) := by
  simp only [portSet]
  split <;> simp

theorem known_portPair (raw : String) : Known (portPair raw) := by
  simp only [portPair]
  split
  · split <;> simp
  · simp

namespace Project

theorem known_sectionOf (target : Json) (key : String) : Known (sectionOf target key) := by
  unfold sectionOf
  split <;> simp

theorem known_nameAndPayload (kind id : String) (declaration : Json) :
    Known (nameAndPayload kind id declaration) := by
  unfold nameAndPayload
  split
  · simp
  · split <;> simp

theorem known_ofJson (file : Json) : Known (ofJson file) := by
  unfold ofJson
  refine .bind ?_ fun target => ?_
  · unfold programTarget
    split
    · simp
    · split <;> simp
  refine .bind (known_sectionOf target _) fun vars => ?_
  refine .bind (.mapM (fun entry => ?_) _) fun _ => ?_
  · exact (known_nameAndPayload "variable" entry.1 entry.2).bind fun _ => .ok _
  refine .bind (known_sectionOf target _) fun lists => ?_
  refine .bind (.mapM (fun entry => ?_) _) fun _ => ?_
  · exact (known_nameAndPayload "list" entry.1 entry.2).bind fun _ => .ok _
  refine .bind (known_sectionOf target _) fun broadcasts => ?_
  refine .bind (.mapM (fun entry => ?_) _) fun _ => ?_
  · unfold broadcastOf
    split <;> simp
  refine .bind (known_sectionOf target _) fun blocks => ?_
  refine .bind ?_ fun _ => .ok _
  unfold extensionsOf
  split <;> simp

variable (p : Project)

theorem known_block (id : String) : Known (p.block id) := by
  unfold block
  split <;> simp

theorem known_reference (b : Block) (field : String) : Known (p.reference b field) :=
  (b.known_requireField field).bind fun _ => .ok _

theorem known_ports {read : String → Except CompileError Expr} (hread : ∀ raw, Known (read raw))
    (b : Block) (slot : String) : Known (p.ports read b slot) := by
  unfold ports
  split
  · simp
  split
  · refine (p.known_block _).bind fun source => ?_
    split
    · exact hread _
    split
    · exact (p.known_reference source "VARIABLE").bind fun _ => .ok _
    split
    · exact (p.known_reference source "LIST").bind fun _ => .ok _
    · exact .unsupportedPort _
  split
  · unfold primitivePorts
    split
    · split
      · exact (Slot.known_primitiveReference _).map
      · split
        · exact hread _
        · simp
    · simp
  · simp

theorem known_portSet (b : Block) (slot : String) : Known (p.ports portSet b slot) :=
  p.known_ports WordBlocks.known_portSet b slot

theorem known_sound (b : Block) : Known (p.sound b) := by
  simp only [sound]
  split
  · refine (p.known_block _).bind fun source => (Known.ok _).bind fun raw? => ?_
    split
    · exact .ok _
    · exact .malformed _
  · refine (Known.ok _).bind fun raw? => ?_
    split
    · exact .ok _
    · exact .malformed _

end Project

namespace Block

variable (p : Project) (b : Block) {slot slot' : Json → Except CompileError Expr}
  (hslot : ∀ binding, Extends (slot binding) (slot' binding))

include hslot

theorem operand_extends (name : String) : Extends (b.operand slot name) (b.operand slot' name) := by
  unfold operand
  split
  · exact hslot _
  · exact .ok _

theorem reporter_extends (form : ReporterForm) :
    Extends (b.reporter p slot form) (b.reporter p slot' form) := by
  have operand := b.operand_extends hslot
  have list := Extends.refl (p.known_reference b "LIST")
  have port := Extends.refl (p.known_portSet b "PORT")
  cases form with
  | reference field => exact (Extends.refl (p.known_reference b field)).bind fun _ => .ok _
  | listQuery q name => exact list.bind fun _ => (operand name).bind fun _ => .ok _
  | listLength => exact list.bind fun _ => .ok _
  | unary op name => exact (operand name).bind fun _ => .ok _
  | binary op left right => exact (operand left).bind fun _ => (operand right).bind fun _ => .ok _
  | between =>
      exact (operand _).bind fun _ => (operand _).bind fun _ => (operand _).bind fun _ => .ok _
  | functionOfOne =>
      exact (Extends.refl (b.known_function _ _)).bind fun _ => (operand _).bind fun _ => .ok _
  | functionOfTwo =>
      exact (Extends.refl (b.known_function _ _)).bind fun _ =>
        (operand _).bind fun _ => (operand _).bind fun _ => .ok _
  | device q => exact port.bind fun _ => .ok _
  | distance =>
      exact port.bind fun _ => (Extends.refl (b.known_choice _ _)).bind fun _ => .ok _
  | isColor => exact port.bind fun _ => (operand _).bind fun _ => .ok _
  | isReflectedLight =>
      exact port.bind fun _ => (Extends.refl (b.known_choice _ _)).bind fun _ =>
        (operand _).bind fun _ => .ok _
  | isDistance =>
      exact port.bind fun _ => (Extends.refl (b.known_choice _ _)).bind fun _ =>
        (operand _).bind fun _ => (Extends.refl (b.known_choice _ _)).bind fun _ => .ok _
  | reading r => exact .ok _
  | isGesture | isOrientation | angle =>
      exact (Extends.refl (b.known_choice _ _)).bind fun _ => .ok _
  | button =>
      exact (Extends.refl (b.known_choice _ _)).bind fun _ =>
        (Extends.refl (b.known_choice _ _)).bind fun _ => .ok _
  | keyPressed => exact (operand _).bind fun _ => .ok _

theorem expression_extends :
    Extends (b.expression p false slot) (b.expression p true slot') := by
  unfold expression
  split
  · exact .ok _
  split
  · exact b.reporter_extends p hslot _
  · exact .of_unsupported (.ok _)

theorem dataAction_extends (form : DataForm) :
    Extends (b.dataAction p slot form) (b.dataAction p slot' form) := by
  have operand := b.operand_extends hslot
  have reference := fun field => Extends.refl (p.known_reference b field)
  cases form with
  | set | change | append | delete =>
      exact (reference _).bind fun _ => (operand _).bind fun _ => .ok _
  | clear => exact (reference _).bind fun _ => .ok _
  | insert | replace =>
      exact (reference _).bind fun _ =>
        (operand _).bind fun _ => (operand _).bind fun _ => .ok _

theorem motorAction_extends (form : MotorForm) :
    Extends (b.motorAction p slot form) (b.motorAction p slot' form) := by
  have operand := b.operand_extends hslot
  have port := Extends.refl (p.known_portSet b "PORT")
  cases form with
  | run =>
      exact port.bind fun _ => (Extends.refl (b.known_choice _ _)).bind fun _ =>
        (operand _).bind fun _ => (Extends.refl (b.known_choice _ _)).bind fun _ => .ok _
  | goTo =>
      exact port.bind fun _ => (Extends.refl (b.known_choice _ _)).bind fun _ =>
        (operand _).bind fun _ => .ok _
  | start => exact port.bind fun _ => (Extends.refl (b.known_choice _ _)).bind fun _ => .ok _
  | stop => exact port.bind fun _ => .ok _
  | setSpeed => exact port.bind fun _ => (operand _).bind fun _ => .ok _

theorem movementAction_extends (form : MovementForm) :
    Extends (b.movementAction p slot form) (b.movementAction p slot' form) := by
  have operand := b.operand_extends hslot
  cases form with
  | move =>
      exact (Extends.refl (b.known_choice _ _)).bind fun _ => (operand _).bind fun _ =>
        (Extends.refl (b.known_choice _ _)).bind fun _ => .ok _
  | steer =>
      exact (operand _).bind fun _ => (operand _).bind fun _ =>
        (Extends.refl (b.known_choice _ _)).bind fun _ => .ok _
  | start => exact (Extends.refl (b.known_choice _ _)).bind fun _ => .ok _
  | startSteering | setSpeed => exact (operand _).bind fun _ => .ok _
  | stop => exact .ok _
  | setMotors =>
      exact (Extends.refl (p.known_ports known_portPair b "PAIR")).bind fun _ => .ok _
  | setRotation =>
      exact (operand _).bind fun _ => (Extends.refl (b.known_choice _ _)).bind fun _ => .ok _

theorem lightAction_extends (form : LightForm) :
    Extends (b.lightAction p slot form) (b.lightAction p slot' form) := by
  have operand := b.operand_extends hslot
  cases form with
  | displayFor => exact (operand _).bind fun _ => (operand _).bind fun _ => .ok _
  | display | write | setBrightness | setButton => exact (operand _).bind fun _ => .ok _
  | off => exact .ok _
  | setPixel =>
      exact (operand _).bind fun _ => (operand _).bind fun _ => (operand _).bind fun _ => .ok _
  | lightSensor =>
      exact (Extends.refl (p.known_portSet b "PORT")).bind fun _ =>
        (operand _).bind fun _ => .ok _

theorem soundAction_extends (form : SoundForm) :
    Extends (b.soundAction p slot form) (b.soundAction p slot' form) := by
  have operand := b.operand_extends hslot
  cases form with
  | play | start => exact (Extends.refl (p.known_sound b)).bind fun _ => .ok _
  | beep => exact (operand _).bind fun _ => (operand _).bind fun _ => .ok _
  | startBeep | setVolume | changeVolume => exact (operand _).bind fun _ => .ok _
  | stop => exact .ok _

variable {stack stack' : Option String → Except CompileError Stack}
  (hstack : ∀ start, Extends (stack start) (stack' start))

include hstack

theorem statementOf_extends (form : StatementForm) :
    Extends (b.statementOf p slot stack form) (b.statementOf p slot' stack' form) := by
  have operand := b.operand_extends hslot
  cases form with
  | hat | resetTimer | resetYaw | missing => exact .ok _
  | data form => exact (b.dataAction_extends p hslot form).bind fun _ => .ok _
  | motor form => exact (b.motorAction_extends p hslot form).bind fun _ => .ok _
  | movement form => exact (b.movementAction_extends p hslot form).bind fun _ => .ok _
  | light form => exact (b.lightAction_extends p hslot form).bind fun _ => .ok _
  | sound form => exact (b.soundAction_extends p hslot form).bind fun _ => .ok _
  | wait | waitUntil => exact (operand _).bind fun _ => .ok _
  | repeatTimes | repeatUntil | ifThen =>
      exact (operand _).bind fun _ => (hstack _).bind fun _ => .ok _
  | forever => exact (hstack _).bind fun _ => .ok _
  | ifElse =>
      exact (operand _).bind fun _ => (hstack _).bind fun _ => (hstack _).bind fun _ => .ok _

theorem statement_extends :
    Extends (b.statement p slot false stack) (b.statement p slot' true stack') := by
  unfold statement
  split
  · exact b.statementOf_extends p hslot hstack _
  · exact .of_unsupported (.ok _)

end Block

namespace Project

variable (p : Project)

theorem exprIn_extends (path : List String) (binding : Json) :
    Extends (p.exprIn false path binding) (p.exprIn true path binding) := by
  -- On the number of blocks that are not yet on the path.
  induction hn : p.remaining path using Nat.strongRecOn generalizing path binding with
  | ind n ih =>
      rw [exprIn_eq, exprIn_eq]
      refine (Extends.refl (Slot.known_ofJson binding)).bind fun slot => ?_
      cases slot with
      | value e => exact .ok e
      | block id =>
          by_cases hmem : id ∈ path
          · simp only [hmem]
            exact .refl (.malformed _)
          · simp only [hmem]
            refine .bind_of_known (p.known_block id) fun b hb => ?_
            have hlt := hn ▸ remaining_cons_lt hb hmem
            exact b.expression_extends p fun inner => ih _ hlt _ inner rfl

theorem expr_extends (binding : Json) : Extends (p.expr false binding) (p.expr true binding) :=
  p.exprIn_extends [] binding

theorem stackIn_extends (path visited : List String) (start : Option String) :
    Extends (p.stackIn false path visited start) (p.stackIn true path visited start) := by
  -- Both runs take the same steps as long as they agree, so one recursion carries the two.
  induction path, visited, start using stackIn.induct p with
  | case1 path visited =>
      rw [stackIn, stackIn]
      exact .ok _
  | case2 path visited id hmem =>
      rw [stackIn_some, stackIn_some, if_pos hmem, if_pos hmem]
      exact .refl (.malformed _)
  | case3 path visited id hvisited hmem =>
      rw [stackIn_some, stackIn_some, if_neg hvisited, if_neg hvisited, if_pos hmem, if_pos hmem]
      exact .refl (.malformed _)
  | case4 path visited id hvisited hpath e herror =>
      rw [stackIn_some, stackIn_some, if_neg hvisited, if_neg hvisited, if_neg hpath,
        if_neg hpath]
      refine .bind_of_known (p.known_block id) fun b hb => ?_
      rw [herror] at hb
      cases hb
  | case5 path visited id hvisited hpath b hb ihbody ihrest =>
      rw [stackIn_some, stackIn_some, if_neg hvisited, if_neg hvisited, if_neg hpath,
        if_neg hpath]
      refine .bind_of_known (p.known_block id) fun b' hb' => ?_
      obtain rfl := Except.ok.inj (hb.symm.trans hb')
      have hfirst := b.statement_extends p p.expr_extends ihbody
      exact hfirst.bind fun _ => ihrest.bind fun _ => .ok _

theorem forest_extends : Extends (p.forest false) (p.forest true) :=
  .mapM (fun id => p.stackIn_extends [] [] (some id)) p.roots

end Project

theorem Script.known_generate (forest : Forest) : Known (generate forest) :=
  fun _ h => ofScript_of_generate h

theorem lower_extends (project : Json) : Extends (lower project false) (lower project true) :=
  (Extends.refl (Project.known_ofJson project)).bind fun p => p.forest_extends

/-- Best effort never stops at an unknown opcode, and it changes nothing about a project on which
the strict compilation does not stop there either: the program, the script and the diagram are the
same, or the error is. -/
theorem compile_bestEffort_conservative (project : Json) :
    (∀ opcode, compile project true ≠ .error (.unsupportedOpcode opcode)) ∧
      ((∀ opcode, compile project false ≠ .error (.unsupportedOpcode opcode)) →
        compile project true = compile project false) := by
  have h : Extends (compile project false) (compile project true) :=
    (lower_extends project).bind fun forest =>
      (Extends.refl (Script.known_generate forest)).bind fun _ => .ok _
  exact ⟨h.known, h.agrees⟩

/-- A project with a block that lacks its port and, after it, an unknown block. -/
def Json.missingPort : Json :=
  .program [] [] [("below", .object [("opcode", .string "flippermotor_motorStop"),
      ("next", .string "after")]),
    ("after", .object [("opcode", .string "unknown")])]

theorem compile_bestEffort_missing_port : ∀ bestEffort, compile .missingPort bestEffort =
    .error (.unsupportedPort (.missingInput "PORT" "flippermotor_motorStop")) := by
  intro bestEffort
  have hstrict : compile .missingPort false =
      .error (.unsupportedPort (.missingInput "PORT" "flippermotor_motorStop")) := by
    with_unfolding_all rfl
  cases bestEffort with
  | false => exact hstrict
  | true =>
      refine ((compile_bestEffort_conservative _).2 ?_).trans hstrict
      rw [hstrict]
      exact Known.unsupportedPort _

end WordBlocks
