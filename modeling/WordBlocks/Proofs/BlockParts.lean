import Mathlib.Data.List.Forall2
import WordBlocks.Lowering.Statement
import WordBlocks.Proofs.Demand

/-!
The parts of a block. A layout lists the fields of a block that name a variable or list, the slots
that hold its operands and those that hold its bodies. `reporter_reads`, `statementOf_reads` and
`statementOf_bodies` say that a block of the palette becomes an expression or a statement with
exactly the parts that its layout lists, in this order.
-/

namespace WordBlocks

open Script (bind_eq_ok_iff pure_eq_ok_iff)

section

variable {α β : Type} {R : α → β → Prop} {l₁ : List α} {l₂ : List β}

theorem exists_of_mem_left (h : List.Forall₂ R l₁ l₂) {a : α} (ha : a ∈ l₁) :
    ∃ b ∈ l₂, R a b := by
  induction h with
  | nil => cases ha
  | cons hab _ ih =>
      rcases List.mem_cons.mp ha with rfl | ha
      · exact ⟨_, List.mem_cons_self, hab⟩
      · obtain ⟨b, hb, hr⟩ := ih ha
        exact ⟨b, List.mem_cons_of_mem _ hb, hr⟩

theorem exists_of_mem_right (h : List.Forall₂ R l₁ l₂) {b : β} (hb : b ∈ l₂) :
    ∃ a ∈ l₁, R a b :=
  exists_of_mem_left h.flip hb

end

/-- A slot that holds an operand. -/
inductive OperandSlot where
  | ports (name : String)
  | pair (name : String)
  | value (name : String)
deriving DecidableEq, Repr

/-- Where a block keeps its parts. -/
structure BlockLayout where
  /-- The fields that name a variable or list. -/
  fields : List String
  operands : List OperandSlot
  bodies : List String
deriving DecidableEq, Repr

def ReporterForm.layout : ReporterForm → BlockLayout
  | .reference field => ⟨[field], [], []⟩
  | .listQuery _ slot => ⟨["LIST"], [.value slot], []⟩
  | .listLength => ⟨["LIST"], [], []⟩
  | .unary _ slot => ⟨[], [.value slot], []⟩
  | .binary _ left right => ⟨[], [.value left, .value right], []⟩
  | .between => ⟨[], [.value "VALUE", .value "LOW", .value "HIGH"], []⟩
  | .functionOfOne => ⟨[], [.value "NUM"], []⟩
  | .functionOfTwo => ⟨[], [.value "PARAM1", .value "PARAM2"], []⟩
  | .device _ | .distance => ⟨[], [.ports "PORT"], []⟩
  | .isColor | .isReflectedLight | .isDistance => ⟨[], [.ports "PORT", .value "VALUE"], []⟩
  | .keyPressed => ⟨[], [.value "KEY_OPTION"], []⟩
  | .reading _ | .isGesture | .isOrientation | .angle | .button => ⟨[], [], []⟩

def DataForm.layout : DataForm → BlockLayout
  | .set | .change => ⟨["VARIABLE"], [.value "VALUE"], []⟩
  | .append => ⟨["LIST"], [.value "ITEM"], []⟩
  | .delete => ⟨["LIST"], [.value "INDEX"], []⟩
  | .clear => ⟨["LIST"], [], []⟩
  | .insert => ⟨["LIST"], [.value "ITEM", .value "INDEX"], []⟩
  | .replace => ⟨["LIST"], [.value "INDEX", .value "ITEM"], []⟩

def MotorForm.layout : MotorForm → BlockLayout
  | .run => ⟨[], [.ports "PORT", .value "VALUE"], []⟩
  | .goTo => ⟨[], [.ports "PORT", .value "POSITION"], []⟩
  | .start | .stop => ⟨[], [.ports "PORT"], []⟩
  | .setSpeed => ⟨[], [.ports "PORT", .value "SPEED"], []⟩

def MovementForm.layout : MovementForm → BlockLayout
  | .move => ⟨[], [.value "VALUE"], []⟩
  | .steer => ⟨[], [.value "STEERING", .value "VALUE"], []⟩
  | .start | .stop => ⟨[], [], []⟩
  | .startSteering => ⟨[], [.value "STEERING"], []⟩
  | .setSpeed => ⟨[], [.value "SPEED"], []⟩
  | .setMotors => ⟨[], [.pair "PAIR"], []⟩
  | .setRotation => ⟨[], [.value "DISTANCE"], []⟩

def LightForm.layout : LightForm → BlockLayout
  | .displayFor => ⟨[], [.value "MATRIX", .value "VALUE"], []⟩
  | .display => ⟨[], [.value "MATRIX"], []⟩
  | .write => ⟨[], [.value "TEXT"], []⟩
  | .off => ⟨[], [], []⟩
  | .setBrightness => ⟨[], [.value "BRIGHTNESS"], []⟩
  | .setPixel => ⟨[], [.value "X", .value "Y", .value "BRIGHTNESS"], []⟩
  | .setButton => ⟨[], [.value "COLOR"], []⟩
  | .lightSensor => ⟨[], [.ports "PORT", .value "VALUE"], []⟩

def SoundForm.layout : SoundForm → BlockLayout
  | .play | .start | .stop => ⟨[], [], []⟩
  | .beep => ⟨[], [.value "NOTE", .value "DURATION"], []⟩
  | .startBeep => ⟨[], [.value "NOTE"], []⟩
  | .setVolume | .changeVolume => ⟨[], [.value "VOLUME"], []⟩

def StatementForm.layout : StatementForm → BlockLayout
  | .hat | .resetTimer | .resetYaw | .missing _ _ => ⟨[], [], []⟩
  | .data form => form.layout
  | .motor form => form.layout
  | .movement form => form.layout
  | .light form => form.layout
  | .sound form => form.layout
  | .wait => ⟨[], [.value "DURATION"], []⟩
  | .waitUntil => ⟨[], [.value "CONDITION"], []⟩
  | .repeatTimes => ⟨[], [.value "TIMES"], ["SUBSTACK"]⟩
  | .forever => ⟨[], [], ["SUBSTACK"]⟩
  | .repeatUntil | .ifThen => ⟨[], [.value "CONDITION"], ["SUBSTACK"]⟩
  | .ifElse => ⟨[], [.value "CONDITION"], ["SUBSTACK", "SUBSTACK2"]⟩

/-- The reference that an expression makes itself, outside its operands. -/
def Expr.ownReferences : Expr → List Reference
  | ref r | listLength r | listQuery _ r _ => [r]
  | _ => []

def DataAction.target : DataAction → Reference
  | set r _ | change r _ | append r _ | delete r _ | clear r | insert r _ _ | replace r _ _ => r

/-- The reference that a statement makes itself, outside its operands. -/
def Stmt.ownReferences : Stmt → List Reference
  | action (.data a) => [a.target]
  | _ => []

namespace Block

variable {p : Project} {slot : Json → Except CompileError Expr} {b : Block}

def operandIn (p : Project) (slot : Json → Except CompileError Expr) (b : Block) :
    OperandSlot → Except CompileError Expr
  | .ports name => p.ports portSet b name
  | .pair name => p.ports portPair b name
  | .value name => b.operand slot name

/-- References and operands that are read off a block as a layout says. -/
structure Reads (p : Project) (slot : Json → Except CompileError Expr) (b : Block)
    (layout : BlockLayout) (references : List Reference) (operands : List Expr) : Prop where
  references : List.Forall₂ (fun field r => p.reference b field = .ok r) layout.fields references
  operands : List.Forall₂ (fun s e => b.operandIn p slot s = .ok e) layout.operands operands

theorem reporter_reads {form : ReporterForm} {e : Expr} (h : b.reporter p slot form = .ok e) :
    b.Reads p slot form.layout e.ownReferences e.children := by
  cases form with
  | reference field =>
      simp only [reporter, bind_eq_ok_iff, pure_eq_ok_iff] at h
      obtain ⟨r, hr, rfl⟩ := h
      exact ⟨.cons hr .nil, .nil⟩
  | listQuery q name =>
      simp only [reporter, bind_eq_ok_iff, pure_eq_ok_iff] at h
      obtain ⟨list, hlist, item, hitem, rfl⟩ := h
      exact ⟨.cons hlist .nil, .cons hitem .nil⟩
  | listLength =>
      simp only [reporter, bind_eq_ok_iff, pure_eq_ok_iff] at h
      obtain ⟨list, hlist, rfl⟩ := h
      exact ⟨.cons hlist .nil, .nil⟩
  | unary op name =>
      simp only [reporter, bind_eq_ok_iff, pure_eq_ok_iff] at h
      obtain ⟨operand, hoperand, rfl⟩ := h
      exact ⟨.nil, .cons hoperand .nil⟩
  | binary op left right =>
      simp only [reporter, bind_eq_ok_iff, pure_eq_ok_iff] at h
      obtain ⟨l, hl, r, hr, rfl⟩ := h
      exact ⟨.nil, .cons hl (.cons hr .nil)⟩
  | between =>
      simp only [reporter, bind_eq_ok_iff, pure_eq_ok_iff] at h
      obtain ⟨value, hvalue, low, hlow, high, hhigh, rfl⟩ := h
      exact ⟨.nil, .cons hvalue (.cons hlow (.cons hhigh .nil))⟩
  | functionOfOne =>
      simp only [reporter, bind_eq_ok_iff, pure_eq_ok_iff] at h
      obtain ⟨f, _, operand, hoperand, rfl⟩ := h
      exact ⟨.nil, .cons hoperand .nil⟩
  | functionOfTwo =>
      simp only [reporter, bind_eq_ok_iff, pure_eq_ok_iff] at h
      obtain ⟨f, _, l, hl, r, hr, rfl⟩ := h
      exact ⟨.nil, .cons hl (.cons hr .nil)⟩
  | device q =>
      simp only [reporter, bind_eq_ok_iff, pure_eq_ok_iff] at h
      obtain ⟨port, hport, rfl⟩ := h
      exact ⟨.nil, .cons hport .nil⟩
  | distance =>
      simp only [reporter, bind_eq_ok_iff, pure_eq_ok_iff] at h
      obtain ⟨port, hport, unit, _, rfl⟩ := h
      exact ⟨.nil, .cons hport .nil⟩
  | isColor =>
      simp only [reporter, bind_eq_ok_iff, pure_eq_ok_iff] at h
      obtain ⟨port, hport, color, hcolor, rfl⟩ := h
      exact ⟨.nil, .cons hport (.cons hcolor .nil)⟩
  | isReflectedLight =>
      simp only [reporter, bind_eq_ok_iff, pure_eq_ok_iff] at h
      obtain ⟨port, hport, op, _, value, hvalue, rfl⟩ := h
      exact ⟨.nil, .cons hport (.cons hvalue .nil)⟩
  | isDistance =>
      simp only [reporter, bind_eq_ok_iff, pure_eq_ok_iff] at h
      obtain ⟨port, hport, op, _, value, hvalue, unit, _, rfl⟩ := h
      exact ⟨.nil, .cons hport (.cons hvalue .nil)⟩
  | reading r =>
      obtain rfl := Except.ok.inj h
      exact ⟨.nil, .nil⟩
  | isGesture | isOrientation | angle =>
      simp only [reporter, bind_eq_ok_iff, pure_eq_ok_iff] at h
      obtain ⟨choice, _, rfl⟩ := h
      exact ⟨.nil, .nil⟩
  | button =>
      simp only [reporter, bind_eq_ok_iff, pure_eq_ok_iff] at h
      obtain ⟨button, _, state, _, rfl⟩ := h
      exact ⟨.nil, .nil⟩
  | keyPressed =>
      simp only [reporter, bind_eq_ok_iff, pure_eq_ok_iff] at h
      obtain ⟨key, hkey, rfl⟩ := h
      exact ⟨.nil, .cons hkey .nil⟩

theorem dataAction_reads {form : DataForm} {a : DataAction} (h : b.dataAction p slot form = .ok a) :
    b.Reads p slot form.layout [a.target] a.operands := by
  cases form with
  | set | change | append | delete =>
      simp only [dataAction, bind_eq_ok_iff, pure_eq_ok_iff] at h
      obtain ⟨r, hr, e, he, rfl⟩ := h
      exact ⟨.cons hr .nil, .cons he .nil⟩
  | clear =>
      simp only [dataAction, bind_eq_ok_iff, pure_eq_ok_iff] at h
      obtain ⟨r, hr, rfl⟩ := h
      exact ⟨.cons hr .nil, .nil⟩
  | insert | replace =>
      simp only [dataAction, bind_eq_ok_iff, pure_eq_ok_iff] at h
      obtain ⟨r, hr, e, he, f, hf, rfl⟩ := h
      exact ⟨.cons hr .nil, .cons he (.cons hf .nil)⟩

theorem motorAction_reads {form : MotorForm} {a : MotorAction}
    (h : b.motorAction p slot form = .ok a) : b.Reads p slot form.layout [] a.operands := by
  cases form with
  | run =>
      simp only [motorAction, bind_eq_ok_iff, pure_eq_ok_iff] at h
      obtain ⟨ports, hports, direction, _, value, hvalue, unit, _, rfl⟩ := h
      exact ⟨.nil, .cons hports (.cons hvalue .nil)⟩
  | goTo =>
      simp only [motorAction, bind_eq_ok_iff, pure_eq_ok_iff] at h
      obtain ⟨ports, hports, route, _, position, hposition, rfl⟩ := h
      exact ⟨.nil, .cons hports (.cons hposition .nil)⟩
  | start =>
      simp only [motorAction, bind_eq_ok_iff, pure_eq_ok_iff] at h
      obtain ⟨ports, hports, direction, _, rfl⟩ := h
      exact ⟨.nil, .cons hports .nil⟩
  | stop =>
      simp only [motorAction, bind_eq_ok_iff, pure_eq_ok_iff] at h
      obtain ⟨ports, hports, rfl⟩ := h
      exact ⟨.nil, .cons hports .nil⟩
  | setSpeed =>
      simp only [motorAction, bind_eq_ok_iff, pure_eq_ok_iff] at h
      obtain ⟨ports, hports, speed, hspeed, rfl⟩ := h
      exact ⟨.nil, .cons hports (.cons hspeed .nil)⟩

theorem movementAction_reads {form : MovementForm} {a : MovementAction}
    (h : b.movementAction p slot form = .ok a) : b.Reads p slot form.layout [] a.operands := by
  cases form with
  | move =>
      simp only [movementAction, bind_eq_ok_iff, pure_eq_ok_iff] at h
      obtain ⟨heading, _, value, hvalue, unit, _, rfl⟩ := h
      exact ⟨.nil, .cons hvalue .nil⟩
  | steer =>
      simp only [movementAction, bind_eq_ok_iff, pure_eq_ok_iff] at h
      obtain ⟨steering, hsteering, value, hvalue, unit, _, rfl⟩ := h
      exact ⟨.nil, .cons hsteering (.cons hvalue .nil)⟩
  | start =>
      simp only [movementAction, bind_eq_ok_iff, pure_eq_ok_iff] at h
      obtain ⟨heading, _, rfl⟩ := h
      exact ⟨.nil, .nil⟩
  | stop =>
      obtain rfl := Except.ok.inj h
      exact ⟨.nil, .nil⟩
  | startSteering | setSpeed | setMotors =>
      simp only [movementAction, bind_eq_ok_iff, pure_eq_ok_iff] at h
      obtain ⟨e, he, rfl⟩ := h
      exact ⟨.nil, .cons he .nil⟩
  | setRotation =>
      simp only [movementAction, bind_eq_ok_iff, pure_eq_ok_iff] at h
      obtain ⟨distance, hdistance, unit, _, rfl⟩ := h
      exact ⟨.nil, .cons hdistance .nil⟩

theorem lightAction_reads {form : LightForm} {a : LightAction}
    (h : b.lightAction p slot form = .ok a) : b.Reads p slot form.layout [] a.operands := by
  cases form with
  | off =>
      obtain rfl := Except.ok.inj h
      exact ⟨.nil, .nil⟩
  | display | write | setBrightness | setButton =>
      simp only [lightAction, bind_eq_ok_iff, pure_eq_ok_iff] at h
      obtain ⟨e, he, rfl⟩ := h
      exact ⟨.nil, .cons he .nil⟩
  | displayFor | lightSensor =>
      simp only [lightAction, bind_eq_ok_iff, pure_eq_ok_iff] at h
      obtain ⟨e, he, f, hf, rfl⟩ := h
      exact ⟨.nil, .cons he (.cons hf .nil)⟩
  | setPixel =>
      simp only [lightAction, bind_eq_ok_iff, pure_eq_ok_iff] at h
      obtain ⟨x, hx, y, hy, brightness, hbrightness, rfl⟩ := h
      exact ⟨.nil, .cons hx (.cons hy (.cons hbrightness .nil))⟩

theorem soundAction_reads {form : SoundForm} {a : SoundAction}
    (h : b.soundAction p slot form = .ok a) : b.Reads p slot form.layout [] a.operands := by
  cases form with
  | play | start =>
      simp only [soundAction, bind_eq_ok_iff, pure_eq_ok_iff] at h
      obtain ⟨sound, _, rfl⟩ := h
      exact ⟨.nil, .nil⟩
  | stop =>
      obtain rfl := Except.ok.inj h
      exact ⟨.nil, .nil⟩
  | beep =>
      simp only [soundAction, bind_eq_ok_iff, pure_eq_ok_iff] at h
      obtain ⟨note, hnote, duration, hduration, rfl⟩ := h
      exact ⟨.nil, .cons hnote (.cons hduration .nil)⟩
  | startBeep | setVolume | changeVolume =>
      simp only [soundAction, bind_eq_ok_iff, pure_eq_ok_iff] at h
      obtain ⟨e, he, rfl⟩ := h
      exact ⟨.nil, .cons he .nil⟩

variable {stack : Option String → Except CompileError Stack} {form : StatementForm} {s : Stmt}

theorem statementOf_reads (h : b.statementOf p slot stack form = .ok s) :
    b.Reads p slot form.layout s.ownReferences s.operands := by
  cases form with
  | hat | resetTimer | resetYaw | missing =>
      obtain rfl := Except.ok.inj h
      exact ⟨.nil, .nil⟩
  | data form =>
      simp only [statementOf, bind_eq_ok_iff, pure_eq_ok_iff] at h
      obtain ⟨a, ha, rfl⟩ := h
      exact dataAction_reads ha
  | motor form =>
      simp only [statementOf, bind_eq_ok_iff, pure_eq_ok_iff] at h
      obtain ⟨a, ha, rfl⟩ := h
      exact motorAction_reads ha
  | movement form =>
      simp only [statementOf, bind_eq_ok_iff, pure_eq_ok_iff] at h
      obtain ⟨a, ha, rfl⟩ := h
      exact movementAction_reads ha
  | light form =>
      simp only [statementOf, bind_eq_ok_iff, pure_eq_ok_iff] at h
      obtain ⟨a, ha, rfl⟩ := h
      exact lightAction_reads ha
  | sound form =>
      simp only [statementOf, bind_eq_ok_iff, pure_eq_ok_iff] at h
      obtain ⟨a, ha, rfl⟩ := h
      exact soundAction_reads ha
  | wait | waitUntil =>
      simp only [statementOf, bind_eq_ok_iff, pure_eq_ok_iff] at h
      obtain ⟨e, he, rfl⟩ := h
      exact ⟨.nil, .cons he .nil⟩
  | forever =>
      simp only [statementOf, bind_eq_ok_iff, pure_eq_ok_iff] at h
      obtain ⟨body, _, rfl⟩ := h
      exact ⟨.nil, .nil⟩
  | repeatTimes | repeatUntil | ifThen =>
      simp only [statementOf, bind_eq_ok_iff, pure_eq_ok_iff] at h
      obtain ⟨e, he, body, _, rfl⟩ := h
      exact ⟨.nil, .cons he .nil⟩
  | ifElse =>
      simp only [statementOf, bind_eq_ok_iff, pure_eq_ok_iff] at h
      obtain ⟨e, he, body, _, orElse, _, rfl⟩ := h
      exact ⟨.nil, .cons he .nil⟩

theorem statementOf_bodies (h : b.statementOf p slot stack form = .ok s) :
    List.Forall₂ (fun name body => stack (b.inputBlock? name) = .ok body)
      form.layout.bodies s.bodies := by
  cases form with
  | hat | resetTimer | resetYaw | missing =>
      obtain rfl := Except.ok.inj h
      exact .nil
  | data form | motor form | movement form | light form | sound form =>
      simp only [statementOf, bind_eq_ok_iff, pure_eq_ok_iff] at h
      obtain ⟨a, _, rfl⟩ := h
      cases form <;> exact .nil
  | wait | waitUntil =>
      simp only [statementOf, bind_eq_ok_iff, pure_eq_ok_iff] at h
      obtain ⟨e, _, rfl⟩ := h
      exact .nil
  | forever =>
      simp only [statementOf, bind_eq_ok_iff, pure_eq_ok_iff] at h
      obtain ⟨body, hbody, rfl⟩ := h
      exact .cons hbody .nil
  | repeatTimes | repeatUntil | ifThen =>
      simp only [statementOf, bind_eq_ok_iff, pure_eq_ok_iff] at h
      obtain ⟨e, _, body, hbody, rfl⟩ := h
      exact .cons hbody .nil
  | ifElse =>
      simp only [statementOf, bind_eq_ok_iff, pure_eq_ok_iff] at h
      obtain ⟨e, _, body, hbody, orElse, horElse, rfl⟩ := h
      exact .cons hbody (.cons horElse .nil)

end Block

end WordBlocks
