import WordBlocks.Proofs.ExprScript
import WordBlocks.Script.Action

/-!
Statements without a body, without a draft. `Action.lines` gives the lines of a statement from its
depth and from whether the program sets the brightness of the light matrix, and `Action.needs` gives
the declarations it demands. `Emit.action_run` says that generation from any draft adds just these.
-/

namespace WordBlocks

open Script

namespace Expr

/-- Where a statement for the ports that an expression gives sends its calls. -/
def targets (d : Device) : Expr → Except CompileError Targets
  | ports [] => .error (.brokenPromise .emptyPorts)
  | ports letters => return .objects (letters.map d.objectName)
  | ref r => return .loop (identifier r.name) (d.className ++ "(port)")
  | other => .error (.unsupportedPort (.operand other.label))

/-- The colour of the centre button that an expression gives. -/
def buttonColor (color : Expr) : Except CompileError String :=
  match literalIndex? color with
  | some i => (ButtonColor.ofIndex i).map ButtonColor.scriptName
  | none => do
    let c ← color.script
    return buttonColorTable ++ "[int(" ++ c ++ ")]"

/-- The arguments that light up a distance sensor. -/
def sensorLights (pattern : Expr) : Except CompileError String :=
  match digitPattern? pattern with
  | some digits => return ", ".intercalate (digits.map fun c => toString (digitPercent c))
  | none => do
    let p ← pattern.script
    return "*[int(int(c)*100/9) for c in str(" ++ p ++ ")]"

/-- The lines that give the movement pair the ports of an expression. -/
def pairTexts : Expr → Except CompileError (List String)
  | ports [left, right] =>
    return ["motor_pair = MotorPair('" ++ String.singleton left ++ "','" ++
      String.singleton right ++ "')"]
  | ref r =>
    return [movementPairNote,
      "motor_pair = MotorPair(" ++ identifier r.name ++ "[0], " ++ identifier r.name ++ "[1])"]
  | other => .error (.unsupportedPort (.pairOperand other.label))

end Expr

/-- One call for each target. -/
def Script.Targets.calls (t : Targets) (depth : Nat) (call : String → String) : List Line :=
  match t with
  | objects names => linesAt depth (names.map call)
  | loop iterable object =>
    [⟨depth, "for port in " ++ iterable ++ ":"⟩, ⟨depth + 1, call object⟩]

/-- The call that shows a pattern on the light matrix. -/
def Script.patternCallText (usesBrightness : Bool) (pattern : String) : String :=
  if usesBrightness then patternFunction ++ "(" ++ pattern ++ ", " ++ brightnessVariable ++ ")"
  else patternFunction ++ "(" ++ pattern ++ ")"

namespace DataAction

def lines (depth : Nat) : DataAction → Except CompileError (List Line)
  | set var value => do
    let v ← value.script
    return linesAt depth [identifier var.name ++ " = " ++ v]
  | change var value => do
    let v ← value.script
    return linesAt depth [identifier var.name ++ " += " ++ v]
  | append list item => do
    let v ← item.script
    return linesAt depth [identifier list.name ++ ".append(" ++ v ++ ")"]
  | delete list index => do
    let i ← index.script
    return linesAt depth [oneBasedNote, "del " ++ identifier list.name ++ "[int(" ++ i ++ ")-1]"]
  | clear list => return linesAt depth [identifier list.name ++ ".clear()"]
  | insert list item index => do
    let v ← item.script
    let i ← index.script
    return linesAt depth
      [oneBasedNote, identifier list.name ++ ".insert(int(" ++ i ++ ")-1, " ++ v ++ ")"]
  | replace list index item => do
    let i ← index.script
    let v ← item.script
    return linesAt depth [oneBasedNote, identifier list.name ++ "[int(" ++ i ++ ")-1] = " ++ v]

/-- Appending to a list is what declares it. -/
def needs : DataAction → List Demand
  | append list _ => [.list (identifier list.name)]
  | _ => []

end DataAction

namespace MotorAction

/-- The ports that the order goes to. -/
def ports : MotorAction → Expr
  | run p _ _ _ | goTo p _ _ | start p _ | stop p | setSpeed p _ => p

/-- The note before calls that only seem to run at the same time. -/
def serialNote (t : Targets) : List String :=
  if t.isPlural then serialMotorsNote else []

def lines (depth : Nat) : MotorAction → Except CompileError (List Line)
  | run ports direction value unit => do
    let t ← ports.targets .motor
    let v ← value.script
    let amount := if direction = .counterClockwise then negate v else v
    return linesAt depth (serialNote t) ++ match unit with
      | .rotations => t.calls depth fun m => m ++ ".run_for_rotations(" ++ amount ++ ")"
      | .degrees => ⟨depth, wholeDegreesNote⟩ ::
        t.calls depth fun m => m ++ ".run_for_degrees(int(" ++ amount ++ "))"
      | .seconds => t.calls depth fun m => m ++ ".run_for_seconds(" ++ amount ++ ")"
  | goTo ports route position => do
    let t ← ports.targets .motor
    let p ← position.script
    return linesAt depth (serialNote t ++ [wholeDegreesNote]) ++
      t.calls depth fun m => m ++ ".run_to_position(int(" ++ p ++ "), '" ++ route.scriptName ++ "')"
  | start ports direction => do
    let t ← ports.targets .motor
    return t.calls depth fun m => match direction with
      | .clockwise => m ++ ".start()"
      | .counterClockwise => m ++ ".start(-" ++ m ++ ".get_default_speed())"
  | stop ports => do
    let t ← ports.targets .motor
    return t.calls depth fun m => m ++ ".stop()"
  | setSpeed ports speed => do
    let t ← ports.targets .motor
    let s ← speed.script
    return t.calls depth fun m => m ++ ".set_default_speed(int(" ++ s ++ "))"

end MotorAction

namespace MovementAction

/-- A movement of the pair with a heading. -/
def moveText (pair : String) (heading : Heading) (v unit : String) : String :=
  match heading with
  | .forward => pair ++ ".move(" ++ v ++ ", '" ++ unit ++ "')"
  | .back => pair ++ ".move(" ++ negate v ++ ", '" ++ unit ++ "')"
  | .clockwise => pair ++ ".move(" ++ v ++ ", '" ++ unit ++ "', steering=100)"
  | .counterClockwise => pair ++ ".move(" ++ v ++ ", '" ++ unit ++ "', steering=-100)"

/-- The start of a movement of the pair with a heading. -/
def startText (pair : String) : Heading → String
  | .forward => pair ++ ".start()"
  | .back => pair ++ ".start(speed=-" ++ pair ++ ".get_default_speed())"
  | .clockwise => pair ++ ".start(steering=100)"
  | .counterClockwise => pair ++ ".start(steering=-100)"

/-- The lines of a movement, all of them at one depth. -/
def texts : MovementAction → Except CompileError (List String)
  | move heading value unit => do
    let v ← value.script
    return [moveText "motor_pair" heading v unit.scriptName]
  | steer steering value unit => do
    let s ← steering.script
    let v ← value.script
    return ["motor_pair.move(" ++ v ++ ", '" ++ unit.scriptName ++ "', steering=int(" ++ s ++ "))"]
  | start heading => return [startText "motor_pair" heading]
  | startSteering steering => do
    let s ← steering.script
    return ["motor_pair.start(steering=int(" ++ s ++ "))"]
  | stop => return ["motor_pair.stop()"]
  | setSpeed speed => do
    let s ← speed.script
    return ["motor_pair.set_default_speed(int(" ++ s ++ "))"]
  | setMotors ports => ports.pairTexts
  | setRotation distance unit => do
    let d ← distance.script
    match unit with
    | .cm => return ["motor_pair.set_motor_rotation(" ++ d ++ ", 'cm')"]
    | .inches => return ["motor_pair.set_motor_rotation(" ++ d ++ ", 'in')"]
    | .percent => .error (.brokenPromise .percentRotation)

end MovementAction

namespace LightAction

def lines (usesBrightness : Bool) (depth : Nat) : LightAction → Except CompileError (List Line)
  | displayFor pattern duration => do
    let p ← pattern.script
    let d ← duration.script
    return linesAt depth [patternCallText usesBrightness p, "wait_for_seconds(int(" ++ d ++ "))",
      "hub.light_matrix.off()"]
  | display pattern => do
    let p ← pattern.script
    return linesAt depth [patternCallText usesBrightness p]
  | write text => do
    let t ← text.script
    return linesAt depth ["hub.light_matrix.write(" ++ t ++ ")"]
  | off => return linesAt depth ["hub.light_matrix.off()"]
  | setBrightness brightness => do
    let b ← brightness.script
    return linesAt depth [brightnessVariable ++ " = int(" ++ b ++ ")"]
  | setPixel x y brightness => do
    let x ← x.script
    let y ← y.script
    let b ← brightness.script
    return linesAt depth [oneBasedNote,
      "hub.light_matrix.set_pixel(int(" ++ x ++ ")-1, int(" ++ y ++ ")-1, int(" ++ b ++ "))"]
  | setButton color => do
    let c ← color.buttonColor
    return linesAt depth ["hub.status_light.on(" ++ c ++ ")"]
  | lightSensor port pattern => do
    let t ← port.targets .distanceSensor
    let lights ← pattern.sensorLights
    return t.calls depth fun s => s ++ ".light_up(" ++ lights ++ ")"

def needs (usesBrightness : Bool) : LightAction → List Demand
  | displayFor _ _ | display _ | setBrightness _ => Demand.patternDemands usesBrightness
  | write _ | off | setPixel _ _ _ | setButton _ => [.hub]
  | lightSensor port _ => port.devices .distanceSensor

end LightAction

namespace SoundAction

def texts : SoundAction → Except CompileError (List String)
  | play sound => return ["app.play_sound(" ++ quote sound ++ ")", "hub.light_matrix.write('Y')"]
  | start sound => return ["app.start_sound(" ++ quote sound ++ ")", "hub.light_matrix.write('Y')"]
  | beep note duration => do
    let n ← note.script
    let d ← duration.script
    return ["hub.speaker.beep(int(" ++ n ++ "), " ++ d ++ ")"]
  | startBeep note => do
    let n ← note.script
    return ["hub.speaker.start_beep(int(" ++ n ++ "))"]
  | stop => return ["hub.speaker.stop()"]
  | setVolume volume => do
    let v ← volume.script
    return ["hub.speaker.set_volume(int(" ++ v ++ "))"]
  | changeVolume volume => do
    let v ← volume.script
    return ["hub.speaker.set_volume(hub.speaker.get_volume() + int(" ++ v ++ "))"]

def needs : SoundAction → List Demand
  | play _ | start _ => [.app, .hub]
  | _ => [.hub]

end SoundAction

namespace Action

/-- The lines of a statement itself, which follow the comments of its operands. -/
def lines (usesBrightness : Bool) (depth : Nat) : Action → Except CompileError (List Line)
  | data a => a.lines depth
  | motor a => a.lines depth
  | movement a => linesAt depth <$> a.texts
  | light a => a.lines usesBrightness depth
  | sound a => linesAt depth <$> a.texts
  | wait duration => do
    let d ← duration.script
    return linesAt depth ["wait_for_seconds(" ++ d ++ ")"]
  | waitUntil condition => do
    let c ← condition.script
    return linesAt depth ["wait_until(lambda: " ++ c ++ ")"]
  | resetTimer => return linesAt depth ["timer.reset()"]
  | resetYaw => return linesAt depth ["hub.motion_sensor.reset_yaw_angle()"]
  | placeholder block feature => return linesAt depth [placeholderText block feature]

/-- What a statement itself needs, apart from its operands. -/
def needs (usesBrightness : Bool) : Action → List Demand
  | data a => a.needs
  | motor a => a.ports.devices .motor
  | movement _ => [.motorPair]
  | light a => a.needs usesBrightness
  | sound a => a.needs
  | resetTimer => [.timer]
  | resetYaw => [.hub]
  | wait _ | waitUntil _ | placeholder _ _ => []

end Action

namespace Expr

theorem targets_cases {dev : Device} {ports : Expr} {t : Targets}
    (h : ports.targets dev = .ok t) :
    (∃ letters, ports = .ports letters ∧ letters ≠ [] ∧
        t = .objects (letters.map dev.objectName)) ∨
      ∃ r, ports = .ref r ∧ t = .loop (identifier r.name) (dev.className ++ "(port)") := by
  unfold targets at h
  split at h
  · cases h
  · rename_i letters hne
    exact .inl ⟨letters, rfl, by simpa using hne, (Except.ok.inj h).symm⟩
  · exact .inr ⟨_, rfl, (Except.ok.inj h).symm⟩
  · cases h

theorem pairTexts_cases {ports : Expr} {ts : List String} (h : ports.pairTexts = .ok ts) :
    (∃ left right, ports = .ports [left, right] ∧
        ts = ["motor_pair = MotorPair('" ++ String.singleton left ++ "','" ++
          String.singleton right ++ "')"]) ∨
      ∃ r, ports = .ref r ∧ ts = [movementPairNote, "motor_pair = MotorPair(" ++
        identifier r.name ++ "[0], " ++ identifier r.name ++ "[1])"] := by
  unfold pairTexts at h
  split at h
  · exact .inl ⟨_, _, rfl, (Except.ok.inj h).symm⟩
  · exact .inr ⟨_, rfl, (Except.ok.inj h).symm⟩
  · cases h

theorem quiet_of_targets {dev : Device} {ports : Expr} {t : Targets}
    (h : ports.targets dev = .ok t) : ports.demands = [] ∧ ports.notes = [] := by
  obtain ⟨letters, rfl, -⟩ | ⟨r, rfl, -⟩ := targets_cases h
  · exact ⟨rfl, rfl⟩
  · exact ⟨rfl, rfl⟩

theorem quiet_of_digitPattern {e : Expr} {ds : List Char} (h : digitPattern? e = some ds) :
    e.demands = [] ∧ e.notes = [] := by
  unfold digitPattern? at h
  split at h
  · exact ⟨rfl, rfl⟩
  · exact ⟨rfl, rfl⟩
  · simp at h

theorem quiet_of_pairTexts {ports : Expr} {ts : List String} (h : ports.pairTexts = .ok ts) :
    ports.demands = [] ∧ ports.notes = [] := by
  obtain ⟨left, right, rfl, -⟩ | ⟨r, rfl, -⟩ := pairTexts_cases h
  · exact ⟨rfl, rfl⟩
  · exact ⟨rfl, rfl⟩

end Expr

namespace Script.Emit

theorem mapM_device_run (dev : Device) (letters : List Char) (d : Draft) :
    (letters.mapM (device dev)).run d =
      pure (letters.map dev.objectName, d.add (letters.map (Demand.device dev)) []) := by
  induction letters generalizing d with
  | nil => simp
  | cons c cs ih => simp [List.mapM_cons, ih]

@[simp] theorem targets_run (dev : Device) (ports : Expr) (d : Draft) :
    (targets dev ports).run d = ports.targets dev >>= fun t =>
      pure (t, d.add (ports.devices dev) []) := by
  unfold targets Expr.targets
  split <;> simp [Expr.devices, mapM_device_run]

@[simp] theorem calls_run (t : Targets) (call : String → String) (d : Draft) :
    (calls t call).run d = pure ((), d.add [] (t.calls d.indent call)) := by
  cases t with
  | objects names => simp [calls, Targets.calls]
  | loop iterable object =>
      simp [calls, Targets.calls, indented_run]

theorem dataAction_run (a : DataAction) (d : Draft) :
    (dataAction a).run d = a.lines d.indent >>= fun ls =>
      pure ((), d.add (a.needs ++ a.operands.flatMap Expr.demands)
        (linesAt d.indent (a.operands.flatMap Expr.notes) ++ ls)) := by
  cases a with
  | set var value | change var value | delete list value | clear list
  | insert list item value | replace list index item =>
      simp [dataAction, DataAction.lines, DataAction.operands, DataAction.needs]
  | append list item =>
      simp [dataAction, DataAction.lines, DataAction.operands, DataAction.needs, Demand.list]

theorem motorAction_run (a : MotorAction) (d : Draft) :
    (motorAction a).run d = a.lines d.indent >>= fun ls =>
      pure ((), d.add (a.ports.devices .motor ++ a.operands.flatMap Expr.demands)
        (linesAt d.indent (a.operands.flatMap Expr.notes) ++ ls)) := by
  cases h : a.ports.targets .motor with
  | error e =>
    cases a <;> simp_all [motorAction, MotorAction.lines, MotorAction.ports]
  | ok t =>
    obtain ⟨hd, hn⟩ := Expr.quiet_of_targets h
    cases a with
    | run ports direction value unit =>
      cases unit <;> cases hp : t.isPlural <;>
        simp_all [motorAction, MotorAction.lines, MotorAction.ports, MotorAction.operands,
          MotorAction.serialNote, ok_eq_pure]
    | goTo ports route position =>
      cases hp : t.isPlural <;>
        simp_all [motorAction, MotorAction.lines, MotorAction.ports, MotorAction.operands,
          MotorAction.serialNote, ok_eq_pure]
    | start ports direction =>
      cases direction <;>
        simp_all [motorAction, MotorAction.lines, MotorAction.ports, MotorAction.operands,
          ok_eq_pure]
    | stop ports =>
      simp_all [motorAction, MotorAction.lines, MotorAction.ports, MotorAction.operands, ok_eq_pure]
    | setSpeed ports speed =>
      simp_all [motorAction, MotorAction.lines, MotorAction.ports, MotorAction.operands, ok_eq_pure]

theorem movementAction_run (a : MovementAction) (d : Draft) :
    (movementAction a).run d = a.texts >>= fun ts =>
      pure ((), d.add (.motorPair :: a.operands.flatMap Expr.demands)
        (linesAt d.indent (a.operands.flatMap Expr.notes ++ ts))) := by
  cases a with
  | move heading value unit =>
      cases heading <;>
        simp only [movementAction, MovementAction.texts, MovementAction.operands,
          MovementAction.moveText, StateT.run_bind, motorPair_run, pure_bind, expr_run, bind_assoc,
          line_run, Draft.add_add, Draft.add_indent, List.flatMap_cons, List.flatMap_nil,
          List.append_nil, linesAt_append, linesAt_cons, linesAt_nil, List.cons_append,
          List.nil_append]
  | start heading =>
      cases heading <;>
        simp [movementAction, MovementAction.texts, MovementAction.operands,
          MovementAction.startText]
  | setMotors ports =>
      simp only [movementAction, MovementAction.texts, MovementAction.operands]
      cases h : ports.pairTexts with
      | error e =>
          unfold Expr.pairTexts at h
          split at h
          · cases h
          · cases h
          · cases h
            simp
      | ok ts =>
          obtain ⟨hd, hn⟩ := Expr.quiet_of_pairTexts h
          obtain ⟨left, right, rfl, rfl⟩ | ⟨r, rfl, rfl⟩ := Expr.pairTexts_cases h
          · simp [hd, hn, ok_eq_pure]
          · simp [hd, hn, ok_eq_pure]
  | setRotation distance unit =>
      cases unit <;> simp [movementAction, MovementAction.texts, MovementAction.operands]
  | steer _ _ _ | startSteering _ | setSpeed _ | stop =>
      simp [movementAction, MovementAction.texts, MovementAction.operands]

@[simp] theorem patternCall_run (pattern : Expr) (d : Draft) :
    (patternCall pattern).run d = pattern.script >>= fun p =>
      pure (patternCallText d.usesBrightness p,
        d.add (Demand.patternDemands d.usesBrightness ++ pattern.demands)
          (linesAt d.indent pattern.notes)) := by
  cases h : d.usesBrightness <;> simp [patternCall, patternCallText, h]

@[simp] theorem buttonColor_run (color : Expr) (d : Draft) :
    (buttonColor color).run d = color.buttonColor >>= fun c =>
      pure (c, d.add color.demands (linesAt d.indent color.notes)) := by
  cases h : literalIndex? color with
  | some i =>
      obtain ⟨hd, hn⟩ := Expr.quiet_of_literalIndex h
      simp [buttonColor, Expr.buttonColor, h, hd, hn]
  | none => simp [buttonColor, Expr.buttonColor, h]

@[simp] theorem sensorLights_run (pattern : Expr) (d : Draft) :
    (sensorLights pattern).run d = pattern.sensorLights >>= fun t =>
      pure (t, d.add pattern.demands (linesAt d.indent pattern.notes)) := by
  cases h : digitPattern? pattern with
  | some digits =>
      obtain ⟨hd, hn⟩ := Expr.quiet_of_digitPattern h
      simp [sensorLights, Expr.sensorLights, h, hd, hn]
  | none => simp [sensorLights, Expr.sensorLights, h]

theorem hub_mem_patternDemands (usesBrightness : Bool) :
    Demand.hub ∈ Demand.patternDemands usesBrightness := by
  simp [Demand.patternDemands]

theorem lightAction_run (a : LightAction) (d : Draft) :
    (lightAction a).run d = a.lines d.usesBrightness d.indent >>= fun ls =>
      pure ((), d.add (a.needs d.usesBrightness ++ a.operands.flatMap Expr.demands)
        (linesAt d.indent (a.operands.flatMap Expr.notes) ++ ls)) := by
  cases a with
  | displayFor pattern duration =>
      have hhub : ∀ ls, d.add (Demand.patternDemands d.usesBrightness ++
          (pattern.demands ++ (duration.demands ++ [.hub]))) ls =
          d.add (Demand.patternDemands d.usesBrightness ++
            (pattern.demands ++ duration.demands)) ls := by
        intro ls
        rw [← List.append_assoc pattern.demands, ← List.append_assoc]
        apply Draft.add_append_of_mem
        simp [hub_mem_patternDemands]
      simp [lightAction, LightAction.lines, LightAction.operands, LightAction.needs, hhub]
  | display _ | write _ | off | setBrightness _ | setPixel _ _ _ | setButton _ =>
      simp [lightAction, LightAction.lines, LightAction.operands, LightAction.needs]
  | lightSensor port pattern =>
      cases h : port.targets .distanceSensor with
      | error _ => simp [lightAction, LightAction.lines, h]
      | ok t =>
          obtain ⟨hd, hn⟩ := Expr.quiet_of_targets h
          simp [lightAction, LightAction.lines, LightAction.operands, LightAction.needs, h, hd, hn,
            ok_eq_pure]

theorem soundAction_run (a : SoundAction) (d : Draft) :
    (soundAction a).run d = a.texts >>= fun ts =>
      pure ((), d.add (a.needs ++ a.operands.flatMap Expr.demands)
        (linesAt d.indent (a.operands.flatMap Expr.notes ++ ts))) := by
  cases a <;> simp [soundAction, SoundAction.texts, SoundAction.operands, SoundAction.needs]

/-- Generation of a statement without a body adds what the statement and its operands demand, and
the comments of the operands before the lines of the statement, whatever has been declared. -/
theorem action_run (a : Action) (d : Draft) :
    (action a).run d = a.lines d.usesBrightness d.indent >>= fun ls =>
      pure ((), d.add (a.needs d.usesBrightness ++ a.operands.flatMap Expr.demands)
        (linesAt d.indent (a.operands.flatMap Expr.notes) ++ ls)) := by
  cases a with
  | data a => exact dataAction_run a d
  | motor a => exact motorAction_run a d
  | movement a => simp [action, movementAction_run, Action.lines, Action.needs, Action.operands]
  | light a => exact lightAction_run a d
  | sound a => simp [action, soundAction_run, Action.lines, Action.needs, Action.operands]
  | wait _ | waitUntil _ | resetTimer | resetYaw | placeholder _ _ =>
      simp [action, Action.lines, Action.needs, Action.operands]

end Script.Emit

end WordBlocks
