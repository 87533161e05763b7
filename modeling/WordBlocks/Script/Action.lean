import WordBlocks.Script.Expr

/-!
Statements without a body as Python lines, one family of the palette after the other. Operands are
worked out in the order of their slots, before any line of the statement itself is added.
-/

namespace WordBlocks

open Choice (tag)

/-- The way of a motor to a position, as the script names it. -/
def Route.scriptName : Route → String
  | shortest => "shortest path"
  | clockwise => "clockwise"
  | counterClockwise => "counterclockwise"

/-- The unit of a movement, as the script names it. -/
def TravelUnit.scriptName : TravelUnit → String
  | cm => "cm"
  | inches => "in"
  | rotations => "rotations"
  | degrees => "degrees"
  | seconds => "seconds"

namespace Script

def serialMotorsNote : List String :=
  ["# Note: the word blocks run these motors at the same time,",
    "# here they run one after the other."]

def wholeDegreesNote : String :=
  "# Note: motor positions are whole degrees, so the value is converted with int()."

def oneBasedNote : String :=
  "# Note: word-block positions start at 1, Python positions start at 0."

def movementPairNote : String :=
  "# Note: this fails if the list does not hold at least two ports."

/-- Where a statement for several ports sends its calls: to objects one by one, or in a loop over
the ports in a list variable. -/
inductive Targets where
  | objects (names : List String)
  | loop (iterable object : String)
deriving DecidableEq, Repr

/-- Whether there may be more than one target. -/
def Targets.isPlural : Targets → Bool
  | objects names => 1 < names.length
  | loop _ _ => true

/-- The digits of a brightness pattern that is written directly in the program. -/
def digitPattern? (pattern : Expr) : Option (List Char) :=
  let digits? := match pattern with
    | .text s => some (Text.trimChars s.toList)
    | .number x =>
      if x.isIntegral && (x.isZero || !x.negative) then
        some (decimalDigits (x.clampedInt 0 unsignedMax).toNat)
      else none
    | _ => none
  digits?.filter fun ds => !ds.isEmpty && ds.all Char.isDigit

/-- The brightness in percent for one digit of a pattern, whose greatest digit is full
brightness. -/
def digitPercent (c : Char) : Nat :=
  (c.toNat - '0'.toNat) * 100 / 9

namespace Emit

/-- Finds the targets for the ports of a statement and declares their objects. -/
def targets (d : Device) (ports : Expr) : Emit Targets :=
  match ports with
  | .ports [] => throw (.brokenPromise .emptyPorts)
  | .ports letters => return .objects (← letters.mapM (device d))
  | .ref r => return .loop (identifier r.name) (d.className ++ "(port)")
  | other => throw (.unsupportedPort (.operand other.label))

/-- Adds one call for each target. -/
def calls (t : Targets) (call : String → String) : Emit Unit :=
  match t with
  | .objects names => lines (names.map call)
  | .loop iterable object => do
    line ("for port in " ++ iterable ++ ":")
    indented (line (call object))

def dataAction : DataAction → Emit Unit
  | .set var value => do
    let v ← expr value
    line (identifier var.name ++ " = " ++ v)
  | .change var value => do
    let v ← expr value
    line (identifier var.name ++ " += " ++ v)
  | .append list item => do
    let name := identifier list.name
    declare (.list name) [name ++ " = []"]
    let v ← expr item
    line (name ++ ".append(" ++ v ++ ")")
  | .delete list index => do
    let i ← expr index
    line oneBasedNote
    line ("del " ++ identifier list.name ++ "[int(" ++ i ++ ")-1]")
  | .clear list => line (identifier list.name ++ ".clear()")
  | .insert list item index => do
    let v ← expr item
    let i ← expr index
    line oneBasedNote
    line (identifier list.name ++ ".insert(int(" ++ i ++ ")-1, " ++ v ++ ")")
  | .replace list index item => do
    let i ← expr index
    let v ← expr item
    line oneBasedNote
    line (identifier list.name ++ "[int(" ++ i ++ ")-1] = " ++ v)

def motorAction : MotorAction → Emit Unit
  | .run ports direction value unit => do
    let t ← targets .motor ports
    let v ← expr value
    if t.isPlural then lines serialMotorsNote
    let amount := if direction = .counterClockwise then negate v else v
    match unit with
    | .rotations => calls t fun m => m ++ ".run_for_rotations(" ++ amount ++ ")"
    | .degrees => do
      line wholeDegreesNote
      calls t fun m => m ++ ".run_for_degrees(int(" ++ amount ++ "))"
    | .seconds => calls t fun m => m ++ ".run_for_seconds(" ++ amount ++ ")"
  | .goTo ports route position => do
    let t ← targets .motor ports
    let p ← expr position
    if t.isPlural then lines serialMotorsNote
    line wholeDegreesNote
    calls t fun m => m ++ ".run_to_position(int(" ++ p ++ "), '" ++ route.scriptName ++ "')"
  | .start ports direction => do
    let t ← targets .motor ports
    match direction with
    | .clockwise => calls t fun m => m ++ ".start()"
    | .counterClockwise => calls t fun m => m ++ ".start(-" ++ m ++ ".get_default_speed())"
  | .stop ports => do
    let t ← targets .motor ports
    calls t fun m => m ++ ".stop()"
  | .setSpeed ports speed => do
    let t ← targets .motor ports
    let s ← expr speed
    calls t fun m => m ++ ".set_default_speed(int(" ++ s ++ "))"

def movementAction : MovementAction → Emit Unit
  | .move heading value unit => do
    let pair ← motorPair
    let v ← expr value
    let unit := unit.scriptName
    line (match heading with
      | .forward => pair ++ ".move(" ++ v ++ ", '" ++ unit ++ "')"
      | .back => pair ++ ".move(" ++ negate v ++ ", '" ++ unit ++ "')"
      | .clockwise => pair ++ ".move(" ++ v ++ ", '" ++ unit ++ "', steering=100)"
      | .counterClockwise => pair ++ ".move(" ++ v ++ ", '" ++ unit ++ "', steering=-100)")
  | .steer steering value unit => do
    let pair ← motorPair
    let s ← expr steering
    let v ← expr value
    line (pair ++ ".move(" ++ v ++ ", '" ++ unit.scriptName ++ "', steering=int(" ++ s ++ "))")
  | .start heading => do
    let pair ← motorPair
    line (match heading with
      | .forward => pair ++ ".start()"
      | .back => pair ++ ".start(speed=-" ++ pair ++ ".get_default_speed())"
      | .clockwise => pair ++ ".start(steering=100)"
      | .counterClockwise => pair ++ ".start(steering=-100)")
  | .startSteering steering => do
    let pair ← motorPair
    let s ← expr steering
    line (pair ++ ".start(steering=int(" ++ s ++ "))")
  | .stop => do
    let pair ← motorPair
    line (pair ++ ".stop()")
  | .setSpeed speed => do
    let pair ← motorPair
    let s ← expr speed
    line (pair ++ ".set_default_speed(int(" ++ s ++ "))")
  | .setMotors ports => do
    let pair ← motorPair
    match ports with
    | .ports [left, right] =>
      line (pair ++ " = MotorPair('" ++ String.singleton left ++ "','" ++
        String.singleton right ++ "')")
    | .ref r => do
      let name := identifier r.name
      line movementPairNote
      line (pair ++ " = MotorPair(" ++ name ++ "[0], " ++ name ++ "[1])")
    | other => throw (.unsupportedPort (.pairOperand other.label))
  | .setRotation distance unit => do
    let pair ← motorPair
    let d ← expr distance
    match unit with
    | .cm => line (pair ++ ".set_motor_rotation(" ++ d ++ ", 'cm')")
    | .inches => line (pair ++ ".set_motor_rotation(" ++ d ++ ", 'in')")
    | .percent => throw (.brokenPromise .percentRotation)

/-- The call that shows a pattern on the light matrix. -/
def patternCall (pattern : Expr) : Emit String := do
  requirePattern
  let p ← expr pattern
  if (← get).usesBrightness then
    return patternFunction ++ "(" ++ p ++ ", " ++ brightnessVariable ++ ")"
  else
    return patternFunction ++ "(" ++ p ++ ")"

/-- The colour of the centre button: a name, or an entry of the palette chosen when the script
runs. -/
def buttonColor (color : Expr) : Emit String :=
  match literalIndex? color with
  | some i => (ButtonColor.ofIndex i).map ButtonColor.scriptName
  | none => return buttonColorTable ++ "[int(" ++ (← expr color) ++ ")]"

/-- The arguments that light up a distance sensor: one percentage for each digit of the pattern. -/
def sensorLights (pattern : Expr) : Emit String :=
  match digitPattern? pattern with
  | some digits => return ", ".intercalate (digits.map fun c => toString (digitPercent c))
  | none => return "*[int(int(c)*100/9) for c in str(" ++ (← expr pattern) ++ ")]"

def lightAction : LightAction → Emit Unit
  | .displayFor pattern duration => do
    let call ← patternCall pattern
    let d ← expr duration
    let h ← hub
    line call
    line ("wait_for_seconds(int(" ++ d ++ "))")
    line (h ++ ".light_matrix.off()")
  | .display pattern => do
    let call ← patternCall pattern
    line call
  | .write text => do
    let h ← hub
    let t ← expr text
    line (h ++ ".light_matrix.write(" ++ t ++ ")")
  | .off => do
    let h ← hub
    line (h ++ ".light_matrix.off()")
  | .setBrightness brightness => do
    requirePattern
    let b ← expr brightness
    line (brightnessVariable ++ " = int(" ++ b ++ ")")
  | .setPixel x y brightness => do
    let h ← hub
    let x ← expr x
    let y ← expr y
    let b ← expr brightness
    line oneBasedNote
    line (h ++ ".light_matrix.set_pixel(int(" ++ x ++ ")-1, int(" ++ y ++ ")-1, int(" ++ b ++ "))")
  | .setButton color => do
    let h ← hub
    let c ← buttonColor color
    line (h ++ ".status_light.on(" ++ c ++ ")")
  | .lightSensor port pattern => do
    let t ← targets .distanceSensor port
    let lights ← sensorLights pattern
    calls t fun s => s ++ ".light_up(" ++ lights ++ ")"

def soundAction : SoundAction → Emit Unit
  | .play sound => do
    let a ← app
    let h ← hub
    line (a ++ ".play_sound(" ++ quote sound ++ ")")
    line (h ++ ".light_matrix.write('Y')")
  | .start sound => do
    let a ← app
    let h ← hub
    line (a ++ ".start_sound(" ++ quote sound ++ ")")
    line (h ++ ".light_matrix.write('Y')")
  | .beep note duration => do
    let h ← hub
    let n ← expr note
    let d ← expr duration
    line (h ++ ".speaker.beep(int(" ++ n ++ "), " ++ d ++ ")")
  | .startBeep note => do
    let h ← hub
    let n ← expr note
    line (h ++ ".speaker.start_beep(int(" ++ n ++ "))")
  | .stop => do
    let h ← hub
    line (h ++ ".speaker.stop()")
  | .setVolume volume => do
    let h ← hub
    let v ← expr volume
    line (h ++ ".speaker.set_volume(int(" ++ v ++ "))")
  | .changeVolume volume => do
    let h ← hub
    let v ← expr volume
    line (h ++ ".speaker.set_volume(" ++ h ++ ".speaker.get_volume() + int(" ++ v ++ "))")

/-- Adds the lines of a statement without a body. -/
def action : Action → Emit Unit
  | .data a => dataAction a
  | .motor a => motorAction a
  | .movement a => movementAction a
  | .light a => lightAction a
  | .sound a => soundAction a
  | .wait duration => do
    let d ← expr duration
    line ("wait_for_seconds(" ++ d ++ ")")
  | .waitUntil condition => do
    let c ← expr condition
    line ("wait_until(lambda: " ++ c ++ ")")
  | .resetTimer => do
    let t ← timer
    line (t ++ ".reset()")
  | .resetYaw => do
    let h ← hub
    line (h ++ ".motion_sensor.reset_yaw_angle()")
  | .placeholder block feature => placeholder block feature

end Emit

end Script

end WordBlocks
