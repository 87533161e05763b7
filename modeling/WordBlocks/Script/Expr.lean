import WordBlocks.Number.Numeral
import WordBlocks.Script.Draft

/-!
Expressions as Python text. `Emit.expr` gives the text of an expression and announces the objects it
uses. The only body lines it adds are the comments for key presses, which a hub cannot notice.
-/

namespace WordBlocks

open Choice (tag)

/-- The Python operator of a comparison. -/
def Comparison.symbol : Comparison → String
  | less => "<"
  | equal => "=="
  | greater => ">"

/-- The call of a function up to its first argument. -/
def MathFunction.opening : MathFunction → String
  | abs => "abs("
  | floor => "math.floor("
  | ceiling => "math.ceil("
  | sqrt => "math.sqrt("
  | sin => "math.sin("
  | cos => "math.cos("
  | tan => "math.tan("
  | asin => "math.asin("
  | acos => "math.acos("
  | atan => "math.atan("
  | atan2 => "math.atan2("
  | ln => "math.log("
  | log => "math.log2("
  | exp => "pow(math.e, "
  | pow10 => "pow(10, "
  | pow => "pow("
  | min => "min("
  | max => "max("
  | copySign => "math.copysign("
  | hypot => "math.hypot("

/-- The text of a reporter with one operand. A function of two arguments cannot do with one. -/
def UnaryOp.text (op : UnaryOp) (a : String) : Except CompileError String :=
  match op with
  | .not => .ok ("not (" ++ a ++ ")")
  | .length => .ok ("len(str(" ++ a ++ "))")
  | .round => .ok ("int(" ++ a ++ " + 0.5)")
  | .math f =>
    if f.arity = 2 then .error (.brokenPromise (.missingArgument (tag f)))
    else .ok (f.opening ++ a ++ ")")

/-- The text of a reporter with two operands. A function of one argument ignores the second. -/
def BinaryOp.text (op : BinaryOp) (a b : String) : String :=
  match op with
  | .arithmetic op => "(" ++ a ++ " " ++ tag op ++ " " ++ b ++ ")"
  | .comparison op => a ++ " " ++ op.symbol ++ " " ++ b
  | .and => "(" ++ a ++ " and " ++ b ++ ")"
  | .or => "(" ++ a ++ " or " ++ b ++ ")"
  | .join => "(str(" ++ a ++ ") + str(" ++ b ++ "))"
  | .letterOf => "str(" ++ b ++ ")[int(" ++ a ++ ")-1]"
  | .contains => "(str(" ++ b ++ ").lower() in str(" ++ a ++ ").lower())"
  | .modulo => "(" ++ a ++ " % " ++ b ++ ")"
  | .math f =>
    if f.arity = 2 then f.opening ++ a ++ ", " ++ b ++ ")" else f.opening ++ a ++ ")"
  | .random => "randint(int(" ++ a ++ "), int(" ++ b ++ "))"

/-- The text of a question about a list. -/
def ListQuery.text (q : ListQuery) (list operand : String) : String :=
  match q with
  | .itemAt => list ++ "[int(" ++ operand ++ ")-1]"
  | .indexOf => "(" ++ list ++ ".index(" ++ operand ++ ")+1)"
  | .contains => "(" ++ operand ++ " in " ++ list ++ ")"

/-- The method that measures a distance. -/
def DistanceUnit.method : DistanceUnit → String
  | cm => "get_distance_cm"
  | inches => "get_distance_inches"
  | percent => "get_distance_percentage"

/-- What the colour sensor returns for a colour. -/
def SensorColor.scriptName : SensorColor → String
  | none => "None"
  | black => "'black'"
  | violet => "'violet'"
  | blue => "'blue'"
  | azure => "'cyan'"
  | green => "'green'"
  | yellow => "'yellow'"
  | red => "'red'"
  | white => "'white'"

/-- What the light of the centre button takes for a colour. -/
def ButtonColor.scriptName : ButtonColor → String
  | black => "'black'"
  | violet => "'violet'"
  | blue => "'blue'"
  | azure => "'azure'"
  | green => "'green'"
  | yellow => "'yellow'"
  | red => "'red'"
  | white => "'white'"

/-- What the hub returns for a gesture. -/
def Gesture.scriptName : Gesture → String
  | shaken => "'shaken'"
  | tapped => "'tapped'"
  | falling => "'falling'"

namespace Script

/-- A dictionary display. -/
def dictionary (entries : List (String × String)) : String :=
  "\x7b" ++ ", ".intercalate (entries.map fun e => e.1 ++ ": " ++ e.2) ++ "\x7d"

/-- From the reading of the colour sensor to the index of the colour. -/
def colorIndexTable : String :=
  dictionary (SensorColor.all.map fun c => (c.scriptName, toString c.index))

/-- From the index of a colour to the reading of the colour sensor. -/
def colorNameTable : String :=
  dictionary (SensorColor.all.map fun c => (toString c.index, c.scriptName))

/-- From the index of a colour to the colour of the centre button. -/
def buttonColorTable : String :=
  dictionary (ButtonColor.all.map fun c => (toString c.index, c.scriptName))

/-- From a gesture to its number. -/
def gestureTable : String :=
  dictionary (("None", "-1") ::
    (Choice.all : List Gesture).zipIdx.map fun g => (g.1.scriptName, toString g.2))

/-- From an orientation to its number. -/
def orientationTable : String :=
  dictionary
    ((Choice.all : List Orientation).zipIdx.map fun o => ("'" ++ tag o.1 ++ "'", toString o.2))

/-- A palette index that is written directly in the program. A number is clamped to a signed 64-bit
word. -/
def literalIndex? : Expr → Option Int
  | .number x => if x.isIntegral then some (x.clampedInt wordMin wordMax) else none
  | .text s => wordInteger? (Text.trimChars s.toList)
  | _ => none

end Script

/-- The device that a query asks. -/
def DeviceQuery.target : DeviceQuery → Script.Device
  | motorPosition | motorSpeed => .motor
  | color | reflectedLight => .colorSensor
  | distance _ => .distanceSensor

/-- The text of a query to a device. -/
def DeviceQuery.text (q : DeviceQuery) (device : String) : String :=
  match q with
  | motorPosition => device ++ ".get_position()"
  | motorSpeed => device ++ ".get_speed()"
  | color => Script.colorIndexTable ++ "[" ++ device ++ ".get_color()]"
  | reflectedLight => device ++ ".get_reflected_light()"
  | distance unit => device ++ "." ++ unit.method ++ "()"

namespace Script.Emit

/-- The text of a reporter without operands. -/
def reading : Reading → Emit String
  | .gesture => return gestureTable ++ "[" ++ (← hub) ++ ".motion_sensor.get_gesture()]"
  | .isGesture g => return (← hub) ++ ".motion_sensor.get_gesture() == " ++ g.scriptName
  | .orientation =>
    return orientationTable ++ "[" ++ (← hub) ++ ".motion_sensor.get_orientation()]"
  | .isOrientation o =>
    return (← hub) ++ ".motion_sensor.get_orientation() == '" ++ tag o ++ "'"
  | .angle axis => return (← hub) ++ ".motion_sensor.get_" ++ tag axis ++ "_angle()"
  | .button b s => return (← hub) ++ "." ++ tag b ++ "_button.is_" ++ tag s ++ "()"
  | .timer => return (← timer) ++ ".now()"
  | .volume => return (← hub) ++ ".speaker.get_volume()"

/-- The object for the device on a single port, or on the first port of a list. -/
def singleDevice (d : Device) (port : Expr) : Emit String :=
  match port with
  | .ports [letter] => device d letter
  | .ref r => return d.className ++ "(" ++ identifier r.name ++ "[0])"
  | other => throw (.unsupportedPort (.operand other.label))

/-- The test whether the colour sensor sees a colour from the palette. -/
def literalColorTest (sensor : String) (i : Int) : Except CompileError String :=
  (SensorColor.ofIndex i).map fun
    | .none => sensor ++ ".get_color() is None"
    | c => sensor ++ ".get_color() == " ++ c.scriptName

/-- The text of an expression. -/
def expr : Expr → Emit String
  | .number x => return numberText x
  | .text s => return quote s
  | .ports letters =>
    return "[" ++ ", ".intercalate (letters.map fun c => "'" ++ String.singleton c ++ "'") ++ "]"
  | .ref r => return identifier r.name
  | .reading r => reading r
  | .unary op e => do
    let a ← expr e
    op.text a
  | .binary op left right => do
    if op = .random then requireRandom
    let a ← expr left
    let b ← expr right
    return op.text a b
  | .between value low high => do
    let v ← expr value
    let a ← expr low
    let b ← expr high
    return "(" ++ a ++ " <= " ++ v ++ " <= " ++ b ++ ")"
  | .device q port => do
    let d ← singleDevice q.target port
    return q.text d
  | .deviceTest test port value =>
    match test with
    | .color => do
      let sensor ← singleDevice .colorSensor port
      match literalIndex? value with
      | some i => literalColorTest sensor i
      | none =>
        let index ← expr value
        return sensor ++ ".get_color() == " ++ colorNameTable ++ "[int(" ++ index ++ ")]"
    | .reflectedLight op => do
      let sensor ← singleDevice .colorSensor port
      let v ← expr value
      return sensor ++ ".get_reflected_light() " ++ op.symbol ++ " " ++ v
    | .distance op unit => do
      let sensor ← singleDevice .distanceSensor port
      let v ← expr value
      return sensor ++ "." ++ unit.method ++ "() " ++ op.symbol ++ " " ++ v
  | .keyPressed _ => do
    placeholder "key pressed" none
    return "False"
  | .listLength list => return "len(" ++ identifier list.name ++ ")"
  | .listQuery q list operand => do
    let a ← expr operand
    return q.text (identifier list.name) a

end Script.Emit

end WordBlocks
