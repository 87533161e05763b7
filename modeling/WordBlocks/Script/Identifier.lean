import WordBlocks.Text.Blank

/-!
Names in generated scripts. A variable or list of the project keeps its name as far as a Python
identifier allows, and never takes a keyword or a name that the script uses itself.
-/

namespace WordBlocks.Script

/-- A kind of device that is plugged into a port. -/
inductive Device where
  | motor
  | colorSensor
  | distanceSensor
deriving DecidableEq, Repr

namespace Device

def all : List Device :=
  [motor, colorSensor, distanceSensor]

/-- The class whose objects stand for the device. -/
def className : Device → String
  | motor => "Motor"
  | colorSensor => "ColorSensor"
  | distanceSensor => "DistanceSensor"

/-- What the names of the device's objects begin with. -/
def stem : Device → String
  | motor => "motor"
  | colorSensor => "color_sensor"
  | distanceSensor => "distance_sensor"

/-- The name of the object for the device on a port. -/
def objectName (d : Device) (port : Char) : String :=
  d.stem ++ "_" ++ String.singleton port.toLower

end Device

/-- The keywords of Python. -/
def keywords : List String :=
  ["False", "None", "True", "and", "as", "assert", "async", "await", "break", "class", "continue",
    "def", "del", "elif", "else", "except", "finally", "for", "from", "global", "if", "import",
    "in", "is", "lambda", "nonlocal", "not", "or", "pass", "raise", "return", "try", "while",
    "with", "yield"]

/-- The function that shows a pattern on the light matrix. -/
def patternFunction : String := "_turn_on_pattern"

/-- The variable that holds the brightness of the light matrix. -/
def brightnessVariable : String := "_brightness"

/-- The names that a script defines, imports or calls, those of devices apart. -/
def ownNames : List String :=
  ["hub", "app", "timer", "motor_pair", "port", "_", "math", "randint", brightnessVariable,
    patternFunction, "MSHub", "Motor", "MotorPair", "ColorSensor", "DistanceSensor", "App", "Timer",
    "wait_for_seconds", "wait_until", "greater_than", "greater_than_or_equal_to", "less_than",
    "less_than_or_equal_to", "equal_to", "not_equal_to", "abs", "float", "int", "len", "max", "min",
    "pow", "range", "str"]

/-- The names of the objects for the devices on the six ports. -/
def deviceNames : List String :=
  Device.all.flatMap fun d => ['a', 'b', 'c', 'd', 'e', 'f'].map d.objectName

/-- The names that no variable or list of the project may take. -/
def isReserved (name : String) : Bool :=
  keywords.contains name || ownNames.contains name || deviceNames.contains name

/-- The characters of an identifier: ASCII letters and digits, and the underscore. -/
def isNameChar (c : Char) : Bool :=
  c.isAlphanum || c == '_'

/-- The characters of a name without surrounding blanks, those that an identifier cannot have
replaced by underscores, and with an underscore in front if it needs one. -/
def plainName (cs : List Char) : List Char :=
  let body := (Text.trimChars cs).map fun c => if isNameChar c then c else '_'
  match body with
  | [] => ['_']
  | c :: _ => if c.isDigit then '_' :: body else body

/-- The identifier for a name of the project. A reserved one gets an underscore at its end. -/
def identifier (name : String) : String :=
  let plain := String.ofList (plainName name.toList)
  if isReserved plain then plain ++ "_" else plain

end WordBlocks.Script
