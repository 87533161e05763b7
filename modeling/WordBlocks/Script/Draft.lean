import WordBlocks.Program.Stmt
import WordBlocks.Script.Identifier
import WordBlocks.Script.Literal

/-!
Scripts under construction. A draft collects the lines of a script in its sections, and remembers
which names have been announced so that each is declared once. Generation runs in the monad `Emit`,
which carries a draft and may fail.
-/

namespace WordBlocks.Script

/-- Something that a script declares at most once. -/
inductive Symbol where
  | object (name : String)
  | list (name : String)
  | patternFunction
  | randomImport
deriving DecidableEq, Repr

/-- A script under construction. -/
structure Draft where
  preamble : String
  declarations : List String
  functions : List String
  body : List String
  declared : List Symbol
  /-- The number of tabs before the next body line. -/
  indent : Nat
  /-- Whether the program sets the brightness of the light matrix anywhere. -/
  usesBrightness : Bool
deriving Repr

/-- A step of the generation. -/
abbrev Emit := StateT Draft (Except CompileError)

def importLines : String :=
  "from mindstorms import MSHub, Motor, MotorPair, ColorSensor, DistanceSensor, App\n" ++
  "from mindstorms.control import wait_for_seconds, wait_until, Timer\n" ++
  "from mindstorms.operator import greater_than, greater_than_or_equal_to, less_than, " ++
    "less_than_or_equal_to, equal_to, not_equal_to\n" ++
  "import math\n"

def randomImportLine : String :=
  "from random import randint\n"

/-- A draft without lines. -/
def Draft.empty (usesBrightness : Bool) : Draft where
  preamble := importLines
  declarations := []
  functions := []
  body := []
  declared := []
  indent := 0
  usesBrightness := usesBrightness

/-- Tabs before a line. -/
def tabs (n : Nat) : String :=
  String.ofList (List.replicate n '\t')

namespace Emit

/-- Adds a line to the body, at the present indentation. -/
def line (text : String) : Emit Unit :=
  modify fun d => { d with body := d.body ++ [tabs d.indent ++ text] }

/-- Adds lines to the body. -/
def lines (texts : List String) : Emit Unit :=
  texts.forM line

/-- Runs a step one tab further in. -/
def indented (step : Emit Unit) : Emit Unit := do
  modify fun d => { d with indent := d.indent + 1 }
  step
  modify fun d => { d with indent := d.indent - 1 }

/-- Declares something unless that has been done before. -/
def declare (symbol : Symbol) (texts : List String) : Emit Unit :=
  modify fun d =>
    if d.declared.contains symbol then d
    else { d with
      declared := d.declared ++ [symbol]
      declarations := d.declarations ++ texts }

/-- Declares an object and gives its name. -/
def object (name constructor : String) : Emit String := do
  declare (.object name) [name ++ " = " ++ constructor]
  return name

def hub : Emit String := object "hub" "MSHub()"

def app : Emit String := object "app" "App()"

def timer : Emit String := object "timer" "Timer()"

/-- Declares the pair of motors that moves the robot, on the ports and with the speed that word
blocks assume. -/
def motorPair : Emit String := do
  declare (.object "motor_pair")
    ["motor_pair = MotorPair('A','B')",
      "motor_pair.set_default_speed(50)  # Note: word-block movement starts at 50% speed."]
  return "motor_pair"

/-- Declares the object for the device on a port. -/
def device (d : Device) (port : Char) : Emit String := do
  let name := d.objectName port
  declare (.object name)
    [name ++ " = " ++ d.className ++ "('" ++ String.singleton port ++ "')"]
  return name

/-- Imports the generator of random integers. -/
def requireRandom : Emit Unit :=
  modify fun d =>
    if d.declared.contains .randomImport then d
    else { d with
      declared := d.declared ++ [.randomImport]
      preamble := d.preamble ++ randomImportLine }

/-- The function that shows a pattern of 25 digits on the light matrix. -/
def patternFunctionLines : List String :=
  ["def " ++ patternFunction ++ "(pattern, brightness=100):",
    "\tfor i in range(25):",
    "\t\thub.light_matrix.set_pixel(i%5, int(i/5), int(brightness*int(pattern[i])/9.0))"]

/-- Defines the function that shows a pattern, and the brightness variable if the program sets
it. -/
def requirePattern : Emit Unit := do
  let _ ← hub
  modify fun d =>
    if d.declared.contains .patternFunction then d
    else { d with
      declared := d.declared ++ [.patternFunction]
      functions := d.functions ++ patternFunctionLines }
  if (← get).usesBrightness then
    declare (.object brightnessVariable) [brightnessVariable ++ " = 100"]

/-- Adds a comment in place of a block that a script cannot express. -/
def placeholder (block : String) (feature : Option MissingFeature) : Emit Unit :=
  line ("# Placeholder for the " ++ block ++ " block. Note: that " ++
    (feature.map MissingFeature.description).getD block ++
    " is not supported in Python at the moment.")

end Emit

end WordBlocks.Script
