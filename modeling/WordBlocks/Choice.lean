import WordBlocks.Error
import WordBlocks.Text.Blank

/-!
The closed sets of values that a block's drop-down fields offer. Each set is an instance of
`Choice`: its values in order, and the spellings that a project file may use for a value. The first
spelling is the tag that the rest of the library prints.
-/

namespace WordBlocks

/-- A closed set of field values. -/
class Choice (α : Type) where
  /-- The name of the set in messages. -/
  kind : String
  /-- All values, in order. -/
  all : List α
  /-- The tag of a value. -/
  tag : α → String
  /-- Further spellings of a value. -/
  aliases : α → List String

namespace Choice

/-- Whether a value may be spelled so. -/
def spells {α : Type} [Choice α] (a : α) (s : String) : Bool :=
  tag a == s || (aliases a).contains s

/-- Reads the text of a field; blanks around it do not matter. -/
def ofField {α : Type} [Choice α] (raw : String) : Except CompileError α :=
  let s := Text.trim raw
  match (all : List α).find? (spells · s) with
  | some a => .ok a
  | none => .error (.invalidChoice (kind α) s)

end Choice

/-- The sense in which a motor turns. -/
inductive TurnDirection where
  | clockwise
  | counterClockwise
deriving DecidableEq, Repr

instance : Choice TurnDirection where
  kind := "TurnDirection"
  all := [.clockwise, .counterClockwise]
  tag
    | .clockwise => "clockwise"
    | .counterClockwise => "counterclockwise"
  aliases
    | .clockwise => ["cw"]
    | .counterClockwise => ["ccw"]

/-- What the length of a motor run is measured in. -/
inductive MotorUnit where
  | rotations
  | seconds
  | degrees
deriving DecidableEq, Repr

instance : Choice MotorUnit where
  kind := "Unit"
  all := [.rotations, .seconds, .degrees]
  tag
    | .rotations => "rotations"
    | .seconds => "seconds"
    | .degrees => "degrees"
  aliases _ := []

/-- The way in which a motor goes to a position. -/
inductive Route where
  | shortest
  | clockwise
  | counterClockwise
deriving DecidableEq, Repr

instance : Choice Route where
  kind := "GoDirection"
  all := [.shortest, .clockwise, .counterClockwise]
  tag
    | .shortest => "shortest"
    | .clockwise => "clockwise"
    | .counterClockwise => "counterclockwise"
  aliases _ := []

/-- What a distance is measured in. -/
inductive DistanceUnit where
  | cm
  | inches
  | percent
deriving DecidableEq, Repr

instance : Choice DistanceUnit where
  kind := "DistanceUnit"
  all := [.cm, .inches, .percent]
  tag
    | .cm => "cm"
    | .inches => "inches"
    | .percent => "%"
  aliases
    | .cm => []
    | .inches => ["in"]
    | .percent => ["percent"]

/-- A comparison of two numbers. -/
inductive Comparison where
  | less
  | equal
  | greater
deriving DecidableEq, Repr

instance : Choice Comparison where
  kind := "Comparator"
  all := [.less, .equal, .greater]
  tag
    | .less => "<"
    | .equal => "="
    | .greater => ">"
  aliases _ := []

/-- The side of the hub that points up. -/
inductive Orientation where
  | front
  | back
  | up
  | down
  | leftSide
  | rightSide
deriving DecidableEq, Repr

instance : Choice Orientation where
  kind := "HubOrientation"
  all := [.front, .back, .up, .down, .leftSide, .rightSide]
  tag
    | .front => "front"
    | .back => "back"
    | .up => "up"
    | .down => "down"
    | .leftSide => "leftside"
    | .rightSide => "rightside"
  aliases _ := []

/-- An axis of rotation of the hub. -/
inductive Axis where
  | pitch
  | roll
  | yaw
deriving DecidableEq, Repr

instance : Choice Axis where
  kind := "AngleUnit"
  all := [.pitch, .roll, .yaw]
  tag
    | .pitch => "pitch"
    | .roll => "roll"
    | .yaw => "yaw"
  aliases _ := []

/-- A button of the hub. -/
inductive HubButton where
  | left
  | right
deriving DecidableEq, Repr

instance : Choice HubButton where
  kind := "ButtonType"
  all := [.left, .right]
  tag
    | .left => "left"
    | .right => "right"
  aliases _ := []

/-- The state of a button. -/
inductive ButtonState where
  | pressed
  | released
deriving DecidableEq, Repr

instance : Choice ButtonState where
  kind := "ButtonAction"
  all := [.pressed, .released]
  tag
    | .pressed => "pressed"
    | .released => "released"
  aliases _ := []

/-- Something done to the hub as a whole. -/
inductive Gesture where
  | shaken
  | tapped
  | falling
deriving DecidableEq, Repr

instance : Choice Gesture where
  kind := "HubInteraction"
  all := [.shaken, .tapped, .falling]
  tag
    | .shaken => "shake"
    | .tapped => "tapped"
    | .falling => "falling"
  aliases
    | .shaken => ["shaken"]
    | .tapped => ["tap"]
    | .falling => ["freefall"]

/-- The way in which the robot moves. -/
inductive Heading where
  | forward
  | back
  | clockwise
  | counterClockwise
deriving DecidableEq, Repr

instance : Choice Heading where
  kind := "MoveDirection"
  all := [.forward, .back, .clockwise, .counterClockwise]
  tag
    | .forward => "forward"
    | .back => "back"
    | .clockwise => "clockwise"
    | .counterClockwise => "counterclockwise"
  aliases
    | .back => ["backward"]
    | _ => []

/-- What the length of a movement is measured in. -/
inductive TravelUnit where
  | cm
  | inches
  | rotations
  | degrees
  | seconds
deriving DecidableEq, Repr

instance : Choice TravelUnit where
  kind := "MoveUnit"
  all := [.cm, .inches, .rotations, .degrees, .seconds]
  tag
    | .cm => "cm"
    | .inches => "inches"
    | .rotations => "rotations"
    | .degrees => "degrees"
    | .seconds => "seconds"
  aliases
    | .inches => ["in"]
    | _ => []

/-- An arithmetic operator. -/
inductive Arithmetic where
  | add
  | sub
  | mul
  | div
deriving DecidableEq, Repr

instance : Choice Arithmetic where
  kind := "ArithmeticOperator"
  all := [.add, .sub, .mul, .div]
  tag
    | .add => "+"
    | .sub => "-"
    | .mul => "*"
    | .div => "/"
  aliases _ := []

/-- A named mathematical function. -/
inductive MathFunction where
  | abs
  | floor
  | ceiling
  | sqrt
  | sin
  | cos
  | tan
  | asin
  | acos
  | atan
  | atan2
  | ln
  | log
  | exp
  | pow10
  | pow
  | min
  | max
  | copySign
  | hypot
deriving DecidableEq, Repr

instance : Choice MathFunction where
  kind := "MathFunction"
  all := [.abs, .floor, .ceiling, .sqrt, .sin, .cos, .tan, .asin, .acos, .atan, .atan2, .ln, .log,
    .exp, .pow10, .pow, .min, .max, .copySign, .hypot]
  tag
    | .abs => "abs"
    | .floor => "floor"
    | .ceiling => "ceiling"
    | .sqrt => "sqrt"
    | .sin => "sin"
    | .cos => "cos"
    | .tan => "tan"
    | .asin => "asin"
    | .acos => "acos"
    | .atan => "atan"
    | .atan2 => "atan2"
    | .ln => "ln"
    | .log => "log"
    | .exp => "e ^"
    | .pow10 => "10 ^"
    | .pow => "pow"
    | .min => "min"
    | .max => "max"
    | .copySign => "copysign"
    | .hypot => "hypot"
  aliases
    | .exp => ["e^"]
    | .pow10 => ["10^"]
    | _ => []

/-- The number of arguments of a function. -/
def MathFunction.arity : MathFunction → Nat
  | .atan2 | .pow | .min | .max | .copySign | .hypot => 2
  | _ => 1

end WordBlocks
