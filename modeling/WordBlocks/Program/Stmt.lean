import WordBlocks.Program.Expr

/-!
Statements, stacks and programs. A stack is the list of statements that run one after the other,
and the bodies of loops and branches are stacks too. The statements without a body are grouped into
families that follow the block palette: data, motors, movement, light and sound.
-/

namespace WordBlocks

/-- A block of the palette that a script cannot express. -/
inductive MissingFeature where
  | animations
  | parallelStacks
  | pitchEffects
  | orientationRotations
  | stopBlocks
deriving DecidableEq, Repr

namespace MissingFeature

def all : List MissingFeature :=
  [.animations, .parallelStacks, .pitchEffects, .orientationRotations, .stopBlocks]

def description : MissingFeature → String
  | animations => "animations"
  | parallelStacks => "parallel stacks"
  | pitchEffects => "pitch effects"
  | orientationRotations => "orientation rotations"
  | stopBlocks => "stop blocks"

end MissingFeature

/-- Changes of variables and lists. -/
inductive DataAction where
  | set (var : Reference) (value : Expr)
  | change (var : Reference) (value : Expr)
  | append (list : Reference) (item : Expr)
  | delete (list : Reference) (index : Expr)
  | clear (list : Reference)
  | insert (list : Reference) (item index : Expr)
  | replace (list : Reference) (index item : Expr)
deriving DecidableEq, Repr

/-- Orders to single motors. -/
inductive MotorAction where
  | run (ports : Expr) (direction : TurnDirection) (value : Expr) (unit : MotorUnit)
  | goTo (ports : Expr) (route : Route) (position : Expr)
  | start (ports : Expr) (direction : TurnDirection)
  | stop (ports : Expr)
  | setSpeed (ports speed : Expr)
deriving DecidableEq, Repr

/-- Orders to the pair of motors that moves the robot. -/
inductive MovementAction where
  | move (heading : Heading) (value : Expr) (unit : TravelUnit)
  | steer (steering value : Expr) (unit : TravelUnit)
  | start (heading : Heading)
  | startSteering (steering : Expr)
  | stop
  | setSpeed (speed : Expr)
  | setMotors (ports : Expr)
  | setRotation (distance : Expr) (unit : DistanceUnit)
deriving DecidableEq, Repr

/-- Orders to the light matrix, the centre button and the lights of a distance sensor. -/
inductive LightAction where
  | displayFor (pattern duration : Expr)
  | display (pattern : Expr)
  | write (text : Expr)
  | off
  | setBrightness (brightness : Expr)
  | setPixel (x y brightness : Expr)
  | setButton (color : Expr)
  | lightSensor (port pattern : Expr)
deriving DecidableEq, Repr

/-- Orders to the speaker of the hub and of the app. -/
inductive SoundAction where
  | play (sound : String)
  | start (sound : String)
  | beep (note duration : Expr)
  | startBeep (note : Expr)
  | stop
  | setVolume (volume : Expr)
  | changeVolume (volume : Expr)
deriving DecidableEq, Repr

/-- A statement without a body. A placeholder stands for a block that a script cannot express; its
feature is absent when the block is not known at all. -/
inductive Action where
  | data (action : DataAction)
  | motor (action : MotorAction)
  | movement (action : MovementAction)
  | light (action : LightAction)
  | sound (action : SoundAction)
  | wait (duration : Expr)
  | waitUntil (condition : Expr)
  | resetTimer
  | resetYaw
  | placeholder (block : String) (feature : Option MissingFeature)
deriving DecidableEq, Repr

/-- A statement of a word-block program. The hat opens a stack that runs when the program starts;
its coordinates are where it lies on the canvas. -/
inductive Stmt where
  | hat (x y : Option Binary64)
  | action (action : Action)
  | repeatTimes (times : Expr) (body : List Stmt)
  | forever (body : List Stmt)
  | repeatUntil (condition : Expr) (body : List Stmt)
  | ifThen (condition : Expr) (body : List Stmt)
  | ifElse (condition : Expr) (body orElse : List Stmt)
deriving Repr

/-- Statements that run one after the other. -/
abbrev Stack := List Stmt

/-- A program: its stacks in the order of the project. -/
abbrev Forest := List Stack

namespace Stmt

instance : Inhabited Stmt := ⟨hat none none⟩

def isHat : Stmt → Bool
  | hat _ _ => true
  | _ => false

/-- The stacks that a statement holds. -/
def bodies : Stmt → List Stack
  | hat _ _ | action _ => []
  | repeatTimes _ body | forever body | repeatUntil _ body | ifThen _ body => [body]
  | ifElse _ body orElse => [body, orElse]

end Stmt

/-- Whether a stack starts with a hat. -/
def Stack.hasHat : Stack → Bool
  | [] => false
  | first :: _ => first.isHat

namespace DataAction

def operands : DataAction → List Expr
  | set _ e | change _ e | append _ e | delete _ e => [e]
  | clear _ => []
  | insert _ a b | replace _ a b => [a, b]

def label : DataAction → String
  | set var _ => "SetVariable(" ++ var.name ++ ")"
  | change var _ => "ChangeVariable(" ++ var.name ++ ")"
  | append list _ => "AddItemToList(" ++ list.name ++ ")"
  | delete list _ => "DeleteItem(" ++ list.name ++ ")"
  | clear list => "DeleteAllItems(" ++ list.name ++ ")"
  | insert list _ _ => "InsertAt(" ++ list.name ++ ")"
  | replace list _ _ => "ReplaceAt(" ++ list.name ++ ")"

end DataAction

open Choice (tag)

namespace MotorAction

def operands : MotorAction → List Expr
  | run ports _ value _ => [ports, value]
  | goTo ports _ position => [ports, position]
  | start ports _ | stop ports => [ports]
  | setSpeed ports speed => [ports, speed]

def label : MotorAction → String
  | run _ direction _ unit =>
    "RunMotorForDuration(" ++ tag direction ++ ", " ++ tag unit ++ ")"
  | goTo _ route _ => "MotorGoToPosition(" ++ tag route ++ ")"
  | start _ direction => "StartMotor(" ++ tag direction ++ ")"
  | stop _ => "StopMotor"
  | setSpeed _ _ => "SetMotorSpeed"

end MotorAction

namespace MovementAction

def operands : MovementAction → List Expr
  | move _ value _ => [value]
  | steer steering value _ => [steering, value]
  | start _ | stop => []
  | startSteering e | setSpeed e | setMotors e | setRotation e _ => [e]

def label : MovementAction → String
  | move heading _ unit => "Move(" ++ tag heading ++ ", " ++ tag unit ++ ")"
  | steer _ _ unit => "MoveWithSteering(" ++ tag unit ++ ")"
  | start heading => "StartMoving(" ++ tag heading ++ ")"
  | startSteering _ => "StartSteering"
  | stop => "StopMoving"
  | setSpeed _ => "SetMovementSpeed"
  | setMotors _ => "SetMovementMotors"
  | setRotation _ unit => "SetMotorRotation(" ++ tag unit ++ ")"

end MovementAction

namespace LightAction

def operands : LightAction → List Expr
  | displayFor pattern duration => [pattern, duration]
  | display e | write e | setBrightness e | setButton e => [e]
  | off => []
  | setPixel x y brightness => [x, y, brightness]
  | lightSensor port pattern => [port, pattern]

def label : LightAction → String
  | displayFor _ _ => "TurnOnForDuration"
  | display _ => "TurnOn"
  | write _ => "Write"
  | off => "TurnOff"
  | setBrightness _ => "SetPixelBrightness"
  | setPixel _ _ _ => "SetPixel"
  | setButton _ => "SetCenterButton"
  | lightSensor _ _ => "LightUpDistanceSensor"

end LightAction

namespace SoundAction

def operands : SoundAction → List Expr
  | play _ | start _ | stop => []
  | beep note duration => [note, duration]
  | startBeep e | setVolume e | changeVolume e => [e]

def label : SoundAction → String
  | play sound => "PlaySoundUntilDone(" ++ sound ++ ")"
  | start sound => "StartSound(" ++ sound ++ ")"
  | beep _ _ => "PlayBeep"
  | startBeep _ => "StartBeep"
  | stop => "StopBeep"
  | setVolume _ => "SetVolume"
  | changeVolume _ => "ChangeVolume"

end SoundAction

namespace Action

/-- The direct operands, in the order of their slots. -/
def operands : Action → List Expr
  | data a => a.operands
  | motor a => a.operands
  | movement a => a.operands
  | light a => a.operands
  | sound a => a.operands
  | wait e | waitUntil e => [e]
  | resetTimer | resetYaw | placeholder _ _ => []

def label : Action → String
  | data a => a.label
  | motor a => a.label
  | movement a => a.label
  | light a => a.label
  | sound a => a.label
  | wait _ => "WaitForSeconds"
  | waitUntil _ => "WaitUntil"
  | resetTimer => "ResetTimer"
  | resetYaw => "SetYawAngle"
  | placeholder block _ => "Placeholder(" ++ block ++ ")"

end Action

namespace Stmt

/-- The direct operands, in the order of their slots. -/
def operands : Stmt → List Expr
  | hat _ _ | forever _ => []
  | action a => a.operands
  | repeatTimes e _ | repeatUntil e _ | ifThen e _ | ifElse e _ _ => [e]

/-- The caption of a statement in diagrams and messages. -/
def label : Stmt → String
  | hat _ _ => "WhenProgramStarts"
  | action a => a.label
  | repeatTimes _ _ => "RepeatLoop"
  | forever _ => "ForeverLoop"
  | repeatUntil _ _ => "RepeatUntil"
  | ifThen _ _ => "IfThen"
  | ifElse _ _ _ => "IfElse"

end Stmt

end WordBlocks
