import WordBlocks.Json.Reader
import WordBlocks.Lowering.Reporter
import WordBlocks.Program.Stmt

/-!
Statement blocks. `statementForms` lists the opcodes of the statements by the families of the
palette, and `Block.statement` reads a block of a given form. How operands and bodies are worked
out is a parameter.
-/

namespace WordBlocks

/-- Blocks that change variables and lists. -/
inductive DataForm where
  | set
  | change
  | append
  | delete
  | clear
  | insert
  | replace
deriving DecidableEq, Repr

/-- Blocks for single motors. -/
inductive MotorForm where
  | run
  | goTo
  | start
  | stop
  | setSpeed
deriving DecidableEq, Repr

/-- Blocks for the movement of the robot. -/
inductive MovementForm where
  | move
  | steer
  | start
  | startSteering
  | stop
  | setSpeed
  | setMotors
  | setRotation
deriving DecidableEq, Repr

/-- Blocks for lights. -/
inductive LightForm where
  | displayFor
  | display
  | write
  | off
  | setBrightness
  | setPixel
  | setButton
  | lightSensor
deriving DecidableEq, Repr

/-- Blocks for sounds. -/
inductive SoundForm where
  | play
  | start
  | beep
  | startBeep
  | stop
  | setVolume
  | changeVolume
deriving DecidableEq, Repr

/-- How a statement block is read. -/
inductive StatementForm where
  | hat
  | data (form : DataForm)
  | motor (form : MotorForm)
  | movement (form : MovementForm)
  | light (form : LightForm)
  | sound (form : SoundForm)
  | wait
  | waitUntil
  | repeatTimes
  | forever
  | repeatUntil
  | ifThen
  | ifElse
  | resetTimer
  | resetYaw
  /-- A block that a script cannot express, by the name it has in the palette. -/
  | missing (name : String) (feature : MissingFeature)
deriving DecidableEq, Repr

/-- The statements of the palette by their opcodes. -/
def statementForms : List (String × StatementForm) :=
  [("flipperevents_whenProgramStarts", .hat),
    ("data_setvariableto", .data .set),
    ("data_changevariableby", .data .change),
    ("data_addtolist", .data .append),
    ("data_deleteoflist", .data .delete),
    ("data_deletealloflist", .data .clear),
    ("data_insertatlist", .data .insert),
    ("data_replaceitemoflist", .data .replace),
    ("flippermotor_motorTurnForDirection", .motor .run),
    ("flippermotor_motorGoDirectionToPosition", .motor .goTo),
    ("flippermotor_motorStartDirection", .motor .start),
    ("flippermotor_motorStop", .motor .stop),
    ("flippermotor_motorSetSpeed", .motor .setSpeed),
    ("flippermove_move", .movement .move),
    ("flippermove_steer", .movement .steer),
    ("flippermove_startMove", .movement .start),
    ("flippermove_startSteer", .movement .startSteering),
    ("flippermove_stopMove", .movement .stop),
    ("flippermove_movementSpeed", .movement .setSpeed),
    ("flippermove_setMovementPair", .movement .setMotors),
    ("flippermove_setDistance", .movement .setRotation),
    ("flipperlight_lightDisplayImageOnForTime", .light .displayFor),
    ("flipperlight_lightDisplayImageOn", .light .display),
    ("flipperlight_lightDisplayText", .light .write),
    ("flipperlight_lightDisplayOff", .light .off),
    ("flipperlight_lightDisplaySetBrightness", .light .setBrightness),
    ("flipperlight_lightDisplaySetPixel", .light .setPixel),
    ("flipperlight_centerButtonLight", .light .setButton),
    ("flipperlight_ultrasonicLightUp", .light .lightSensor),
    ("flippersound_playSoundUntilDone", .sound .play),
    ("flippersound_playSound", .sound .start),
    ("flippersound_beepForTime", .sound .beep),
    ("flippersound_beep", .sound .startBeep),
    ("flippersound_stopSound", .sound .stop),
    ("sound_setvolumeto", .sound .setVolume),
    ("sound_changevolumeby", .sound .changeVolume),
    ("control_wait", .wait),
    ("control_wait_until", .waitUntil),
    ("control_repeat", .repeatTimes),
    ("control_forever", .forever),
    ("control_repeat_until", .repeatUntil),
    ("control_if", .ifThen),
    ("control_if_else", .ifElse),
    ("flippersensors_resetTimer", .resetTimer),
    ("flippersensors_resetYaw", .resetYaw),
    ("flipperlight_playAnimationUntilDone", .missing "play animation until done" .animations),
    ("flipperlight_startAnimation", .missing "start animation" .animations),
    ("event_broadcast", .missing "broadcast" .parallelStacks),
    ("event_broadcastandwait", .missing "broadcast and wait" .parallelStacks),
    ("sound_seteffectto", .missing "set pitch effect" .pitchEffects),
    ("sound_changeeffectby", .missing "change pitch effect" .pitchEffects),
    ("sound_cleareffects", .missing "clear sound effects" .pitchEffects),
    ("flipperlight_lightDisplayRotate", .missing "rotate orientation" .orientationRotations),
    ("flipperlight_lightDisplaySetOrientation",
      .missing "set orientation" .orientationRotations),
    ("control_stop", .missing "stop" .stopBlocks),
    ("flippercontrol_stop", .missing "stop" .stopBlocks),
    ("flippercontrol_stopOtherStacks", .missing "stop other stacks" .stopBlocks)]

/-- The form of the statement with an opcode. -/
def StatementForm.ofOpcode? (opcode : String) : Option StatementForm :=
  statementForms.lookup opcode

/-- The name of a sound from the text of its menu, which is the name itself or a JSON object that
holds it. -/
def soundName (raw : String) : String :=
  (((Json.parse? raw).bind (·.field? "name")).bind Json.string?).getD raw

namespace Project

/-- The sound picked in the slot of a sound block: a menu, or text. -/
def sound (p : Project) (b : Block) : Except CompileError String := do
  let raw? ← match b.inputBlock? "SOUND" with
    | some id => do
      let source ← p.block id
      pure source.menuValue?
    | none =>
      pure ((((b.input? "SOUND").bind (·.item? 1)).bind (·.item? 1)).bind Json.string?)
  match raw? with
  | some raw => return soundName raw
  | none => throw (.malformed (.noSound b.opcode))

end Project

namespace Block

variable (p : Project) (slot : Json → Except CompileError Expr) (b : Block)

def dataAction : DataForm → Except CompileError DataAction
  | .set => do
    let var ← p.reference b "VARIABLE"
    return .set var (← b.operand slot "VALUE")
  | .change => do
    let var ← p.reference b "VARIABLE"
    return .change var (← b.operand slot "VALUE")
  | .append => do
    let list ← p.reference b "LIST"
    return .append list (← b.operand slot "ITEM")
  | .delete => do
    let list ← p.reference b "LIST"
    return .delete list (← b.operand slot "INDEX")
  | .clear => return .clear (← p.reference b "LIST")
  | .insert => do
    let list ← p.reference b "LIST"
    let item ← b.operand slot "ITEM"
    let index ← b.operand slot "INDEX"
    return .insert list item index
  | .replace => do
    let list ← p.reference b "LIST"
    let index ← b.operand slot "INDEX"
    let item ← b.operand slot "ITEM"
    return .replace list index item

def motorAction : MotorForm → Except CompileError MotorAction
  | .run => do
    let ports ← p.ports portSet b "PORT"
    let direction ← b.choice TurnDirection "DIRECTION"
    let value ← b.operand slot "VALUE"
    let unit ← b.choice MotorUnit "UNIT"
    return .run ports direction value unit
  | .goTo => do
    let ports ← p.ports portSet b "PORT"
    let route ← b.choice Route "DIRECTION"
    let position ← b.operand slot "POSITION"
    return .goTo ports route position
  | .start => do
    let ports ← p.ports portSet b "PORT"
    let direction ← b.choice TurnDirection "DIRECTION"
    return .start ports direction
  | .stop => return .stop (← p.ports portSet b "PORT")
  | .setSpeed => do
    let ports ← p.ports portSet b "PORT"
    let speed ← b.operand slot "SPEED"
    return .setSpeed ports speed

def movementAction : MovementForm → Except CompileError MovementAction
  | .move => do
    let heading ← b.choice Heading "DIRECTION"
    let value ← b.operand slot "VALUE"
    let unit ← b.choice TravelUnit "UNIT"
    return .move heading value unit
  | .steer => do
    let steering ← b.operand slot "STEERING"
    let value ← b.operand slot "VALUE"
    let unit ← b.choice TravelUnit "UNIT"
    return .steer steering value unit
  | .start => return .start (← b.choice Heading "DIRECTION")
  | .startSteering => return .startSteering (← b.operand slot "STEERING")
  | .stop => return .stop
  | .setSpeed => return .setSpeed (← b.operand slot "SPEED")
  | .setMotors => return .setMotors (← p.ports portPair b "PAIR")
  | .setRotation => do
    let distance ← b.operand slot "DISTANCE"
    let unit ← b.choice DistanceUnit "UNIT"
    return .setRotation distance unit

def lightAction : LightForm → Except CompileError LightAction
  | .displayFor => do
    let pattern ← b.operand slot "MATRIX"
    let duration ← b.operand slot "VALUE"
    return .displayFor pattern duration
  | .display => return .display (← b.operand slot "MATRIX")
  | .write => return .write (← b.operand slot "TEXT")
  | .off => return .off
  | .setBrightness => return .setBrightness (← b.operand slot "BRIGHTNESS")
  | .setPixel => do
    let x ← b.operand slot "X"
    let y ← b.operand slot "Y"
    let brightness ← b.operand slot "BRIGHTNESS"
    return .setPixel x y brightness
  | .setButton => return .setButton (← b.operand slot "COLOR")
  | .lightSensor => do
    let port ← p.ports portSet b "PORT"
    let pattern ← b.operand slot "VALUE"
    return .lightSensor port pattern

def soundAction : SoundForm → Except CompileError SoundAction
  | .play => return .play (← p.sound b)
  | .start => return .start (← p.sound b)
  | .beep => do
    let note ← b.operand slot "NOTE"
    let duration ← b.operand slot "DURATION"
    return .beep note duration
  | .startBeep => return .startBeep (← b.operand slot "NOTE")
  | .stop => return .stop
  | .setVolume => return .setVolume (← b.operand slot "VOLUME")
  | .changeVolume => return .changeVolume (← b.operand slot "VOLUME")

/-- Reads a statement block of a known form. A body is the stack that starts at the block in its
slot. -/
def statementOf (stack : Option String → Except CompileError Stack) :
    StatementForm → Except CompileError Stmt
  | .hat => return .hat b.x b.y
  | .data form => return .action (.data (← b.dataAction p slot form))
  | .motor form => return .action (.motor (← b.motorAction p slot form))
  | .movement form => return .action (.movement (← b.movementAction p slot form))
  | .light form => return .action (.light (← b.lightAction p slot form))
  | .sound form => return .action (.sound (← b.soundAction p slot form))
  | .wait => return .action (.wait (← b.operand slot "DURATION"))
  | .waitUntil => return .action (.waitUntil (← b.operand slot "CONDITION"))
  | .repeatTimes => do
    let times ← b.operand slot "TIMES"
    let body ← stack (b.inputBlock? "SUBSTACK")
    return .repeatTimes times body
  | .forever => return .forever (← stack (b.inputBlock? "SUBSTACK"))
  | .repeatUntil => do
    let condition ← b.operand slot "CONDITION"
    let body ← stack (b.inputBlock? "SUBSTACK")
    return .repeatUntil condition body
  | .ifThen => do
    let condition ← b.operand slot "CONDITION"
    let body ← stack (b.inputBlock? "SUBSTACK")
    return .ifThen condition body
  | .ifElse => do
    let condition ← b.operand slot "CONDITION"
    let body ← stack (b.inputBlock? "SUBSTACK")
    let orElse ← stack (b.inputBlock? "SUBSTACK2")
    return .ifElse condition body orElse
  | .resetTimer => return .action .resetTimer
  | .resetYaw => return .action .resetYaw
  | .missing name feature => return .action (.placeholder name (some feature))

/-- The statement of a block in a stack. With `bestEffort` an unknown statement becomes a
placeholder. -/
def statement (bestEffort : Bool) (stack : Option String → Except CompileError Stack) :
    Except CompileError Stmt :=
  match StatementForm.ofOpcode? b.opcode with
  | some form => b.statementOf p slot stack form
  | none =>
    if bestEffort then .ok (.action (.placeholder b.opcode none))
    else .error (.unsupportedOpcode b.opcode)

end Block

end WordBlocks
