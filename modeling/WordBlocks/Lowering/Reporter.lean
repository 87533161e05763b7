import WordBlocks.Lowering.Slot

/-!
Reporter blocks. `reporterForms` lists the opcodes of the reporters together with the way in which
each is read, and `Block.reporter` reads a block of a given form. How the operands in its slots are
worked out is a parameter, so that this module says nothing about nesting.
-/

namespace WordBlocks

/-- How a reporter block is read: the operator it stands for and the slots and fields that hold its
operands. -/
inductive ReporterForm where
  | reference (field : String)
  | listQuery (query : ListQuery) (slot : String)
  | listLength
  | unary (op : UnaryOp) (slot : String)
  | binary (op : BinaryOp) (left right : String)
  | between
  /-- A function of one argument that a field names. -/
  | functionOfOne
  /-- A function of two arguments that a field names. -/
  | functionOfTwo
  | device (query : DeviceQuery)
  | distance
  | isColor
  | isReflectedLight
  | isDistance
  | reading (reading : Reading)
  | isGesture
  | isOrientation
  | angle
  | button
  | keyPressed
deriving DecidableEq, Repr

/-- The reporters of the palette by their opcodes. -/
def reporterForms : List (String × ReporterForm) :=
  [("data_variable", .reference "VARIABLE"),
    ("data_listcontents", .reference "LIST"),
    ("data_itemoflist", .listQuery .itemAt "INDEX"),
    ("data_itemnumoflist", .listQuery .indexOf "ITEM"),
    ("data_lengthoflist", .listLength),
    ("data_listcontainsitem", .listQuery .contains "ITEM"),
    ("operator_add", .binary (.arithmetic .add) "NUM1" "NUM2"),
    ("operator_subtract", .binary (.arithmetic .sub) "NUM1" "NUM2"),
    ("operator_multiply", .binary (.arithmetic .mul) "NUM1" "NUM2"),
    ("operator_divide", .binary (.arithmetic .div) "NUM1" "NUM2"),
    ("operator_lt", .binary (.comparison .less) "OPERAND1" "OPERAND2"),
    ("operator_equals", .binary (.comparison .equal) "OPERAND1" "OPERAND2"),
    ("operator_gt", .binary (.comparison .greater) "OPERAND1" "OPERAND2"),
    ("operator_and", .binary .and "OPERAND1" "OPERAND2"),
    ("operator_or", .binary .or "OPERAND1" "OPERAND2"),
    ("operator_not", .unary .not "OPERAND"),
    ("flipperoperator_isInBetween", .between),
    ("operator_join", .binary .join "STRING1" "STRING2"),
    ("operator_letter_of", .binary .letterOf "LETTER" "STRING"),
    ("operator_length", .unary .length "STRING"),
    ("operator_contains", .binary .contains "STRING1" "STRING2"),
    ("operator_mod", .binary .modulo "NUM1" "NUM2"),
    ("operator_round", .unary .round "NUM"),
    ("operator_mathop", .functionOfOne),
    ("flipperoperator_mathFunc2Params", .functionOfTwo),
    ("operator_random", .binary .random "FROM" "TO"),
    ("flippermotor_absolutePosition", .device .motorPosition),
    ("flippermotor_speed", .device .motorSpeed),
    ("flippersensors_color", .device .color),
    ("flippersensors_isColor", .isColor),
    ("flippersensors_reflectivity", .device .reflectedLight),
    ("flippersensors_isReflectivity", .isReflectedLight),
    ("flippersensors_distance", .distance),
    ("flippersensors_isDistance", .isDistance),
    ("flippersensors_motion", .reading .gesture),
    ("flippersensors_ismotion", .isGesture),
    ("flippersensors_orientation", .reading .orientation),
    ("flippersensors_isorientation", .isOrientation),
    ("flippersensors_orientationAxis", .angle),
    ("flippersensors_buttonIsPressed", .button),
    ("flippersensors_timer", .reading .timer),
    ("sound_volume", .reading .volume),
    ("sensing_keypressed", .keyPressed)]

/-- The form of the reporter with an opcode. -/
def ReporterForm.ofOpcode? (opcode : String) : Option ReporterForm :=
  reporterForms.lookup opcode

/-- Whether an opcode is that of a reporter, known or not. -/
def isReporterOpcode (opcode : String) : Bool :=
  "operator_".toList.isPrefixOf opcode.toList ||
    "flipperoperator_".toList.isPrefixOf opcode.toList ||
    (ReporterForm.ofOpcode? opcode).isSome

namespace Block

/-- A field that holds one of a closed set of values. -/
def choice (α : Type) [Choice α] (b : Block) (field : String) : Except CompileError α := do
  Choice.ofField (← b.requireField field)

/-- A field that names a function of so many arguments. -/
def function (b : Block) (field : String) (arity : Nat) : Except CompileError MathFunction := do
  let f ← b.choice MathFunction field
  if f.arity = arity then return f
  else throw (.invalidChoice (Choice.kind MathFunction) (Choice.tag f))

/-- The operand in a slot; a slot that is not there reports zero. -/
def operand (slot : Json → Except CompileError Expr) (b : Block) (name : String) :
    Except CompileError Expr :=
  match b.input? name with
  | some binding => slot binding
  | none => .ok .zero

/-- Reads a reporter block of a known form. -/
def reporter (p : Project) (slot : Json → Except CompileError Expr) (b : Block) :
    ReporterForm → Except CompileError Expr
  | .reference field => return .ref (← p.reference b field)
  | .listQuery q name => do
    let list ← p.reference b "LIST"
    return .listQuery q list (← b.operand slot name)
  | .listLength => return .listLength (← p.reference b "LIST")
  | .unary op name => return .unary op (← b.operand slot name)
  | .binary op left right => do
    let l ← b.operand slot left
    let r ← b.operand slot right
    return .binary op l r
  | .between => do
    let value ← b.operand slot "VALUE"
    let low ← b.operand slot "LOW"
    let high ← b.operand slot "HIGH"
    return .between value low high
  | .functionOfOne => do
    let f ← b.function "OPERATOR" 1
    return .unary (.math f) (← b.operand slot "NUM")
  | .functionOfTwo => do
    let f ← b.function "FUNCTION" 2
    let l ← b.operand slot "PARAM1"
    let r ← b.operand slot "PARAM2"
    return .binary (.math f) l r
  | .device q => return .device q (← p.ports portSet b "PORT")
  | .distance => do
    let port ← p.ports portSet b "PORT"
    let unit ← b.choice DistanceUnit "UNIT"
    return .device (.distance unit) port
  | .isColor => do
    let port ← p.ports portSet b "PORT"
    let color ← b.operand slot "VALUE"
    return .deviceTest .color port color
  | .isReflectedLight => do
    let port ← p.ports portSet b "PORT"
    let op ← b.choice Comparison "COMPARATOR"
    let value ← b.operand slot "VALUE"
    return .deviceTest (.reflectedLight op) port value
  | .isDistance => do
    let port ← p.ports portSet b "PORT"
    let op ← b.choice Comparison "COMPARATOR"
    let value ← b.operand slot "VALUE"
    let unit ← b.choice DistanceUnit "UNIT"
    return .deviceTest (.distance op unit) port value
  | .reading r => return .reading r
  | .isGesture => return .reading (.isGesture (← b.choice Gesture "MOTION"))
  | .isOrientation => return .reading (.isOrientation (← b.choice Orientation "ORIENTATION"))
  | .angle => return .reading (.angle (← b.choice Axis "AXIS"))
  | .button => do
    let button ← b.choice HubButton "BUTTON"
    let state ← b.choice ButtonState "EVENT"
    return .reading (.button button state)
  | .keyPressed => return .keyPressed (← b.operand slot "KEY_OPTION")

/-- The expression of a block that stands in a slot: what was picked in a menu, or a reporter. With
`bestEffort` an unknown reporter reads as zero. -/
def expression (p : Project) (bestEffort : Bool) (slot : Json → Except CompileError Expr)
    (b : Block) : Except CompileError Expr :=
  match b.menuValue? with
  | some s => .ok (.text s)
  | none =>
    match ReporterForm.ofOpcode? b.opcode with
    | some form => b.reporter p slot form
    | none => if bestEffort then .ok .zero else .error (.unsupportedOpcode b.opcode)

end Block

end WordBlocks
