import WordBlocks.Choice
import WordBlocks.Palette
import WordBlocks.Number.Layout

/-!
Expressions: what the reporter blocks of a program compute. Constructors group the reporters by the
operands they hold, and the operator inside says which reporter it is, so a recursion over
expressions has one case for each shape.
-/

namespace WordBlocks

/-- A variable or list, by its name and the identifier under which the project declares it. -/
structure Reference where
  name : String
  id : String
deriving DecidableEq, Repr

/-- A reporter without operands. -/
inductive Reading where
  | gesture
  | isGesture (gesture : Gesture)
  | orientation
  | isOrientation (orientation : Orientation)
  | angle (axis : Axis)
  | button (button : HubButton) (state : ButtonState)
  | timer
  | volume
deriving DecidableEq, Repr

/-- A reporter with one operand. -/
inductive UnaryOp where
  | not
  | length
  | round
  | math (function : MathFunction)
deriving DecidableEq, Repr

/-- A reporter with two operands. For `letterOf` they are the position and the text, for
`contains` the text and what is looked for in it. -/
inductive BinaryOp where
  | arithmetic (op : Arithmetic)
  | comparison (op : Comparison)
  | and
  | or
  | join
  | letterOf
  | contains
  | modulo
  | math (function : MathFunction)
  | random
deriving DecidableEq, Repr

/-- A reporter that asks the device on one port. -/
inductive DeviceQuery where
  | motorPosition
  | motorSpeed
  | color
  | reflectedLight
  | distance (unit : DistanceUnit)
deriving DecidableEq, Repr

/-- A test of the reading of the device on one port against a value. -/
inductive DeviceTest where
  | color
  | reflectedLight (comparison : Comparison)
  | distance (comparison : Comparison) (unit : DistanceUnit)
deriving DecidableEq, Repr

/-- A question about a list with one operand: a position or an item. -/
inductive ListQuery where
  | itemAt
  | indexOf
  | contains
deriving DecidableEq, Repr

/-- An expression of a word-block program. -/
inductive Expr where
  | number (value : Binary64)
  | text (value : String)
  | ports (letters : List Char)
  | ref (reference : Reference)
  | reading (reading : Reading)
  | unary (op : UnaryOp) (operand : Expr)
  | binary (op : BinaryOp) (left right : Expr)
  | between (value low high : Expr)
  | device (query : DeviceQuery) (port : Expr)
  | deviceTest (test : DeviceTest) (port value : Expr)
  | keyPressed (key : Expr)
  | listLength (list : Reference)
  | listQuery (query : ListQuery) (list : Reference) (operand : Expr)
deriving DecidableEq, Repr

namespace Expr

/-- The number zero, which an empty slot reports. -/
def zero : Expr :=
  number (.zero false)

instance : Inhabited Expr := ⟨zero⟩

/-- The direct operands, in the order of their slots. -/
def children : Expr → List Expr
  | number _ | text _ | ports _ | ref _ | reading _ | listLength _ => []
  | unary _ e | device _ e | keyPressed e | listQuery _ _ e => [e]
  | binary _ a b | deviceTest _ a b => [a, b]
  | between v a b => [v, a, b]

end Expr

/-- Whether a reading is true or false. -/
def Reading.isPredicate : Reading → Bool
  | isGesture _ | isOrientation _ | button _ _ => true
  | gesture | orientation | angle _ | timer | volume => false

def UnaryOp.isPredicate : UnaryOp → Bool
  | not => true
  | length | round | math _ => false

def BinaryOp.isPredicate : BinaryOp → Bool
  | comparison _ | and | or | contains => true
  | arithmetic _ | join | letterOf | modulo | math _ | random => false

def ListQuery.isPredicate : ListQuery → Bool
  | contains => true
  | itemAt | indexOf => false

/-- Whether an expression is true or false and so can serve as a condition. -/
def Expr.isPredicate : Expr → Bool
  | reading r => r.isPredicate
  | unary op _ => op.isPredicate
  | binary op _ _ => op.isPredicate
  | between _ _ _ | deviceTest _ _ _ | keyPressed _ => true
  | listQuery q _ _ => q.isPredicate
  | number _ | text _ | ports _ | ref _ | device _ _ | listLength _ => false

/-- Numbers in labels have no exponent and no needless point. -/
def labelLayout : NumberLayout where
  tie := .up
  positional := fun _ => true
  point := false
  exponentWidth := 0
  nan := "NaN"
  infinity := "inf"
  negativeInfinity := "-inf"

open Choice (tag)

def Reading.label : Reading → String
  | gesture => "Gesture"
  | isGesture g => "HubInteraction(" ++ tag g ++ ")"
  | orientation => "Orientation"
  | isOrientation o => "IsOrientation(" ++ tag o ++ ")"
  | angle axis => "HubAngle(" ++ tag axis ++ ")"
  | button b s => "Button(" ++ tag b ++ ", " ++ tag s ++ ")"
  | timer => "Timer"
  | volume => "Volume"

def UnaryOp.label : UnaryOp → String
  | not => "Not"
  | length => "Length"
  | round => "Round"
  | math f => "MathFunction(" ++ tag f ++ ")"

def BinaryOp.label : BinaryOp → String
  | arithmetic op => "Arithmetic(" ++ tag op ++ ")"
  | comparison op => "Comparison(" ++ tag op ++ ")"
  | and => "And"
  | or => "Or"
  | join => "Join"
  | letterOf => "LetterOf"
  | contains => "Contains"
  | modulo => "Mod"
  | math f => "MathFunction(" ++ tag f ++ ")"
  | random => "Random"

def DeviceQuery.label : DeviceQuery → String
  | motorPosition => "MotorPosition"
  | motorSpeed => "MotorSpeed"
  | color => "Color"
  | reflectedLight => "ReflectedLight"
  | distance unit => "Distance(" ++ tag unit ++ ")"

def DeviceTest.label : DeviceTest → String
  | color => "IsColor"
  | reflectedLight op => "IsReflectedLight(" ++ tag op ++ ")"
  | distance op unit => "IsDistance(" ++ tag op ++ ", " ++ tag unit ++ ")"

def ListQuery.label : ListQuery → String
  | itemAt => "ItemOfList"
  | indexOf => "IndexOfItem"
  | contains => "ListContains"

/-- The caption of an expression in diagrams and messages. -/
def Expr.label : Expr → String
  | number x => "Numerical(" ++ labelLayout.write x ++ ")"
  | text s => "Literal(\"" ++ s ++ "\")"
  | ports letters => "ListLiteral(" ++ String.ofList letters ++ ")"
  | ref r => "Variable(" ++ r.name ++ ")"
  | reading r => r.label
  | unary op _ => op.label
  | binary op _ _ => op.label
  | between _ _ _ => "Between"
  | device q _ => q.label
  | deviceTest t _ _ => t.label
  | keyPressed _ => "KeyPressed"
  | listLength list => "LengthOfList(" ++ list.name ++ ")"
  | listQuery q list _ => q.label ++ "(" ++ list.name ++ ")"

end WordBlocks
