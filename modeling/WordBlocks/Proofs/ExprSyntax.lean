import Mathlib.Tactic.IntervalCases
import WordBlocks.Proofs.Collisions
import WordBlocks.Proofs.OperatorText
import WordBlocks.Proofs.PythonText

/-!
Expressions in the syntax of Python. `Expr.tree` is the syntax tree that an expression stands for,
node by node, and Python reads the text of an expression as this tree, as long as no condition is an
operand where the text has no parentheses around it (`parse_expr`).
-/

namespace WordBlocks

open Choice (tag)
open Script
open Python (Tree Parses Primes isName parse)

def Binary64.tree (x : Binary64) : Tree :=
  if x.isNaN then .call (.name "float") [.text "nan"]
  else if x.isInfinite then .call (.name "float") [.text (if x.negative then "-inf" else "inf")]
  else if x.negative then .neg (.float { x with negative := false })
  else .float x

def SensorColor.tree : SensorColor → Tree
  | none => .constant "None"
  | black => .text "black"
  | violet => .text "violet"
  | blue => .text "blue"
  | azure => .text "cyan"
  | green => .text "green"
  | yellow => .text "yellow"
  | red => .text "red"
  | white => .text "white"

def Gesture.tree : Gesture → Tree
  | shaken => .text "shaken"
  | tapped => .text "tapped"
  | falling => .text "falling"

def Orientation.tree : Orientation → Tree
  | front => .text "front"
  | back => .text "back"
  | up => .text "up"
  | down => .text "down"
  | leftSide => .text "leftside"
  | rightSide => .text "rightside"

namespace Script

def colorIndexTree : Tree :=
  .dict [(.constant "None", .neg (.integer 1)), (.text "black", .integer 0),
    (.text "violet", .integer 1), (.text "blue", .integer 3), (.text "cyan", .integer 4),
    (.text "green", .integer 5), (.text "yellow", .integer 7), (.text "red", .integer 9),
    (.text "white", .integer 10)]

def colorNameTree : Tree :=
  .dict [(.neg (.integer 1), .constant "None"), (.integer 0, .text "black"),
    (.integer 1, .text "violet"), (.integer 3, .text "blue"), (.integer 4, .text "cyan"),
    (.integer 5, .text "green"), (.integer 7, .text "yellow"), (.integer 9, .text "red"),
    (.integer 10, .text "white")]

def gestureTree : Tree :=
  .dict [(.constant "None", .neg (.integer 1)), (.text "shaken", .integer 0),
    (.text "tapped", .integer 1), (.text "falling", .integer 2)]

def orientationTree : Tree :=
  .dict [(.text "front", .integer 0), (.text "back", .integer 1), (.text "up", .integer 2),
    (.text "down", .integer 3), (.text "leftside", .integer 4), (.text "rightside", .integer 5)]

end Script

def Axis.reader : Axis → String
  | pitch => "get_pitch_angle"
  | roll => "get_roll_angle"
  | yaw => "get_yaw_angle"

def HubButton.part : HubButton → String
  | left => "left_button"
  | right => "right_button"

def ButtonState.test : ButtonState → String
  | pressed => "is_pressed"
  | released => "is_released"

def Reading.tree (r : Reading) : Tree :=
  let hub := Tree.name "hub"
  let motion := hub.member "motion_sensor"
  match r with
  | gesture => .subscript gestureTree (motion.method "get_gesture")
  | isGesture g => .compare (motion.method "get_gesture") [("==", g.tree)]
  | orientation => .subscript orientationTree (motion.method "get_orientation")
  | isOrientation o => .compare (motion.method "get_orientation") [("==", o.tree)]
  | angle axis => motion.method axis.reader
  | button b s => (hub.member b.part).method s.test
  | timer => (Tree.name "timer").method "now"
  | volume => (hub.member "speaker").method "get_volume"

namespace MathFunction

/-- The function of Python, if it belongs to the module of mathematical functions. -/
def inModule : MathFunction → Option String
  | floor => "floor"
  | ceiling => "ceil"
  | sqrt => "sqrt"
  | sin => "sin"
  | cos => "cos"
  | tan => "tan"
  | asin => "asin"
  | acos => "acos"
  | atan => "atan"
  | atan2 => "atan2"
  | ln => "log"
  | log => "log2"
  | copySign => "copysign"
  | hypot => "hypot"
  | _ => none

def builtin : MathFunction → String
  | min => "min"
  | max => "max"
  | abs => "abs"
  | _ => "pow"

def callee (f : MathFunction) : Tree :=
  match f.inModule with
  | some word => .member (.name "math") word
  | none => .name f.builtin

/-- The basis of a power, which is not an argument of the block. -/
def basis : MathFunction → List Tree
  | exp => [.member (.name "math") "e"]
  | pow10 => [.integer 10]
  | _ => []

end MathFunction

/-- One half, which is added before rounding. -/
def Binary64.half : Binary64 :=
  .ofBits 0x3FE0000000000000

def UnaryOp.tree (op : UnaryOp) (a : Tree) : Tree :=
  match op with
  | not => .not a
  | length => .call (.name "len") [.call (.name "str") [a]]
  | round => .call (.name "int") [.binary "+" a (.float .half)]
  | math f => .call f.callee (f.basis ++ [a])

def Arithmetic.sign : Arithmetic → String
  | add => "+"
  | sub => "-"
  | mul => "*"
  | div => "/"

def Comparison.sign : Comparison → String
  | less => "<"
  | equal => "=="
  | greater => ">"

def BinaryOp.tree (op : BinaryOp) (a b : Tree) : Tree :=
  match op with
  | arithmetic op => .binary op.sign a b
  | comparison op => .compare a [(op.sign, b)]
  | and => .and [a, b]
  | or => .or [a, b]
  | join => .binary "+" (.call (.name "str") [a]) (.call (.name "str") [b])
  | letterOf =>
    .subscript (.call (.name "str") [b]) (.binary "-" (.call (.name "int") [a]) (.integer 1))
  | contains => .compare ((Tree.call (.name "str") [b]).method "lower")
      [("in", (Tree.call (.name "str") [a]).method "lower")]
  | modulo => .binary "%" a b
  | math f => .call f.callee (f.basis ++ if f.arity = 2 then [a, b] else [a])
  | random => .call (.name "randint") [.call (.name "int") [a], .call (.name "int") [b]]

def ListQuery.tree (q : ListQuery) (list operand : Tree) : Tree :=
  match q with
  | itemAt => .subscript list (.binary "-" (.call (.name "int") [operand]) (.integer 1))
  | indexOf => .binary "+" (.call (.member list "index") [operand]) (.integer 1)
  | contains => .compare operand [("in", list)]

def DistanceUnit.reader : DistanceUnit → String
  | cm => "get_distance_cm"
  | inches => "get_distance_inches"
  | percent => "get_distance_percentage"

def DeviceQuery.tree (q : DeviceQuery) (device : Tree) : Tree :=
  match q with
  | motorPosition => device.method "get_position"
  | motorSpeed => device.method "get_speed"
  | color => .subscript colorIndexTree (device.method "get_color")
  | reflectedLight => device.method "get_reflected_light"
  | distance unit => device.method unit.reader

namespace Script.Device

/-- The word before the port in the name of a device. -/
def word : Device → String
  | motor => "motor"
  | colorSensor => "color_sensor"
  | distanceSensor => "distance_sensor"

def constructor : Device → String
  | motor => "Motor"
  | colorSensor => "ColorSensor"
  | distanceSensor => "DistanceSensor"

end Script.Device

namespace Expr

/-- The device on a port. What is no port has no device, and no text either. -/
def deviceTree (d : Device) : Expr → Tree
  | ports [letter] => .name (d.word ++ "_" ++ String.singleton letter.toLower)
  | ref r => .call (.name d.constructor) [.subscript (.name (identifier r.name)) (.integer 0)]
  | _ => .constant "None"

/-- The test whether the colour sensor sees a colour from the palette. A number outside the palette
has no text. -/
def colorTestTree (reading : Tree) (i : Int) : Tree :=
  match SensorColor.ofIndex i with
  | .ok .none => .compare reading [("is", .constant "None")]
  | .ok c => .compare reading [("==", c.tree)]
  | .error _ => reading

def tree : Expr → Tree
  | number x => x.tree
  | text s => .text s
  | ports letters => .list (letters.map fun c => .text (String.singleton c))
  | ref r => .name (identifier r.name)
  | reading r => r.tree
  | unary op e => op.tree e.tree
  | binary op left right => op.tree left.tree right.tree
  | between value low high => .compare low.tree [("<=", value.tree), ("<=", high.tree)]
  | device q port => q.tree (port.deviceTree q.target)
  | deviceTest test port value =>
    let sensor := port.deviceTree test.target
    match test with
    | .color =>
      let reading := sensor.method "get_color"
      match literalIndex? value with
      | some i => colorTestTree reading i
      | none => .compare reading
          [("==", .subscript colorNameTree (.call (.name "int") [value.tree]))]
    | .reflectedLight op => .compare (sensor.method "get_reflected_light") [(op.sign, value.tree)]
    | .distance op unit => .compare (sensor.method unit.reader) [(op.sign, value.tree)]
  | keyPressed _ => .constant "False"
  | listLength list => .call (.name "len") [.name (identifier list.name)]
  | listQuery q list operand => q.tree (.name (identifier list.name)) operand.tree

/-- The operands around which the text of an expression has no parentheses. -/
def bareOperands : Expr → List Expr
  | unary .round a => [a]
  | binary (.arithmetic _) a b | binary (.comparison _) a b | binary .modulo a b => [a, b]
  | between v a b => [v, a, b]
  | deviceTest (.reflectedLight _) _ v | deviceTest (.distance _ _) _ v => [v]
  | listQuery .contains _ a => [a]
  | _ => []

/-- Expressions where no condition is an operand of a calculation, comparison or search. -/
def WellSorted (e : Expr) : Prop :=
  ∀ x ∈ e.visited, ∀ operand ∈ x.bareOperands, operand.isPredicate = false

/-- Expressions whose ports are those of a hub. -/
def OnHub (e : Expr) : Prop :=
  ∀ x ∈ e.visited, ∀ c ∈ x.letters, c ∈ portLetters

theorem WellSorted.bare {e : Expr} (h : e.WellSorted) :
    ∀ x ∈ e.bareOperands, x.isPredicate = false :=
  h e e.mem_visited_self

theorem WellSorted.operand {e operand : Expr} (h : e.WellSorted) (hoperand : operand ∈ e.visible) :
    operand.WellSorted :=
  fun x hx => h x (mem_visited_of_visible hoperand hx)

theorem OnHub.own {e : Expr} (h : e.OnHub) : ∀ c ∈ e.letters, c ∈ portLetters :=
  h e e.mem_visited_self

theorem OnHub.operand {e operand : Expr} (h : e.OnHub) (hoperand : operand ∈ e.visible) :
    operand.OnHub :=
  fun x hx => h x (mem_visited_of_visible hoperand hx)

end Expr

theorem isName_identifier (name : String) : isName (identifier name) = true := by
  have hlead := needsLead_identifier name
  have hreserved := isReserved_identifier name
  simp only [isReserved, Bool.or_eq_false_iff] at hreserved
  rw [isName, hreserved.1.1, List.all_eq_true.mpr (identifier_chars name)]
  cases h : (identifier name).toList with
  | nil => exact absurd h (identifier_ne_nil name)
  | cons c cs =>
      rw [h] at hlead
      simpa [needsLead] using hlead

theorem isNameChar_of_mem_portLetters : ∀ c ∈ portLetters, isNameChar c = true :=
  List.all_eq_true.mp rfl

theorem isNameChar_toLower {c : Char} (h : isNameChar c = true) : isNameChar c.toLower = true := by
  unfold Char.toLower
  split
  · rename_i hc
    have hle := UInt32.le_iff_toNat_le.mp hc.1
    have hge := UInt32.le_iff_toNat_le.mp hc.2
    rw [isNameChar, Char.isAlphanum, Bool.or_eq_true, Bool.or_eq_true, isAlpha_iff_toNat]
    refine .inl (.inl (.inr ?_))
    simp at hle hge ⊢
    omega
  · exact h

theorem isName_objectName (d : Device) {port : Char} (h : isNameChar port = true) :
    isName (d.objectName port) = true := by
  have hchars : d.stem.toList.all isNameChar = true := by cases d <;> decide
  have hhead : (d.objectName port).toList.head?.any (fun c => !c.isDigit) = true := by
    cases d <;> simp [Device.objectName, Device.stem]
  -- No keyword has an underscore.
  have hkeyword : ∀ word ∈ keywords, '_' ∉ word.toList := by decide
  have hname : keywords.contains (d.objectName port) = false := by
    rw [← Bool.not_eq_true, List.contains_iff_mem]
    exact fun hmem => hkeyword _ hmem (by simp [Device.objectName])
  have hall : (d.objectName port).toList.all isNameChar = true := by
    have hunderscore : isNameChar '_' = true := by decide
    simp only [Device.objectName, String.toList_append, List.all_append, hchars,
      String.toList_singleton]
    simp [hunderscore, isNameChar_toLower h]
  rw [isName, hhead, hall, hname]
  rfl

theorem parses_magnitude {x : Binary64} (hfin : x.isFinite = true) :
    Parses .minus (String.ofList (numberLayout.magnitude x))
      (.float { x with negative := false }) := by
  obtain ⟨c, cs, hhead, hc⟩ := magnitude_head x
  have hlex := Python.lexes_magnitude hfin
  rw [hhead] at hlex ⊢
  refine .of_lexes String.toList_ofList ?_ hlex
    ((Python.ReadsPrimary.float _).reads.mono (by decide))
  exact Python.endsSign_of_isNameChar (by simp [isNameChar, Char.isAlphanum, hc])

theorem parses_number (x : Binary64) : Parses .minus (numberText x) x.tree := by
  by_cases hfin : x.isFinite = true
  · have hmagnitude := parses_magnitude hfin
    have htext := numberText_of_isFinite hfin
    simp only [Binary64.isFinite, bne_iff_ne] at hfin
    rw [Binary64.tree, if_neg (by simp [Binary64.isNaN, hfin]),
      if_neg (by simp [Binary64.isInfinite, hfin])]
    cases hsign : x.negative with
    | true =>
        have hneg : numberText x = "-" ++ String.ofList (numberLayout.magnitude x) := by
          apply String.toList_inj.mp
          rw [htext, hsign]
          simp
        rw [hneg]
        exact hmagnitude.minus
    | false =>
        have hpos : numberText x = String.ofList (numberLayout.magnitude x) := by
          apply String.toList_inj.mp
          rw [htext, hsign]
          simp
        have hsame : { x with negative := false } = x := by rw [← hsign]
        rw [hsame] at hmagnitude
        rw [hpos]
        exact hmagnitude
  · have hspecial (s : String) : Parses .minus ("float" ++ "(" ++ quote s ++ ")")
        (.call (.name "float") [.text s]) :=
      ((Python.primes_name rfl).call_one ((Python.primes_quote s).parses _)).parses _
    rw [Bool.not_eq_true] at hfin
    unfold numberText NumberLayout.write Binary64.tree
    split
    · exact hspecial "nan"
    · split
      · split
        · exact hspecial "-inf"
        · exact hspecial "inf"
      · grind [Binary64.isFinite, Binary64.isNaN, Binary64.isInfinite]

theorem primes_sensorColor (c : SensorColor) : Primes c.scriptName c.tree := by
  cases c with
  | none => exact Python.primes_none
  | black => exact Python.primes_quote "black"
  | violet => exact Python.primes_quote "violet"
  | blue => exact Python.primes_quote "blue"
  | azure => exact Python.primes_quote "cyan"
  | green => exact Python.primes_quote "green"
  | yellow => exact Python.primes_quote "yellow"
  | red => exact Python.primes_quote "red"
  | white => exact Python.primes_quote "white"

theorem primes_gesture (g : Gesture) : Primes g.scriptName g.tree := by
  cases g with
  | shaken => exact Python.primes_quote "shaken"
  | tapped => exact Python.primes_quote "tapped"
  | falling => exact Python.primes_quote "falling"

theorem primes_orientation (o : Orientation) : Primes ("'" ++ tag o ++ "'") o.tree := by
  cases o with
  | front => exact Python.primes_quote "front"
  | back => exact Python.primes_quote "back"
  | up => exact Python.primes_quote "up"
  | down => exact Python.primes_quote "down"
  | leftSide => exact Python.primes_quote "leftside"
  | rightSide => exact Python.primes_quote "rightside"

/-- A number in a table. -/
def Script.indexTree (i : Int) : Tree :=
  if i < 0 then .neg (.integer i.natAbs) else .integer i.natAbs

theorem parses_natural {n : Nat} (h : n ≤ 10) : Parses .minus (toString n) (.integer n) := by
  interval_cases n <;> exact Python.parses_numeral rfl rfl rfl rfl (.integer _)

theorem parses_index {i : Int} (h : -1 ≤ i) (h' : i ≤ 10) :
    Parses .minus (toString i) (indexTree i) := by
  cases i with
  | ofNat n => exact parses_natural (by simpa using h')
  | negSucc n =>
      obtain rfl : n = 0 := by omega
      exact (parses_natural (n := 1) (by decide)).minus

theorem primes_colorIndexTable : Primes colorIndexTable colorIndexTree := by
  have htree :
      colorIndexTree = .dict (SensorColor.all.map fun c => (c.tree, indexTree c.index)) := rfl
  rw [htree]
  refine Python.primes_dict ?_
  rw [List.forall₂_map_left_iff, List.forall₂_map_right_iff, List.forall₂_same]
  intro c _
  have hindex : -1 ≤ c.index ∧ c.index ≤ 10 := by
    cases c <;> decide
  exact ⟨(primes_sensorColor c).parses _, (parses_index hindex.1 hindex.2).mono (by decide)⟩

theorem primes_colorNameTable : Primes colorNameTable colorNameTree := by
  have htree :
      colorNameTree = .dict (SensorColor.all.map fun c => (indexTree c.index, c.tree)) := rfl
  rw [htree]
  refine Python.primes_dict ?_
  rw [List.forall₂_map_left_iff, List.forall₂_map_right_iff, List.forall₂_same]
  intro c _
  have hindex : -1 ≤ c.index ∧ c.index ≤ 10 := by
    cases c <;> decide
  exact ⟨(parses_index hindex.1 hindex.2).mono (by decide), (primes_sensorColor c).parses _⟩

theorem primes_gestureTable : Primes gestureTable gestureTree := by
  have htree : gestureTree = .dict ((.constant "None", indexTree (-1)) ::
      (Choice.all : List Gesture).zipIdx.map fun g => (g.1.tree, .integer g.2)) := rfl
  have hminus : Parses .minus "-1" (indexTree (-1)) :=
    (parses_natural (n := 1) (by decide)).minus.respell rfl
  have hnone : Parses .disjunction "-1" (indexTree (-1)) := hminus.mono (by decide)
  rw [htree]
  refine Python.primes_dict (.cons ⟨Python.primes_none.parses _, hnone⟩ ?_)
  rw [List.forall₂_map_left_iff, List.forall₂_map_right_iff, List.forall₂_same]
  intro g hg
  have hindex : g.2 ≤ 10 := by
    revert g
    decide
  exact ⟨(primes_gesture g.1).parses _, (parses_natural hindex).mono (by decide)⟩

theorem primes_orientationTable : Primes orientationTable orientationTree := by
  have htree : orientationTree = .dict
      ((Choice.all : List Orientation).zipIdx.map fun o => (o.1.tree, .integer o.2)) := rfl
  rw [htree]
  refine Python.primes_dict ?_
  rw [List.forall₂_map_left_iff, List.forall₂_map_right_iff, List.forall₂_same]
  intro o ho
  have hindex : o.2 ≤ 10 := by
    revert o
    decide
  exact ⟨(primes_orientation o.1).parses _, (parses_natural hindex).mono (by decide)⟩

theorem Arithmetic.tag_eq (op : Arithmetic) : tag op = op.sign := by
  cases op <;> rfl

theorem Comparison.symbol_eq (op : Comparison) : op.symbol = op.sign := by
  cases op <;> rfl

theorem DistanceUnit.method_eq (unit : DistanceUnit) : unit.method = unit.reader := by
  cases unit <;> rfl

theorem Script.Device.className_eq (d : Device) : d.className = d.constructor := by
  cases d <;> rfl

theorem Script.Device.objectName_eq (d : Device) (letter : Char) :
    d.objectName letter = d.word ++ "_" ++ String.singleton letter.toLower := by
  cases d <;> rfl

theorem isName_reader (unit : DistanceUnit) : isName unit.reader = true := by
  cases unit <;> rfl

theorem parses_equal {left right : String} {t u : Tree} (ht : Primes left t) (hu : Primes right u) :
    Parses .comparison (left ++ " == " ++ right) (.compare t [("==", u)]) := by
  have hsign : "==" ∈ Python.Level.comparison.signs := by decide
  exact .operation rfl (Python.isMark_sign hsign) (ht.parses _) (hu.parses _)

/-- The level at which Python reads the text of an expression. A condition may lack parentheses. -/
def Script.operandLevel (isPredicate : Bool) : Python.Level :=
  if isPredicate then .inversion else .minus

/-- The text of an expression stands for its syntax tree as an operand. -/
def Expr.ReadsAs (e : Expr) (text : String) : Prop :=
  Parses (operandLevel e.isPredicate) text e.tree

theorem Expr.ReadsAs.inversion {e : Expr} {text : String} (h : e.ReadsAs text) :
    Parses .inversion text e.tree := by
  refine Parses.mono h ?_
  cases e.isPredicate <;> decide

theorem Expr.ReadsAs.whole {e : Expr} {text : String} (h : e.ReadsAs text) :
    Parses .disjunction text e.tree :=
  h.inversion.mono (by decide)

theorem Expr.ReadsAs.bare {e : Expr} {text : String} (h : e.ReadsAs text)
    (he : e.isPredicate = false) : Parses .minus text e.tree := by
  rw [ReadsAs, he] at h
  exact h

theorem Reading.parses (r : Reading) : Parses (operandLevel r.isPredicate) r.script r.tree := by
  have hhub : Primes "hub" (.name "hub") := Python.primes_name rfl
  have hmotion : Primes ("hub" ++ "." ++ "motion_sensor") (.member (.name "hub") "motion_sensor") :=
    hhub.member rfl
  have hgesture : Primes ("hub" ++ "." ++ "motion_sensor" ++ "." ++ "get_gesture" ++ "()") _ :=
    hmotion.method rfl
  have horientation :
      Primes ("hub" ++ "." ++ "motion_sensor" ++ "." ++ "get_orientation" ++ "()") _ :=
    hmotion.method rfl
  cases r with
  | gesture =>
      have htable := primes_gestureTable.subscript (hgesture.parses .disjunction)
      exact (htable.parses _).respell (by simp [Reading.script, Reading.object])
  | isGesture g =>
      have hequal := parses_equal hgesture (primes_gesture g)
      exact (hequal.mono Nat.le.refl.step).respell (by simp [Reading.script, Reading.object])
  | orientation =>
      have htable := primes_orientationTable.subscript (horientation.parses .disjunction)
      exact (htable.parses _).respell (by simp [Reading.script, Reading.object])
  | isOrientation o =>
      have hequal := parses_equal horientation (primes_orientation o)
      exact (hequal.mono Nat.le.refl.step).respell (by simp [Reading.script, Reading.object])
  | angle axis =>
      have hname : isName axis.reader = true := by
        cases axis <;> rfl
      have hreader : "get_" ++ tag axis ++ "_angle" = axis.reader := by
        cases axis <;> rfl
      exact ((hmotion.method hname).parses _).respell
        (by simp [Reading.script, Reading.object, ← hreader])
  | button b s =>
      have hbutton : isName b.part = true := by
        cases b <;> rfl
      have hstate : isName s.test = true := by
        cases s <;> rfl
      have hpart : tag b ++ "_button" = b.part := by
        cases b <;> rfl
      have htest : "is_" ++ tag s = s.test := by
        cases s <;> rfl
      exact (((hhub.member hbutton).method hstate).parses _).respell
        (by simp [Reading.script, Reading.object, ← hpart, ← htest])
  | timer =>
      have hnow : Primes ("timer" ++ "." ++ "now" ++ "()") _ := (Python.primes_name rfl).method rfl
      exact hnow.parses _
  | volume =>
      have hvolume : Primes ("hub" ++ "." ++ "speaker" ++ "." ++ "get_volume" ++ "()") _ :=
        (hhub.member rfl).method rfl
      exact hvolume.parses _

namespace MathFunction

def calleeText (f : MathFunction) : String :=
  match f.inModule with
  | some word => "math" ++ "." ++ word
  | none => f.builtin

theorem primes_callee (f : MathFunction) : Primes f.calleeText f.callee := by
  have hmember : ∀ word, f.inModule = some word → isName word = true := by
    cases f <;> simp +decide
  have hbuiltin : isName f.builtin = true := by
    cases f <;> rfl
  unfold calleeText callee
  split
  · exact (Python.primes_name rfl).member (hmember _ ‹_›)
  · exact Python.primes_name hbuiltin

theorem primes_call (f : MathFunction) {a : String} {t : Tree} {texts : List String}
    {trees : List Tree} (h : List.Forall₂ (Parses .disjunction) (a :: texts) (t :: trees)) :
    Primes (f.opening ++ ", ".intercalate (a :: texts) ++ ")")
      (.call f.callee (f.basis ++ t :: trees)) := by
  have hten : Parses .minus "10" (.integer 10) :=
    Python.parses_numeral rfl rfl rfl rfl (.integer 10)
  have he : Primes ("math" ++ "." ++ "e") (.member (.name "math") "e") :=
    (Python.primes_name rfl).member rfl
  cases f with
  | exp =>
      exact (exp.primes_callee.call (.cons (he.parses _) h)).respell
        (by simp [calleeText, opening, inModule, builtin])
  | pow10 =>
      exact (pow10.primes_callee.call (.cons (hten.mono (by decide)) h)).respell
        (by simp [calleeText, opening, inModule, builtin])
  | _ =>
      exact ((primes_callee _).call h).respell
        (by simp [calleeText, opening, inModule, builtin])

end MathFunction

theorem primes_call_of {f a : String} {t : Tree} (hf : isName f = true)
    (ht : Parses .disjunction a t) : Primes (f ++ "(" ++ a ++ ")") (.call (.name f) [t]) :=
  (Python.primes_name hf).call_one ht

theorem primes_calculation {sign a b : String} {t u : Tree}
    (hsign : sign ∈ Python.Level.sum.signs ∨ sign ∈ Python.Level.product.signs)
    (ht : Parses .minus a t) (hu : Parses .minus b u) :
    Primes ("(" ++ a ++ " " ++ sign ++ " " ++ b ++ ")") (.binary sign t u) := by
  rcases hsign with hsign | hsign
  · have hsum : Parses .sum (a ++ (" " ++ sign ++ " ") ++ b) (.binary sign t u) :=
      .operation rfl (Python.isMark_sign hsign) (ht.mono (by decide)) (hu.mono (by decide))
    exact hsum.paren.respell (by simp)
  · have hproduct : Parses .product (a ++ (" " ++ sign ++ " ") ++ b) (.binary sign t u) :=
      .operation rfl (Python.isMark_sign hsign) ht hu
    exact hproduct.paren.respell (by simp)

theorem parses_comparison (op : Comparison) {a b : String} {t u : Tree} (ht : Parses .minus a t)
    (hu : Parses .minus b u) :
    Parses .inversion (a ++ " " ++ op.symbol ++ " " ++ b) (.compare t [(op.sign, u)]) := by
  have hsign : op.sign ∈ Python.Level.comparison.signs := by
    cases op <;> decide
  rw [op.symbol_eq]
  have hcompare : Parses .comparison (a ++ (" " ++ op.sign ++ " ") ++ b)
      (.compare t [(op.sign, u)]) :=
    .operation rfl (Python.isMark_sign hsign) (ht.mono (by decide)) (hu.mono (by decide))
  exact (hcompare.mono (by decide)).respell (by simp)

namespace Expr

theorem readsAs_unary {op : UnaryOp} {e : Expr} {a text : String} (h : op.text a = .ok text)
    (he : e.ReadsAs a)
    (hbare : ∀ x ∈ (unary op e).bareOperands, x.isPredicate = false) :
    (unary op e).ReadsAs text := by
  cases op with
  | not =>
      obtain rfl := Except.ok.inj h
      have hparen : Parses .inversion ("(" ++ a ++ ")") e.tree := he.whole.paren.parses _
      exact hparen.not.respell (by simp)
  | length =>
      obtain rfl := Except.ok.inj h
      have hstr := primes_call_of (f := "str") rfl he.whole
      have hlen := primes_call_of (f := "len") rfl (hstr.parses _)
      exact (hlen.parses _).respell (by simp)
  | round =>
      obtain rfl := Except.ok.inj h
      -- The operand stands before the plus sign without parentheses.
      have hminus := he.bare (hbare e List.mem_cons_self)
      have hhalf : Parses .minus "0.5" (.float .half) :=
        Python.parses_numeral rfl rfl rfl (by decide +kernel) (.float _)
      have hsign : "+" ∈ Python.Level.sum.signs := by decide
      have hsum : Parses .sum (a ++ " + " ++ "0.5") (.binary "+" e.tree (.float .half)) :=
        .operation rfl (Python.isMark_sign hsign) (hminus.mono (by decide)) (hhalf.mono (by decide))
      have hint := primes_call_of (f := "int") rfl (hsum.mono (by decide))
      exact (hint.parses _).respell (by simp)
  | math f =>
      unfold UnaryOp.text at h
      dsimp only at h
      split at h
      · cases h
      · obtain rfl := Except.ok.inj h
        exact ((f.primes_call (.cons he.whole .nil)).parses _).respell (by simp)

theorem readsAs_binary {op : BinaryOp} {left right : Expr} {a b : String} (hl : left.ReadsAs a)
    (hr : right.ReadsAs b)
    (hbare : ∀ x ∈ (binary op left right).bareOperands, x.isPredicate = false) :
    (binary op left right).ReadsAs (op.text a b) := by
  have hstrl := primes_call_of (f := "str") rfl hl.whole
  have hstrr := primes_call_of (f := "str") rfl hr.whole
  have hintl := primes_call_of (f := "int") rfl hl.whole
  have hintr := primes_call_of (f := "int") rfl hr.whole
  cases op with
  | arithmetic op =>
      have ha := hl.bare (hbare left (by simp [bareOperands]))
      have hb := hr.bare (hbare right (by simp [bareOperands]))
      rw [BinaryOp.text, op.tag_eq]
      exact (primes_calculation (by cases op <;> decide) ha hb).parses _
  | comparison op =>
      have ha := hl.bare (hbare left (by simp [bareOperands]))
      have hb := hr.bare (hbare right (by simp [bareOperands]))
      exact parses_comparison op ha hb
  | and =>
      have hand : Parses .conjunction (a ++ " and " ++ b) (.and [left.tree, right.tree]) :=
        .operation rfl Python.isMark_and hl.inversion hr.inversion
      exact (hand.paren.parses _).respell (by simp [BinaryOp.text])
  | or =>
      have hor : Parses .disjunction (a ++ " or " ++ b) (.or [left.tree, right.tree]) :=
        .operation rfl Python.isMark_or (hl.inversion.mono (by decide))
          (hr.inversion.mono (by decide))
      exact (hor.paren.parses _).respell (by simp [BinaryOp.text])
  | join =>
      have hsign : "+" ∈ Python.Level.sum.signs := by decide
      have hjoin := primes_calculation (.inl hsign) (hstrl.parses _) (hstrr.parses _)
      exact (hjoin.parses _).respell (by simp [BinaryOp.text])
  | letterOf =>
      have hindex := hintl.sum_one (.inr rfl)
      exact ((hstrr.subscript hindex).parses _).respell (by simp [BinaryOp.text])
  | contains =>
      have hlower {text : String} {t : Tree} (h : Primes text t) :
          Parses .sum (text ++ "." ++ "lower" ++ "()") (t.method "lower") :=
        (h.method rfl).parses _
      have hin : Parses .comparison _ (.compare _ [("in", _)]) :=
        .operation rfl Python.isMark_in (hlower hstrr) (hlower hstrl)
      exact (hin.paren.parses _).respell (by simp [BinaryOp.text])
  | modulo =>
      have ha := hl.bare (hbare left (by simp [bareOperands]))
      have hb := hr.bare (hbare right (by simp [bareOperands]))
      exact ((primes_calculation (.inr (by decide)) ha hb).parses _).respell
        (by simp [BinaryOp.text])
  | math f =>
      have hone := f.primes_call (.cons hl.whole .nil)
      have htwo := f.primes_call (.cons hl.whole (.cons hr.whole .nil))
      unfold ReadsAs tree BinaryOp.tree BinaryOp.text
      dsimp only
      split
      · exact (htwo.parses _).respell (by simp)
      · exact (hone.parses _).respell (by simp)
  | random =>
      have hrandint : Primes "randint" (.name "randint") := Python.primes_name rfl
      have hcall := hrandint.call (.cons (hintl.parses _) (.cons (hintr.parses _) .nil))
      exact (hcall.parses _).respell (by simp [BinaryOp.text])

theorem readsAs_listQuery {q : ListQuery} {list : Reference} {e : Expr} {a : String}
    (he : e.ReadsAs a)
    (hbare : ∀ x ∈ (listQuery q list e).bareOperands, x.isPredicate = false) :
    (listQuery q list e).ReadsAs (q.text (identifier list.name) a) := by
  have hlist : Primes (identifier list.name) _ := Python.primes_name (isName_identifier list.name)
  cases q with
  | itemAt =>
      have hindex := (primes_call_of (f := "int") rfl he.whole).sum_one (.inr rfl)
      exact ((hlist.subscript hindex).parses _).respell (by simp [ListQuery.text])
  | indexOf =>
      have hindex : Primes (identifier list.name ++ "." ++ "index" ++ "(" ++ a ++ ")") _ :=
        (hlist.member rfl).call_one he.whole
      exact ((hindex.sum_one (.inl rfl)).paren.parses _).respell (by simp [ListQuery.text])
  | contains =>
      have ha := he.bare (hbare e List.mem_cons_self)
      have hin : Parses .comparison (a ++ " in " ++ identifier list.name)
          (.compare e.tree [("in", _)]) :=
        .operation rfl Python.isMark_in (ha.mono (by decide)) (hlist.parses _)
      exact (hin.paren.parses _).respell (by simp [ListQuery.text])

theorem readsAs_between {value low high : Expr} {v a b : String} (hv : value.ReadsAs v)
    (ha : low.ReadsAs a) (hb : high.ReadsAs b)
    (hbare : ∀ x ∈ (between value low high).bareOperands, x.isPredicate = false) :
    (between value low high).ReadsAs ("(" ++ a ++ " <= " ++ v ++ " <= " ++ b ++ ")") := by
  simp only [bareOperands, List.forall_mem_cons] at hbare
  obtain ⟨hvalue, hlow, hhigh, -⟩ := hbare
  have hmark := Python.isMark_sign (show "<=" ∈ Python.Level.comparison.signs by decide)
  have hlinks : Python.Follows .comparison
      ((" " ++ "<=" ++ " ") ++ v ++ ((" " ++ "<=" ++ " ") ++ b))
      [("<=", value.tree), ("<=", high.tree)] :=
    .cons hmark ((hv.bare hvalue).mono (by decide))
      (.last hmark ((hb.bare hhigh).mono (by decide)))
  have hchain : Parses .comparison _
      (.compare low.tree [("<=", value.tree), ("<=", high.tree)]) :=
    .follows rfl ((ha.bare hlow).mono (by decide)) hlinks
  exact (hchain.paren.parses _).respell (by simp)

theorem readsAs_ports {letters : List Char} (h : ∀ c ∈ letters, c ∈ portLetters) :
    (ports letters).ReadsAs
      ("[" ++ ", ".intercalate (letters.map fun c => "'" ++ String.singleton c ++ "'") ++ "]") := by
  refine (Python.primes_list ?_).parses _
  rw [List.forall₂_map_left_iff, List.forall₂_map_right_iff, List.forall₂_same]
  intro c hc
  have hquote : portLetters.all
      (fun c => "'" ++ String.singleton c ++ "'" == quote (String.singleton c)) = true := by
    decide
  rw [eq_of_beq (List.all_eq_true.mp hquote c (h c hc))]
  exact (Python.primes_quote _).parses _

theorem primes_device {d : Device} {port : Expr} {text : String}
    (h : port.deviceScript d = .ok text) (hport : ∀ c ∈ port.letters, c ∈ portLetters) :
    Primes text (port.deviceTree d) := by
  obtain ⟨letter, rfl, rfl⟩ | ⟨r, rfl, rfl⟩ := deviceScript_cases h
  · have hletter := isNameChar_of_mem_portLetters letter (hport letter List.mem_cons_self)
    have hname := isName_objectName d hletter
    rw [d.objectName_eq] at hname ⊢
    exact Python.primes_name hname
  · have hzero : Parses .minus "0" (.integer 0) :=
      Python.parses_numeral rfl rfl rfl rfl (.integer 0)
    have hclass : Primes d.className (.name d.constructor) := by
      rw [d.className_eq]
      exact Python.primes_name (by cases d <;> rfl)
    have hname : Primes (identifier r.name) _ := Python.primes_name (isName_identifier r.name)
    exact (hclass.call_one ((hname.subscript hzero).parses _)).respell (by simp)

theorem parses_literalColorTest {sensor text : String} {t : Tree} {i : Int}
    (hsensor : Primes sensor t) (h : Emit.literalColorTest sensor i = .ok text) :
    Parses .inversion text (colorTestTree (t.method "get_color") i) := by
  have hreading : Primes (sensor ++ "." ++ "get_color" ++ "()") _ := hsensor.method rfl
  obtain ⟨c, hc, rfl⟩ := map_eq_ok_iff.mp h
  have hequal := parses_equal hreading (primes_sensorColor c)
  have hequal : Parses .inversion _ _ := hequal.mono (by decide)
  unfold colorTestTree
  rw [hc]
  cases c with
  | none =>
      have his : Parses .comparison (sensor ++ "." ++ "get_color" ++ "()" ++ " is " ++ "None")
          (.compare _ [("is", .constant "None")]) :=
        .operation rfl Python.isMark_is (hreading.parses _) (Python.primes_none.parses _)
      have his : Parses .inversion _ _ := his.mono (by decide)
      exact his.respell (by simp)
  | _ => exact hequal.respell (by simp)

theorem readsAs_device {q : DeviceQuery} {port : Expr} {sensor : String}
    (hsensor : Primes sensor (port.deviceTree q.target)) :
    (device q port).ReadsAs (q.text sensor) := by
  cases q with
  | motorPosition =>
      have hcall : Primes (sensor ++ "." ++ "get_position" ++ "()") _ := hsensor.method rfl
      exact (hcall.parses _).respell (by simp [DeviceQuery.text])
  | motorSpeed =>
      have hcall : Primes (sensor ++ "." ++ "get_speed" ++ "()") _ := hsensor.method rfl
      exact (hcall.parses _).respell (by simp [DeviceQuery.text])
  | color =>
      have hcall : Primes (sensor ++ "." ++ "get_color" ++ "()") _ := hsensor.method rfl
      have htable := primes_colorIndexTable.subscript (hcall.parses .disjunction)
      exact (htable.parses _).respell (by simp [DeviceQuery.text])
  | reflectedLight =>
      have hcall : Primes (sensor ++ "." ++ "get_reflected_light" ++ "()") _ := hsensor.method rfl
      exact (hcall.parses _).respell (by simp [DeviceQuery.text])
  | distance unit =>
      rw [DeviceQuery.text, unit.method_eq]
      exact (hsensor.method (isName_reader unit)).parses _

theorem readsAs_deviceTest {test : DeviceTest} {port value : Expr} {text : String}
    (hdevice : ∀ sensor, port.deviceScript test.target = .ok sensor →
      Primes sensor (port.deviceTree test.target))
    (hvalue : ∀ v, value.script = .ok v → value.ReadsAs v)
    (hbare : ∀ x ∈ (deviceTest test port value).bareOperands, x.isPredicate = false)
    (h : (deviceTest test port value).script = .ok text) :
    (deviceTest test port value).ReadsAs text := by
  obtain ⟨sensor, hsensor, hcases⟩ := script_deviceTest_cases h
  have hs := hdevice sensor hsensor
  unfold ReadsAs tree
  obtain ⟨i, rfl, hindex, h⟩ |
    ⟨v, hv, ⟨rfl, hindex, rfl⟩ | ⟨op, rfl, rfl⟩ | ⟨op, unit, rfl, rfl⟩⟩ := hcases
  · simp only [hindex]
    exact parses_literalColorTest hs h
  · simp only [hindex]
    have hint := primes_call_of (f := "int") rfl (hvalue v hv).whole
    have hname := primes_colorNameTable.subscript (hint.parses .disjunction)
    have hreading : Primes (sensor ++ "." ++ "get_color" ++ "()") _ := hs.method rfl
    have hequal : Parses .inversion _ _ := (parses_equal hreading hname).mono (by decide)
    exact hequal.respell (by simp)
  · have hreading : Primes (sensor ++ "." ++ "get_reflected_light" ++ "()") _ := hs.method rfl
    have hoperand := (hvalue v hv).bare (hbare value List.mem_cons_self)
    exact (parses_comparison op (hreading.parses _) hoperand).respell (by simp)
  · have hreading := hs.method (isName_reader unit)
    have hoperand := (hvalue v hv).bare (hbare value List.mem_cons_self)
    exact (parses_comparison op (hreading.parses _) hoperand).respell (by simp [unit.method_eq])

theorem readsAs_script {e : Expr} {text : String} (hsorted : e.WellSorted) (hports : e.OnHub)
    (h : e.script = .ok text) : e.ReadsAs text := by
  induction e generalizing text with
  | number x =>
      obtain rfl := Except.ok.inj h
      exact parses_number x
  | text s =>
      obtain rfl := Except.ok.inj h
      exact (Python.primes_quote s).parses _
  | ports letters =>
      obtain rfl := Except.ok.inj h
      exact readsAs_ports hports.own
  | ref r =>
      obtain rfl := Except.ok.inj h
      exact (Python.primes_name (isName_identifier r.name)).parses _
  | reading r =>
      obtain rfl := Except.ok.inj h
      exact r.parses
  | keyPressed key _ =>
      obtain rfl := Except.ok.inj h
      exact Python.primes_false.parses _
  | listLength list =>
      obtain rfl := Except.ok.inj h
      have hlist := Python.primes_name (isName_identifier list.name)
      have hlen := primes_call_of (f := "len") rfl (hlist.parses _)
      exact (hlen.parses _).respell (by simp)
  | unary op a ih =>
      obtain ⟨t, ht, h⟩ := bind_eq_ok_iff.mp h
      have ha : a ∈ (unary op a).visible := List.mem_cons_self
      exact readsAs_unary h (ih (hsorted.operand ha) (hports.operand ha) ht) hsorted.bare
  | binary op a b iha ihb =>
      simp only [script, bind_eq_ok_iff, pure_eq_ok_iff] at h
      obtain ⟨t, ht, u, hu, rfl⟩ := h
      have ha : a ∈ (binary op a b).visible := by simp [visible, children]
      have hb : b ∈ (binary op a b).visible := by simp [visible, children]
      exact readsAs_binary (iha (hsorted.operand ha) (hports.operand ha) ht)
        (ihb (hsorted.operand hb) (hports.operand hb) hu) hsorted.bare
  | between v a b ihv iha ihb =>
      simp only [script, bind_eq_ok_iff, pure_eq_ok_iff] at h
      obtain ⟨s, hs, t, ht, u, hu, rfl⟩ := h
      have hv : v ∈ (between v a b).visible := by simp [visible, children]
      have ha : a ∈ (between v a b).visible := by simp [visible, children]
      have hb : b ∈ (between v a b).visible := by simp [visible, children]
      exact readsAs_between (ihv (hsorted.operand hv) (hports.operand hv) hs)
        (iha (hsorted.operand ha) (hports.operand ha) ht)
        (ihb (hsorted.operand hb) (hports.operand hb) hu) hsorted.bare
  | listQuery q list a ih =>
      simp only [script, bind_eq_ok_iff, pure_eq_ok_iff] at h
      obtain ⟨t, ht, rfl⟩ := h
      have ha : a ∈ (listQuery q list a).visible := List.mem_cons_self
      exact readsAs_listQuery (ih (hsorted.operand ha) (hports.operand ha) ht) hsorted.bare
  | device q port _ =>
      -- Not by the induction: the port is written as the device on it.
      simp only [script, bind_eq_ok_iff, pure_eq_ok_iff] at h
      obtain ⟨sensor, hsensor, rfl⟩ := h
      have hvisible : port ∈ (device q port).visible := List.mem_cons_self
      have hport := hports.operand hvisible
      exact readsAs_device (primes_device hsensor hport.own)
  | deviceTest test port value _ ih =>
      have hport : port ∈ (deviceTest test port value).visible := by simp [visible, children]
      have hvalue : value ∈ (deviceTest test port value).visible := by simp [visible, children]
      refine readsAs_deviceTest (fun sensor hsensor => ?_) (fun v hv => ?_) hsorted.bare h
      · exact primes_device hsensor (hports.operand hport).own
      · exact ih (hsorted.operand hvalue) (hports.operand hvalue) hv

end Expr

theorem parses_negate {text : String} {t : Tree} (h : Parses .minus text t) :
    Parses .minus (negate text) (.neg t) := by
  unfold negate
  split
  · have hparen : Parses .minus ("(" ++ text ++ ")") t := h.paren.parses _
    exact hparen.minus.respell (by simp)
  · exact h.minus

/-- Python reads the text that is generated from an expression as the syntax tree of the expression,
and a minus sign before an operand that is no condition as a minus sign before its tree. -/
theorem parse_expr {e : Expr} {d d' : Draft} {t : String} (hsorted : e.WellSorted)
    (hports : e.OnHub) (h : (Emit.expr e).run d = .ok (t, d')) :
    parse t = some e.tree ∧ (e.isPredicate = false → parse (negate t) = some (.neg e.tree)) := by
  have hreads := Expr.readsAs_script hsorted hports (Emit.expr_run_eq_ok_iff.mp h).1
  exact ⟨hreads.whole.parse, fun hplain => (parses_negate (hreads.bare hplain)).parse⟩

/-- The position of a motor less two and a half, rounded. -/
def Expr.roundedPosition : Expr :=
  .unary .round (.binary (.arithmetic .add) (.device .motorPosition (.ports ['A']))
    (.number (.ofBits 0xC004000000000000)))

theorem parse_expr_roundedPosition :
    Expr.roundedPosition.WellSorted ∧ Expr.roundedPosition.OnHub ∧ ∃ d' t,
      (Emit.expr .roundedPosition).run (.empty false) =
        .ok ("int((motor_a.get_position() + -2.5) + 0.5)", d') ∧
      t = .call (.name "int") [.binary "+" (.binary "+" (.method (.name "motor_a") "get_position")
        (.neg (.float ⟨false, 1024, ⟨1125899906842624, by decide⟩⟩))) (.float .half)] ∧
      parse "int((motor_a.get_position() + -2.5) + 0.5)" = some t ∧
      parse "-int((motor_a.get_position() + -2.5) + 0.5)" = some (.neg t) := by
  have hsorted : Expr.roundedPosition.WellSorted := by
    unfold Expr.WellSorted
    decide
  have hports : Expr.roundedPosition.OnHub := by
    simp [Expr.OnHub, Expr.roundedPosition, Expr.visited, Expr.letters, portLetters]
  have hrun : (Emit.expr .roundedPosition).run (.empty false) =
      .ok ("int((motor_a.get_position() + -2.5) + 0.5)", _) :=
    Emit.expr_run_eq_ok_iff.mpr ⟨by decide +kernel, rfl⟩
  have hparse := parse_expr hsorted hports hrun
  exact ⟨hsorted, hports, _, _, hrun, rfl, hparse.1, hparse.2 rfl⟩

end WordBlocks
