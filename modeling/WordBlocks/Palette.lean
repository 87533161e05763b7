import WordBlocks.Error

/-!
Colour palettes. A program names a colour by its index in the palette of the colour sensor or of
the hub's centre button; the indices have gaps.
-/

namespace WordBlocks

/-- What the colour sensor reports. -/
inductive SensorColor where
  | none
  | black
  | violet
  | blue
  | azure
  | green
  | yellow
  | red
  | white
deriving DecidableEq, Repr

namespace SensorColor

/-- The palette in order. -/
def all : List SensorColor :=
  [.none, .black, .violet, .blue, .azure, .green, .yellow, .red, .white]

/-- The index of a colour; no colour at all has the index `-1`. -/
def index : SensorColor → Int
  | .none => -1
  | .black => 0
  | .violet => 1
  | .blue => 3
  | .azure => 4
  | .green => 5
  | .yellow => 7
  | .red => 9
  | .white => 10

/-- The colour at an index. -/
def ofIndex (i : Int) : Except CompileError SensorColor :=
  match all.find? (·.index == i) with
  | some c => .ok c
  | .none => .error (.invalidIndex "SensorColor" i)

end SensorColor

/-- A colour of the light around the hub's centre button. -/
inductive ButtonColor where
  | black
  | violet
  | blue
  | azure
  | green
  | yellow
  | red
  | white
deriving DecidableEq, Repr

namespace ButtonColor

/-- The palette in order. -/
def all : List ButtonColor :=
  [.black, .violet, .blue, .azure, .green, .yellow, .red, .white]

/-- The index of a colour. -/
def index : ButtonColor → Int
  | .black => 0
  | .violet => 1
  | .blue => 3
  | .azure => 4
  | .green => 5
  | .yellow => 7
  | .red => 9
  | .white => 10

/-- The colour at an index. -/
def ofIndex (i : Int) : Except CompileError ButtonColor :=
  match all.find? (·.index == i) with
  | some c => .ok c
  | none => .error (.invalidIndex "CenterButtonColor" i)

end ButtonColor

end WordBlocks
