import WordBlocks.Proofs.Demand
import WordBlocks.Proofs.Visit
import WordBlocks.Script.Expr

/-!
Expressions without a draft. The text of an expression, the declarations it demands and the comments
it leaves are functions of the expression alone, and `Emit.expr_run` says that generation from any
draft gives just these.
-/

namespace WordBlocks

open Choice (tag)
open Script

/-- The object that a reporter without operands asks. -/
def Reading.demand : Reading → Demand
  | timer => .timer
  | _ => .hub

/-- The name of the object that a reporter without operands asks. -/
def Reading.object : Reading → String
  | timer => "timer"
  | _ => "hub"

/-- The text of a reporter without operands. -/
def Reading.script (r : Reading) : String :=
  match r with
  | gesture => gestureTable ++ "[" ++ r.object ++ ".motion_sensor.get_gesture()]"
  | isGesture g => r.object ++ ".motion_sensor.get_gesture() == " ++ g.scriptName
  | orientation => orientationTable ++ "[" ++ r.object ++ ".motion_sensor.get_orientation()]"
  | isOrientation o => r.object ++ ".motion_sensor.get_orientation() == '" ++ tag o ++ "'"
  | angle axis => r.object ++ ".motion_sensor.get_" ++ tag axis ++ "_angle()"
  | button b s => r.object ++ "." ++ tag b ++ "_button.is_" ++ tag s ++ "()"
  | timer => r.object ++ ".now()"
  | volume => r.object ++ ".speaker.get_volume()"

/-- The device that a test asks. -/
def DeviceTest.target : DeviceTest → Device
  | color | reflectedLight _ => .colorSensor
  | distance _ _ => .distanceSensor

namespace Expr

/-- The text of the device on the port that an expression gives. -/
def deviceScript (d : Device) : Expr → Except CompileError String
  | ports [letter] => .ok (d.objectName letter)
  | ref r => .ok (d.className ++ "(" ++ identifier r.name ++ "[0])")
  | other => .error (.unsupportedPort (.operand other.label))

/-- The text of an expression. -/
def script : Expr → Except CompileError String
  | number x => .ok (numberText x)
  | text s => .ok (quote s)
  | ports letters =>
    .ok ("[" ++ ", ".intercalate (letters.map fun c => "'" ++ String.singleton c ++ "'") ++ "]")
  | ref r => .ok (identifier r.name)
  | reading r => .ok r.script
  | unary op e => do
    let a ← e.script
    op.text a
  | binary op left right => do
    let a ← left.script
    let b ← right.script
    return op.text a b
  | between value low high => do
    let v ← value.script
    let a ← low.script
    let b ← high.script
    return "(" ++ a ++ " <= " ++ v ++ " <= " ++ b ++ ")"
  | device q port => do
    let d ← port.deviceScript q.target
    return q.text d
  | deviceTest test port value => do
    let sensor ← port.deviceScript test.target
    match test with
    | .color =>
      match literalIndex? value with
      | some i => Emit.literalColorTest sensor i
      | none => do
        let index ← value.script
        return sensor ++ ".get_color() == " ++ colorNameTable ++ "[int(" ++ index ++ ")]"
    | .reflectedLight op => do
      let v ← value.script
      return sensor ++ ".get_reflected_light() " ++ op.symbol ++ " " ++ v
    | .distance op unit => do
      let v ← value.script
      return sensor ++ "." ++ unit.method ++ "() " ++ op.symbol ++ " " ++ v
  | keyPressed _ => .ok "False"
  | listLength list => .ok ("len(" ++ identifier list.name ++ ")")
  | listQuery q list operand => do
    let a ← operand.script
    return q.text (identifier list.name) a

/-- The objects for the devices on the ports that an expression lists. -/
def devices (d : Device) : Expr → List Demand
  | ports letters => letters.map (Demand.device d)
  | _ => []

/-- What an expression itself needs, apart from its operands. -/
def needs : Expr → List Demand
  | reading r => [r.demand]
  | binary .random _ _ => [.random]
  | device q port => port.devices q.target
  | deviceTest test port _ => port.devices test.target
  | _ => []

end Expr

/-- The comment for a key press, which a hub cannot notice. -/
def Script.keyNote : String :=
  placeholderText "key pressed" none

namespace Expr

/-- The comments that an expression itself leaves, apart from its operands. -/
def ownNotes : Expr → List String
  | keyPressed _ => [keyNote]
  | _ => []

/-- Everything that an expression demands, in the order of the visit. -/
def demands (e : Expr) : List Demand :=
  e.visited.flatMap needs

/-- The comments that an expression leaves, in the order of the visit. -/
def notes (e : Expr) : List String :=
  e.visited.flatMap ownNotes

theorem demands_eq (e : Expr) : e.demands = e.needs ++ e.visible.flatMap demands := by
  unfold demands
  rw [visited_eq, List.flatMap_cons, List.flatMap_assoc]

theorem notes_eq (e : Expr) : e.notes = e.ownNotes ++ e.visible.flatMap notes := by
  unfold notes
  rw [visited_eq, List.flatMap_cons, List.flatMap_assoc]

theorem eq_keyNote_of_mem_notes {e : Expr} {t : String} (h : t ∈ e.notes) : t = keyNote := by
  obtain ⟨e', _, ht⟩ := List.mem_flatMap.mp h
  cases e' with
  | keyPressed key => exact List.mem_singleton.mp ht
  | _ => cases ht

theorem deviceScript_cases {dev : Device} {port : Expr} {t : String}
    (h : port.deviceScript dev = .ok t) :
    (∃ letter, port = .ports [letter] ∧ t = dev.objectName letter) ∨
      ∃ r, port = .ref r ∧ t = dev.className ++ "(" ++ identifier r.name ++ "[0])" := by
  unfold deviceScript at h
  split at h
  · exact .inl ⟨_, rfl, (Except.ok.inj h).symm⟩
  · exact .inr ⟨_, rfl, (Except.ok.inj h).symm⟩
  · cases h

/-- A test is written with the device on its port and with its operand. Only a colour that is
written directly is not generated from the operand. -/
theorem script_deviceTest_cases {test : DeviceTest} {port value : Expr} {t : String}
    (h : (deviceTest test port value).script = .ok t) :
    ∃ sensor, port.deviceScript test.target = .ok sensor ∧
      ((∃ i, test = .color ∧ literalIndex? value = some i ∧
          Emit.literalColorTest sensor i = .ok t) ∨
        ∃ v, value.script = .ok v ∧
          (test = .color ∧ literalIndex? value = none ∧
              t = sensor ++ ".get_color() == " ++ colorNameTable ++ "[int(" ++ v ++ ")]" ∨
            (∃ op, test = .reflectedLight op ∧
              t = sensor ++ ".get_reflected_light() " ++ op.symbol ++ " " ++ v) ∨
            ∃ op unit, test = .distance op unit ∧
              t = sensor ++ "." ++ unit.method ++ "() " ++ op.symbol ++ " " ++ v)) := by
  obtain ⟨sensor, hsensor, h⟩ := bind_eq_ok_iff.mp h
  refine ⟨sensor, hsensor, ?_⟩
  cases test with
  | color =>
      cases hindex : literalIndex? value with
      | some i =>
          rw [hindex] at h
          exact .inl ⟨i, rfl, rfl, h⟩
      | none =>
          simp only [hindex, bind_eq_ok_iff, pure_eq_ok_iff] at h
          obtain ⟨v, hv, rfl⟩ := h
          exact .inr ⟨v, hv, .inl ⟨rfl, rfl, rfl⟩⟩
  | reflectedLight op =>
      simp only [bind_eq_ok_iff, pure_eq_ok_iff] at h
      obtain ⟨v, hv, rfl⟩ := h
      exact .inr ⟨v, hv, .inr (.inl ⟨op, rfl, rfl⟩)⟩
  | distance op unit =>
      simp only [bind_eq_ok_iff, pure_eq_ok_iff] at h
      obtain ⟨v, hv, rfl⟩ := h
      exact .inr ⟨v, hv, .inr (.inr ⟨op, unit, rfl, rfl⟩)⟩

theorem quiet_of_deviceScript {dev : Device} {port : Expr} {t : String}
    (h : port.deviceScript dev = .ok t) : port.demands = [] ∧ port.notes = [] := by
  obtain ⟨letter, rfl, -⟩ | ⟨r, rfl, -⟩ := deviceScript_cases h
  · exact ⟨rfl, rfl⟩
  · exact ⟨rfl, rfl⟩

theorem quiet_of_literalIndex {e : Expr} {i : Int} (h : literalIndex? e = some i) :
    e.demands = [] ∧ e.notes = [] := by
  unfold literalIndex? at h
  split at h
  · exact ⟨rfl, rfl⟩
  · exact ⟨rfl, rfl⟩
  · cases h

end Expr

namespace Script.Emit

@[simp] theorem reading_run (r : Reading) (d : Draft) :
    (reading r).run d = pure (r.script, d.add [r.demand] []) := by
  cases r <;>
    simp only [reading, StateT.run_bind, hub_run, timer_run, pure_bind, StateT.run_pure,
      Reading.script, Reading.demand, Reading.object]

@[simp] theorem singleDevice_run (dev : Device) (port : Expr) (d : Draft) :
    (singleDevice dev port).run d = port.deviceScript dev >>= fun t =>
      pure (t, d.add (port.devices dev) []) := by
  unfold singleDevice Expr.deviceScript
  split <;> simp [Expr.devices, ok_eq_pure]

/-- Generation of an expression gives its text and adds what it demands and its comments, whatever
has been declared before. -/
@[simp] theorem expr_run (e : Expr) (d : Draft) :
    (expr e).run d = e.script >>= fun t =>
      pure (t, d.add e.demands (linesAt d.indent e.notes)) := by
  induction e generalizing d with
  | number _ | text _ | ports _ | ref _ | listLength _ | reading _ | keyPressed _ =>
      rw [Expr.demands_eq, Expr.notes_eq]
      simp [expr, Expr.script, Expr.needs, Expr.ownNotes, Expr.visible, Expr.children, keyNote,
        ok_eq_pure]
  | unary op e ih =>
      rw [Expr.demands_eq, Expr.notes_eq]
      simp [expr, Expr.script, Expr.needs, Expr.ownNotes, Expr.visible, Expr.children, ih]
  | binary op left right ihl ihr =>
      rw [Expr.demands_eq, Expr.notes_eq]
      by_cases hop : op = .random
      · simp [expr, hop, Expr.script, Expr.needs, Expr.ownNotes, Expr.visible, Expr.children, ihl,
          ihr]
      · have hneeds : (Expr.binary op left right).needs = [] := by
          cases op <;> simp_all [Expr.needs]
        simp [expr, hop, Expr.script, hneeds, Expr.ownNotes, Expr.visible, Expr.children, ihl, ihr]
  | between value low high ihv ihl ihh =>
      rw [Expr.demands_eq, Expr.notes_eq]
      simp [expr, Expr.script, Expr.needs, Expr.ownNotes, Expr.visible, Expr.children, ihv, ihl,
        ihh]
  | listQuery q list e ih =>
      rw [Expr.demands_eq, Expr.notes_eq]
      simp [expr, Expr.script, Expr.needs, Expr.ownNotes, Expr.visible, Expr.children, ih]
  | device q port ih =>
      rw [Expr.demands_eq, Expr.notes_eq]
      simp only [expr, Expr.script, StateT.run_bind, singleDevice_run, StateT.run_pure]
      cases h : port.deviceScript q.target with
      | error _ => simp
      | ok t =>
          obtain ⟨hd, hn⟩ := Expr.quiet_of_deviceScript h
          simp [Expr.needs, Expr.ownNotes, Expr.visible, Expr.children, hd, hn, ok_eq_pure]
  | deviceTest test port value ihp ihv =>
      rw [Expr.demands_eq, Expr.notes_eq]
      cases h : port.deviceScript test.target with
      | error _ => cases test <;> simp_all [expr, Expr.script, DeviceTest.target]
      | ok sensor =>
          obtain ⟨hd, hn⟩ := Expr.quiet_of_deviceScript h
          -- Only a colour that is written directly is not generated from its operand.
          cases test with
          | color =>
              cases hi : literalIndex? value with
              | some i =>
                  obtain ⟨hvd, hvn⟩ := Expr.quiet_of_literalIndex hi
                  simp_all [expr, Expr.script, Expr.needs, Expr.ownNotes, Expr.visible,
                    Expr.children, DeviceTest.target, ok_eq_pure]
              | none =>
                  simp_all [expr, Expr.script, Expr.needs, Expr.ownNotes, Expr.visible,
                    Expr.children, DeviceTest.target, ok_eq_pure]
          | reflectedLight op =>
              simp_all [expr, Expr.script, Expr.needs, Expr.ownNotes, Expr.visible, Expr.children,
                DeviceTest.target, ok_eq_pure]
          | distance op unit =>
              simp_all [expr, Expr.script, Expr.needs, Expr.ownNotes, Expr.visible, Expr.children,
                DeviceTest.target, ok_eq_pure]

end Script.Emit

end WordBlocks
