import WordBlocks.Proofs.LineShape
import WordBlocks.Proofs.Lowered
import WordBlocks.Proofs.ProgramScript

/-!
Line ends in scripts. Names, strings, numbers and ports of a project reach a script only through
tokens without line ends, so every line of a script stays one line in its text. The one exception is
the opcode of an unknown block, which a placeholder takes over as it is.
-/

namespace WordBlocks

open Choice (tag)

namespace Script

/-- The characters that end a line. -/
def isLineEnd (c : Char) : Bool :=
  c == '\n' || c == '\r'

/-- Whether a text has no line end in it. -/
def oneLine (s : String) : Bool :=
  s.toList.all fun c => !isLineEnd c

@[simp] theorem oneLine_append (s t : String) : oneLine (s ++ t) = (oneLine s && oneLine t) := by
  rw [oneLine, String.toList_append, List.all_append]
  rfl

/-- For a text that is written out: its characters are found by unification, and need not be decoded
again. -/
theorem oneLine_ofList {cs : List Char} (h : cs.all (fun c => !isLineEnd c) = true) :
    oneLine (String.ofList cs) = true := by
  rw [oneLine, String.toList_ofList, h]

theorem oneLine_of_forall {p : Char → Bool} {s : String} (h : ∀ c ∈ s.toList, p c = true)
    (hends : p '\n' = false ∧ p '\r' = false) : oneLine s = true := by
  rw [oneLine, List.all_eq_true]
  intro c hc
  have hp := h c hc
  simp only [isLineEnd, Bool.not_or, Bool.and_eq_true, Bool.not_eq_true', beq_eq_false_iff_ne]
  constructor
  · rintro rfl
    exact absurd hp (by simp [hends.1])
  · rintro rfl
    exact absurd hp (by simp [hends.2])

@[simp] theorem oneLine_identifier (name : String) : oneLine (identifier name) = true :=
  oneLine_of_forall (identifier_chars name) (by decide)

theorem isLineEnd_of_mem_escapeChar {c a : Char} (h : a ∈ escapeChar c) : isLineEnd a = false := by
  have hfixed : ∀ cs ∈ [['\\', '\\'], ['\\', '\''], ['\\', 'n'], ['\\', 'r'], ['\\', 't']],
      ∀ a ∈ cs, isLineEnd a = false := by simp [isLineEnd]
  unfold escapeChar at h
  split at h
  · exact hfixed _ (by simp) a h
  · split at h
    · exact hfixed _ (by simp) a h
    · split at h
      · exact hfixed _ (by simp) a h
      · split at h
        · exact hfixed _ (by simp) a h
        · split at h
          · exact hfixed _ (by simp) a h
          · rename_i hlf hcr _
            obtain rfl := List.mem_singleton.mp h
            simp [isLineEnd, hlf, hcr]

@[simp] theorem oneLine_quote (s : String) : oneLine (quote s) = true := by
  rw [oneLine, quote_toList, List.all_eq_true]
  intro a ha
  rw [Bool.not_eq_true']
  rcases List.mem_cons.mp ha with rfl | ha
  · rfl
  · rcases List.mem_append.mp ha with ha | ha
    · obtain ⟨c, _, ha⟩ := List.mem_flatMap.mp ha
      exact isLineEnd_of_mem_escapeChar ha
    · obtain rfl := List.mem_singleton.mp ha
      rfl

@[simp] theorem oneLine_numberText (x : Binary64) : oneLine (numberText x) = true := by
  cases hfin : x.isFinite with
  | false =>
      have hwords : ∀ w ∈ ["float('nan')", "float('inf')", "float('-inf')"],
          oneLine w = true := by decide
      exact hwords _ (numberText_of_not_isFinite hfin)
  | true => exact oneLine_of_forall (numberText_chars hfin) (by decide)

theorem oneLine_toString (n : Nat) : oneLine (toString n) = true := by
  apply oneLine_of_forall (p := Char.isDigit) _ (by decide)
  exact fun c => isDigit_of_mem_toString

theorem oneLine_toString_int (z : Int) : oneLine (toString z) = true := by
  cases z with
  | ofNat n => exact oneLine_toString n
  | negSucc n =>
      have htext : toString (Int.negSucc n) = "-" ++ toString (n + 1) := rfl
      rw [htext, oneLine_append, oneLine_toString]
      decide

theorem oneLine_intercalate {separator : String} {texts : List String}
    (hseparator : oneLine separator = true) (h : ∀ t ∈ texts, oneLine t = true) :
    oneLine (separator.intercalate texts) = true := by
  induction texts with
  | nil => rfl
  | cons t texts ih =>
      obtain ⟨ht, htexts⟩ := List.forall_mem_cons.mp h
      cases texts with
      | nil => simpa using ht
      | cons u texts =>
          rw [String.intercalate_cons_cons, oneLine_append, oneLine_append, ht, hseparator,
            ih htexts]
          rfl

theorem oneLine_negate {s : String} (h : oneLine s = true) : oneLine (negate s) = true := by
  unfold negate
  split <;> simp +decide [h]

theorem oneLine_singleton (c : Char) : oneLine (String.singleton c) = !isLineEnd c := by
  simp [oneLine]

theorem oneLine_of_mem_portLetters {c : Char} (h : c ∈ portLetters) :
    oneLine (String.singleton c) = true ∧ oneLine (String.singleton c.toLower) = true := by
  have hends : isLineEnd c = false ∧ isLineEnd c.toLower = false := by
    simp only [portLetters, List.mem_cons, List.not_mem_nil, or_false] at h
    rcases h with rfl | rfl | rfl | rfl | rfl | rfl <;> decide
  simp [oneLine_singleton, hends]

theorem oneLine_objectName (d : Device) {port : Char} (h : port ∈ portLetters) :
    oneLine (d.objectName port) = true := by
  have hstem : oneLine d.stem = true := by cases d <;> decide
  rw [Device.objectName, oneLine_append, oneLine_append, hstem, (oneLine_of_mem_portLetters h).2]
  rfl

@[simp] theorem oneLine_className (d : Device) : oneLine d.className = true := by
  cases d <;> decide

@[simp] theorem oneLine_gesture (g : Gesture) : oneLine g.scriptName = true := by
  cases g <;> decide

@[simp] theorem oneLine_orientation (o : Orientation) : oneLine (tag o) = true := by
  cases o <;> decide

@[simp] theorem oneLine_sensorColor (c : SensorColor) : oneLine c.scriptName = true := by
  cases c <;> decide

@[simp] theorem oneLine_buttonColor (c : ButtonColor) : oneLine c.scriptName = true := by
  cases c <;> decide

theorem oneLine_dictionary {entries : List (String × String)}
    (h : ∀ e ∈ entries, oneLine e.1 = true ∧ oneLine e.2 = true) :
    oneLine (dictionary entries) = true := by
  have hentries : oneLine (", ".intercalate (entries.map fun e => e.1 ++ ": " ++ e.2)) = true := by
    apply oneLine_intercalate (by decide)
    rw [List.forall_mem_map]
    intro e he
    simp +decide [h e he]
  simp +decide [dictionary, hentries]

theorem oneLine_gestureTable : oneLine gestureTable = true := by
  apply oneLine_dictionary
  rw [List.forall_mem_cons, List.forall_mem_map]
  exact ⟨by decide, fun g _ => ⟨oneLine_gesture g.1, oneLine_toString g.2⟩⟩

theorem oneLine_orientationTable : oneLine orientationTable = true := by
  apply oneLine_dictionary
  rw [List.forall_mem_map]
  intro o _
  exact ⟨by simp +decide, oneLine_toString o.2⟩

theorem oneLine_colorIndexTable : oneLine colorIndexTable = true := by
  apply oneLine_dictionary
  rw [List.forall_mem_map]
  exact fun c _ => ⟨oneLine_sensorColor c, oneLine_toString_int _⟩

theorem oneLine_colorNameTable : oneLine colorNameTable = true := by
  apply oneLine_dictionary
  rw [List.forall_mem_map]
  exact fun c _ => ⟨oneLine_toString_int _, oneLine_sensorColor c⟩

theorem oneLine_buttonColorTable : oneLine buttonColorTable = true := by
  apply oneLine_dictionary
  rw [List.forall_mem_map]
  exact fun c _ => ⟨oneLine_toString_int _, oneLine_buttonColor c⟩

@[simp] theorem oneLine_reading (r : Reading) : oneLine r.script = true := by
  cases r with
  | gesture =>
      simp only [Reading.script, Reading.object, oneLine_append, oneLine_gestureTable]
      decide
  | orientation =>
      simp only [Reading.script, Reading.object, oneLine_append, oneLine_orientationTable]
      decide
  | isGesture g => simp +decide [Reading.script, Reading.object]
  | isOrientation o => simp +decide [Reading.script, Reading.object]
  | angle axis =>
      have hname : oneLine (tag axis) = true := by cases axis <;> decide
      simp +decide [Reading.script, Reading.object, hname]
  | button b s =>
      have hbutton : oneLine (tag b) = true := by cases b <;> decide
      have hstate : oneLine (tag s) = true := by cases s <;> decide
      simp +decide [Reading.script, Reading.object, hbutton, hstate]
  | timer | volume => decide

@[simp] theorem oneLine_opening (f : MathFunction) : oneLine f.opening = true := by
  cases f <;> decide

@[simp] theorem oneLine_comparison (op : Comparison) : oneLine op.symbol = true := by
  cases op <;> decide

theorem oneLine_unary {op : UnaryOp} {a t : String} (ha : oneLine a = true)
    (h : op.text a = .ok t) : oneLine t = true := by
  cases op with
  | math f =>
      simp only [UnaryOp.text] at h
      split at h
      · cases h
      · obtain rfl := Except.ok.inj h
        simp +decide [ha]
  | not | length | round =>
      obtain rfl := Except.ok.inj h
      simp +decide [ha]

theorem oneLine_binary (op : BinaryOp) {a b : String} (ha : oneLine a = true)
    (hb : oneLine b = true) : oneLine (op.text a b) = true := by
  cases op with
  | math f =>
      unfold BinaryOp.text
      dsimp only
      split <;> simp +decide [ha, hb]
  | arithmetic op =>
      have htag : oneLine (tag op) = true := by cases op <;> decide
      simp +decide [BinaryOp.text, ha, hb, htag]
  | comparison op => simp +decide [BinaryOp.text, ha, hb]
  | _ => simp +decide [BinaryOp.text, ha, hb]

@[simp] theorem oneLine_method (unit : DistanceUnit) : oneLine unit.method = true := by
  cases unit <;> decide

theorem oneLine_deviceQuery (q : DeviceQuery) {device : String} (h : oneLine device = true) :
    oneLine (q.text device) = true := by
  cases q <;> simp +decide [DeviceQuery.text, h, oneLine_colorIndexTable]

theorem oneLine_literalColorTest {sensor t : String} {i : Int} (hsensor : oneLine sensor = true)
    (h : Emit.literalColorTest sensor i = .ok t) : oneLine t = true := by
  obtain ⟨c, _, rfl⟩ := map_eq_ok_iff.mp h
  cases c with
  | none => simp +decide [hsensor]
  | _ => simp +decide [hsensor]

end Script

open Script

namespace Expr

theorem oneLine_deviceScript {dev : Device} {port : Expr} {t : String} (hport : port.IsPortSet)
    (h : port.deviceScript dev = .ok t) : oneLine t = true := by
  obtain ⟨letter, rfl, rfl⟩ | ⟨r, rfl, rfl⟩ := deviceScript_cases h
  · exact oneLine_objectName dev (hport.2.2 letter List.mem_cons_self)
  · simp +decide

theorem oneLine_script {e : Expr} {t : String} (he : e.WellFormed) (h : e.script = .ok t) :
    oneLine t = true := by
  induction e generalizing t with
  | number x | text s | ref r | reading r | keyPressed key _ =>
      obtain rfl := Except.ok.inj h
      simp +decide
  | listLength list =>
      obtain rfl := Except.ok.inj h
      simp +decide
  | ports letters => exact he.elim
  | unary op a ih =>
      obtain ⟨u, hu, ht⟩ := bind_eq_ok_iff.mp h
      exact oneLine_unary (ih he.2 hu) ht
  | binary op a b iha ihb =>
      simp only [script, bind_eq_ok_iff, pure_eq_ok_iff] at h
      obtain ⟨u, hu, v, hv, rfl⟩ := h
      exact oneLine_binary op (iha he.2.1 hu) (ihb he.2.2 hv)
  | between v a b ihv iha ihb =>
      simp only [script, bind_eq_ok_iff, pure_eq_ok_iff] at h
      obtain ⟨_, hv, _, ha, _, hb, rfl⟩ := h
      simp +decide [ihv he.1 hv, iha he.2.1 ha, ihb he.2.2 hb]
  | device q port _ =>
      simp only [script, bind_eq_ok_iff, pure_eq_ok_iff] at h
      obtain ⟨d, hd, rfl⟩ := h
      exact oneLine_deviceQuery q (oneLine_deviceScript he hd)
  | deviceTest test port value _ ihv =>
      obtain ⟨sensor, hsensor, hcases⟩ := script_deviceTest_cases h
      have hs := oneLine_deviceScript he.1 hsensor
      obtain ⟨i, -, -, h⟩ | ⟨v, hv, ⟨-, -, rfl⟩ | ⟨op, -, rfl⟩ | ⟨op, unit, -, rfl⟩⟩ := hcases
      · exact oneLine_literalColorTest hs h
      · simp +decide [hs, ihv he.2 hv, oneLine_colorNameTable]
      · simp +decide [hs, ihv he.2 hv]
      · simp +decide [hs, ihv he.2 hv]
  | listQuery q list operand ih =>
      simp only [script, bind_eq_ok_iff, pure_eq_ok_iff] at h
      obtain ⟨a, ha, rfl⟩ := h
      cases q <;> simp +decide [ListQuery.text, ih he ha]

end Expr

/-- Lines that are single lines of text. -/
def Script.Unbroken (ls : List Line) : Prop :=
  ∀ l ∈ ls, oneLine l.text = true

namespace Script

@[simp] theorem unbroken_nil : Unbroken [] := by
  simp [Unbroken]

@[simp] theorem unbroken_cons (l : Line) (ls : List Line) :
    Unbroken (l :: ls) ↔ oneLine l.text = true ∧ Unbroken ls :=
  List.forall_mem_cons

@[simp] theorem unbroken_append (ls ms : List Line) :
    Unbroken (ls ++ ms) ↔ Unbroken ls ∧ Unbroken ms :=
  List.forall_mem_append

@[simp] theorem unbroken_linesAt (n : Nat) (ts : List String) :
    Unbroken (linesAt n ts) ↔ ∀ t ∈ ts, oneLine t = true :=
  List.forall_mem_map

/-- Targets whose names have no line end. -/
def Targets.OneLine : Targets → Prop
  | objects names => ∀ m ∈ names, oneLine m = true
  | loop iterable object => oneLine iterable = true ∧ oneLine object = true

theorem unbroken_calls {t : Targets} (ht : t.OneLine) (n : Nat) {call : String → String}
    (hcall : ∀ m, oneLine m = true → oneLine (call m) = true) : Unbroken (t.calls n call) := by
  cases t with
  | objects names =>
      rw [Targets.calls, unbroken_linesAt, List.forall_mem_map]
      exact fun m hm => hcall m (ht m hm)
  | loop iterable object => simp +decide [Targets.calls, ht.1, hcall object ht.2]

theorem oneLine_fixedNotes : ∀ t ∈ fixedNotes, oneLine t = true := by
  simp only [fixedNotes, serialMotorsNote, List.cons_append, List.nil_append, List.forall_mem_cons]
  refine ⟨?_, ?_, ?_, ?_, ?_, ?_, ?_, List.forall_mem_nil _⟩
  all_goals exact oneLine_ofList (by decide)

end Script

theorem Expr.targets_oneLine {dev : Device} {ports : Expr} {t : Targets} (hports : ports.IsPortSet)
    (h : ports.targets dev = .ok t) : t.OneLine := by
  obtain ⟨letters, rfl, -, rfl⟩ | ⟨r, rfl, rfl⟩ := targets_cases h
  · rw [Targets.OneLine, List.forall_mem_map]
    exact fun letter hletter => oneLine_objectName dev (hports.2.2 letter hletter)
  · simp +decide [Targets.OneLine]

theorem DataAction.unbroken {a : DataAction} {n : Nat} {ls : List Line}
    (ha : ∀ e ∈ a.operands, e.WellFormed) (h : a.lines n = .ok ls) : Unbroken ls := by
  have hnote : oneLine oneBasedNote = true := oneLine_fixedNotes _ (by simp [fixedNotes])
  cases a with
  | set var value | change var value | append var value =>
      simp only [lines, bind_eq_ok_iff, pure_eq_ok_iff] at h
      obtain ⟨v, hv, rfl⟩ := h
      have hvalue := Expr.oneLine_script (ha _ List.mem_cons_self) hv
      simp +decide [hvalue]
  | delete list index =>
      simp only [lines, bind_eq_ok_iff, pure_eq_ok_iff] at h
      obtain ⟨i, hi, rfl⟩ := h
      have hindex := Expr.oneLine_script (ha _ List.mem_cons_self) hi
      simp +decide [hnote, hindex]
  | clear list =>
      obtain rfl := Except.ok.inj h
      simp +decide
  | insert list first second | replace list first second =>
      simp only [lines, bind_eq_ok_iff, pure_eq_ok_iff] at h
      obtain ⟨v, hv, i, hi, rfl⟩ := h
      have hfirst := Expr.oneLine_script (ha _ List.mem_cons_self) hv
      have hsecond := Expr.oneLine_script (ha _ (List.mem_cons_of_mem _ List.mem_cons_self)) hi
      simp +decide [hnote, hfirst, hsecond]

theorem MotorAction.oneLine_serialNote (t : Targets) : ∀ s ∈ serialNote t, oneLine s = true :=
  fun s hs => oneLine_fixedNotes s (serialNote_subset t hs)

theorem MotorAction.unbroken {a : MotorAction} {n : Nat} {ls : List Line} (ha : a.WellFormed)
    (h : a.lines n = .ok ls) : Unbroken ls := by
  have hnote : oneLine wholeDegreesNote = true := oneLine_fixedNotes _ (by simp [fixedNotes])
  cases a with
  | run ports direction value unit =>
      simp only [lines, bind_eq_ok_iff, pure_eq_ok_iff] at h
      obtain ⟨t, ht, v, hv, rfl⟩ := h
      have htargets := Expr.targets_oneLine ha.1 ht
      have hvalue := Expr.oneLine_script ha.2 hv
      have hamount : oneLine (if direction = .counterClockwise then negate v else v) = true := by
        split
        · exact oneLine_negate hvalue
        · exact hvalue
      rw [unbroken_append, unbroken_linesAt]
      refine ⟨oneLine_serialNote t, ?_⟩
      cases unit with
      | rotations | seconds =>
          apply unbroken_calls htargets
          intro m hm
          simp +decide [hm, hamount]
      | degrees =>
          refine (unbroken_cons _ _).mpr ⟨hnote, ?_⟩
          apply unbroken_calls htargets
          intro m hm
          simp +decide [hm, hamount]
  | goTo ports route position =>
      simp only [lines, bind_eq_ok_iff, pure_eq_ok_iff] at h
      obtain ⟨t, ht, v, hv, rfl⟩ := h
      have hposition := Expr.oneLine_script ha.2 hv
      have hroute : oneLine route.scriptName = true := by cases route <;> decide
      rw [unbroken_append, unbroken_linesAt, List.forall_mem_append]
      refine ⟨⟨oneLine_serialNote t, by simpa using hnote⟩, ?_⟩
      apply unbroken_calls (Expr.targets_oneLine ha.1 ht)
      intro m hm
      simp +decide [hm, hposition, hroute]
  | start ports direction =>
      simp only [lines, bind_eq_ok_iff, pure_eq_ok_iff] at h
      obtain ⟨t, ht, rfl⟩ := h
      apply unbroken_calls (Expr.targets_oneLine ha ht)
      intro m hm
      cases direction <;> simp +decide [hm]
  | stop ports =>
      simp only [lines, bind_eq_ok_iff, pure_eq_ok_iff] at h
      obtain ⟨t, ht, rfl⟩ := h
      apply unbroken_calls (Expr.targets_oneLine ha ht)
      intro m hm
      simp +decide [hm]
  | setSpeed ports speed =>
      simp only [lines, bind_eq_ok_iff, pure_eq_ok_iff] at h
      obtain ⟨t, ht, v, hv, rfl⟩ := h
      have hspeed := Expr.oneLine_script ha.2 hv
      apply unbroken_calls (Expr.targets_oneLine ha.1 ht)
      intro m hm
      simp +decide [hm, hspeed]

theorem Script.oneLine_travelUnit (unit : TravelUnit) : oneLine unit.scriptName = true := by
  cases unit <;> decide

theorem MovementAction.oneLine_texts {a : MovementAction} {ts : List String} (ha : a.WellFormed)
    (h : a.texts = .ok ts) : ∀ t ∈ ts, oneLine t = true := by
  cases a with
  | move heading value unit =>
      simp only [texts, bind_eq_ok_iff, pure_eq_ok_iff] at h
      obtain ⟨v, hv, rfl⟩ := h
      have hvalue := Expr.oneLine_script (ha _ List.mem_cons_self) hv
      cases heading <;>
        simp +decide [moveText, hvalue, oneLine_negate hvalue, oneLine_travelUnit unit]
  | steer steering value unit =>
      simp only [texts, bind_eq_ok_iff, pure_eq_ok_iff] at h
      obtain ⟨s, hs, v, hv, rfl⟩ := h
      have hsteering := Expr.oneLine_script (ha _ List.mem_cons_self) hs
      have hvalue := Expr.oneLine_script (ha _ (List.mem_cons_of_mem _ List.mem_cons_self)) hv
      simp +decide [hsteering, hvalue, oneLine_travelUnit unit]
  | start heading =>
      obtain rfl := Except.ok.inj h
      cases heading <;> simp +decide
  | startSteering value | setSpeed value =>
      simp only [texts, bind_eq_ok_iff, pure_eq_ok_iff] at h
      obtain ⟨v, hv, rfl⟩ := h
      have hvalue := Expr.oneLine_script (ha _ List.mem_cons_self) hv
      simp +decide [hvalue]
  | stop =>
      obtain rfl := Except.ok.inj h
      simp +decide
  | setMotors ports =>
      obtain ⟨left, right, rfl, rfl⟩ | ⟨r, rfl, rfl⟩ := Expr.pairTexts_cases h
      · have hleft := (oneLine_of_mem_portLetters ha.1).1
        have hright := (oneLine_of_mem_portLetters ha.2.1).1
        simp +decide [hleft, hright, -String.append_singleton]
      · refine List.forall_mem_cons.mpr ⟨oneLine_fixedNotes _ (by simp [fixedNotes]), ?_⟩
        simp +decide
  | setRotation distance unit =>
      simp only [texts, bind_eq_ok_iff] at h
      obtain ⟨v, hv, h⟩ := h
      have hvalue := Expr.oneLine_script (ha _ List.mem_cons_self) hv
      cases unit with
      | cm | inches =>
          obtain rfl := Except.ok.inj h
          simp +decide [hvalue]
      | percent => cases h

theorem Script.oneLine_patternCallText (usesBrightness : Bool) {pattern : String}
    (h : oneLine pattern = true) : oneLine (patternCallText usesBrightness pattern) = true := by
  have hfunction : oneLine patternFunction = true := by decide
  have hvariable : oneLine brightnessVariable = true := by decide
  unfold patternCallText
  split <;> simp +decide [h, hfunction, hvariable]

theorem Expr.oneLine_buttonColor {color : Expr} {t : String} (hcolor : color.WellFormed)
    (h : color.buttonColor = .ok t) : oneLine t = true := by
  unfold buttonColor at h
  split at h
  · obtain ⟨c, _, rfl⟩ := map_eq_ok_iff.mp h
    exact Script.oneLine_buttonColor c
  · simp only [bind_eq_ok_iff, pure_eq_ok_iff] at h
    obtain ⟨c, hc, rfl⟩ := h
    simp +decide [oneLine_buttonColorTable, oneLine_script hcolor hc]

theorem Expr.oneLine_sensorLights {pattern : Expr} {t : String} (hpattern : pattern.WellFormed)
    (h : pattern.sensorLights = .ok t) : oneLine t = true := by
  unfold sensorLights at h
  split at h
  · obtain rfl := Except.ok.inj h
    apply oneLine_intercalate (by decide)
    rw [List.forall_mem_map]
    exact fun c _ => oneLine_toString _
  · simp only [bind_eq_ok_iff, pure_eq_ok_iff] at h
    obtain ⟨c, hc, rfl⟩ := h
    simp +decide [oneLine_script hpattern hc]

theorem LightAction.unbroken {a : LightAction} {b : Bool} {n : Nat} {ls : List Line}
    (ha : a.WellFormed) (h : a.lines b n = .ok ls) : Unbroken ls := by
  cases a with
  | displayFor pattern duration =>
      simp only [lines, bind_eq_ok_iff, pure_eq_ok_iff] at h
      obtain ⟨p, hp, d, hd, rfl⟩ := h
      have hpattern := Expr.oneLine_script (ha _ List.mem_cons_self) hp
      have hduration := Expr.oneLine_script (ha _ (List.mem_cons_of_mem _ List.mem_cons_self)) hd
      simp +decide [oneLine_patternCallText b hpattern, hduration]
  | display pattern =>
      simp only [lines, bind_eq_ok_iff, pure_eq_ok_iff] at h
      obtain ⟨p, hp, rfl⟩ := h
      have hpattern := Expr.oneLine_script (ha _ List.mem_cons_self) hp
      simp [oneLine_patternCallText b hpattern]
  | write value | setBrightness value =>
      simp only [lines, bind_eq_ok_iff, pure_eq_ok_iff] at h
      obtain ⟨v, hv, rfl⟩ := h
      have hvalue := Expr.oneLine_script (ha _ List.mem_cons_self) hv
      simp +decide [hvalue]
  | off =>
      obtain rfl := Except.ok.inj h
      simp +decide
  | setPixel x y brightness =>
      simp only [lines, bind_eq_ok_iff, pure_eq_ok_iff] at h
      obtain ⟨s, hs, t, ht, v, hv, rfl⟩ := h
      have hnote : oneLine oneBasedNote = true := oneLine_fixedNotes _ (by simp [fixedNotes])
      have hx := Expr.oneLine_script (ha x (by simp [operands])) hs
      have hy := Expr.oneLine_script (ha y (by simp [operands])) ht
      have hvalue := Expr.oneLine_script (ha brightness (by simp [operands])) hv
      simp +decide [hnote, hx, hy, hvalue]
  | setButton color =>
      simp only [lines, bind_eq_ok_iff, pure_eq_ok_iff] at h
      obtain ⟨c, hc, rfl⟩ := h
      simp +decide [Expr.oneLine_buttonColor (ha _ List.mem_cons_self) hc]
  | lightSensor port pattern =>
      simp only [lines, bind_eq_ok_iff, pure_eq_ok_iff] at h
      obtain ⟨t, ht, lights, hlights, rfl⟩ := h
      have hl := Expr.oneLine_sensorLights ha.2 hlights
      apply unbroken_calls (Expr.targets_oneLine ha.1 ht)
      intro m hm
      simp +decide [hm, hl]

theorem SoundAction.oneLine_texts {a : SoundAction} {ts : List String}
    (ha : ∀ e ∈ a.operands, e.WellFormed) (h : a.texts = .ok ts) :
    ∀ t ∈ ts, oneLine t = true := by
  cases a with
  | play sound | start sound =>
      obtain rfl := Except.ok.inj h
      simp +decide
  | beep note duration =>
      simp only [texts, bind_eq_ok_iff, pure_eq_ok_iff] at h
      obtain ⟨s, hs, d, hd, rfl⟩ := h
      have hnote := Expr.oneLine_script (ha _ List.mem_cons_self) hs
      have hduration := Expr.oneLine_script (ha _ (List.mem_cons_of_mem _ List.mem_cons_self)) hd
      simp +decide [hnote, hduration]
  | startBeep value | setVolume value | changeVolume value =>
      simp only [texts, bind_eq_ok_iff, pure_eq_ok_iff] at h
      obtain ⟨v, hv, rfl⟩ := h
      have hvalue := Expr.oneLine_script (ha _ List.mem_cons_self) hv
      simp +decide [hvalue]
  | stop =>
      obtain rfl := Except.ok.inj h
      simp +decide

theorem Script.oneLine_placeholderText (name : String) (feature : Option MissingFeature) :
    oneLine (placeholderText name feature) = oneLine name := by
  have hstart : oneLine "# Placeholder for the " = true := oneLine_ofList (by decide)
  have hmiddle : oneLine " block. Note: that " = true := oneLine_ofList (by decide)
  have hend : oneLine " is not supported in Python at the moment." = true :=
    oneLine_ofList (by decide)
  unfold placeholderText
  simp only [oneLine_append, hstart, hmiddle, hend, Bool.true_and, Bool.and_true]
  cases feature with
  | none => exact Bool.and_self _
  | some feature =>
      have hfeature : oneLine feature.description = true := by cases feature <;> decide
      rw [Option.map_some, Option.getD_some, hfeature, Bool.and_true]

theorem oneLine_of_missing {opcode name : String} {feature : MissingFeature}
    (h : (opcode, .missing name feature) ∈ statementForms) : oneLine name = true := by
  have hall : (statementForms.all fun entry =>
      match entry.2 with | .missing name _ => oneLine name | _ => true) = true := by
    decide
  exact List.all_eq_true.mp hall _ h

/-- An opcode that a placeholder stands for has no line end. -/
def Node.OpcodeOneLine (n : Node) : Prop :=
  ∀ opcode rest, n = .stack (.action (.placeholder opcode none)) rest → oneLine opcode = true

theorem Node.opcodeOneLine_expr (e : Expr) : (Node.expr e).OpcodeOneLine := by
  simp [OpcodeOneLine]

theorem Node.opcodeOneLine_stack (first : Stmt) (rest : Stack) :
    (Node.stack first rest).OpcodeOneLine ↔
      ∀ opcode, first = .action (.placeholder opcode none) → oneLine opcode = true := by
  simp [OpcodeOneLine]

section

variable {p : Project} {bestEffort : Bool}

theorem Action.unbroken_iff {a : Action} {b : Bool} {n : Nat} {ls : List Line}
    (ha : a.LoweredFrom p bestEffort) (h : a.lines b n = .ok ls) :
    Unbroken ls ↔ ∀ opcode, a = .placeholder opcode none → oneLine opcode = true := by
  cases a with
  | placeholder name feature =>
      obtain rfl := Except.ok.inj h
      cases feature with
      | none => simp [oneLine_placeholderText]
      | some feature =>
          -- A placeholder with a feature is in the table of forms, not in the project.
          obtain ⟨opcode, hform⟩ := ha
          simp [oneLine_placeholderText, oneLine_of_missing hform]
  | data a => exact iff_of_true (DataAction.unbroken ha h) (by simp)
  | motor a => exact iff_of_true (MotorAction.unbroken ha h) (by simp)
  | light a => exact iff_of_true (LightAction.unbroken ha h) (by simp)
  | movement a =>
      simp only [lines, map_eq_ok_iff] at h
      obtain ⟨ts, hts, rfl⟩ := h
      refine iff_of_true ?_ (by simp)
      exact (unbroken_linesAt n ts).mpr (MovementAction.oneLine_texts ha hts)
  | sound a =>
      simp only [lines, map_eq_ok_iff] at h
      obtain ⟨ts, hts, rfl⟩ := h
      refine iff_of_true ?_ (by simp)
      exact (unbroken_linesAt n ts).mpr (SoundAction.oneLine_texts ha hts)
  | wait value | waitUntil value =>
      simp only [lines, bind_eq_ok_iff, pure_eq_ok_iff] at h
      obtain ⟨v, hv, rfl⟩ := h
      refine iff_of_true ?_ (by simp)
      simp +decide [Expr.oneLine_script ha hv]
  | resetTimer | resetYaw =>
      obtain rfl := Except.ok.inj h
      refine iff_of_true ?_ (by simp)
      simp +decide

theorem Script.unbroken_notes (n : Nat) (es : List Expr) :
    Unbroken (linesAt n (es.flatMap Expr.notes)) := by
  rw [unbroken_linesAt, List.forall_mem_flatMap]
  intro e _ t ht
  rw [Expr.eq_keyNote_of_mem_notes ht, keyNote, oneLine_placeholderText]
  decide

theorem Script.unbroken_header (n : Nat) (e : Expr) {headers : List String}
    (h : ∀ t ∈ headers, oneLine t = true) : Unbroken (linesAt n (e.notes ++ headers)) := by
  have hnotes := unbroken_notes n [e]
  rw [List.flatMap_cons, List.flatMap_nil, List.append_nil] at hnotes
  rw [linesAt_append, unbroken_append]
  exact ⟨hnotes, (unbroken_linesAt n headers).mpr h⟩

mutual

theorem Stmt.unbroken_iff {s : Stmt} {b : Bool} {n : Nat} {ls : List Line}
    (hs : s.LoweredFrom p bestEffort) (h : s.lines b n = .ok ls) :
    Unbroken ls ↔ (∀ opcode, s = .action (.placeholder opcode none) → oneLine opcode = true) ∧
      ∀ body ∈ s.bodies, ∀ m ∈ Stack.visited body, m.OpcodeOneLine := by
  cases s with
  | hat x y => cases h
  | action a =>
      simp only [Stmt.lines, bind_eq_ok_iff, pure_eq_ok_iff] at h
      obtain ⟨ls, hls, rfl⟩ := h
      rw [unbroken_append, and_iff_right (unbroken_notes n _), Action.unbroken_iff hs hls]
      simp [Stmt.bodies]
  | repeatTimes times body =>
      simp only [Stmt.lines, bind_eq_ok_iff, pure_eq_ok_iff] at h
      obtain ⟨t, ht, ls, hls, rfl⟩ := h
      have hnote : oneLine repeatCountNote = true := oneLine_fixedNotes _ (by simp [fixedNotes])
      have hheader : Unbroken (linesAt n (times.notes ++
          [repeatCountNote, "for _ in range(int(" ++ t ++ ")):"])) :=
        unbroken_header n times (List.forall_mem_cons.mpr
          ⟨hnote, by simp +decide [Expr.oneLine_script hs.1 ht]⟩)
      rw [unbroken_append, and_iff_right hheader, Stack.unbroken_suite_iff hs.2 hls]
      simp [Stmt.bodies]
  | forever body =>
      simp only [Stmt.lines, bind_eq_ok_iff, pure_eq_ok_iff] at h
      obtain ⟨ls, hls, rfl⟩ := h
      have hheader : oneLine "while True:" = true := by decide
      rw [unbroken_cons, and_iff_right hheader, Stack.unbroken_suite_iff hs hls]
      simp [Stmt.bodies]
  | repeatUntil condition body =>
      simp only [Stmt.lines, bind_eq_ok_iff, pure_eq_ok_iff] at h
      obtain ⟨t, ht, ls, hls, rfl⟩ := h
      have hheader : Unbroken (linesAt n (condition.notes ++ ["while not (" ++ t ++ "):"])) :=
        unbroken_header n condition (by simp +decide [Expr.oneLine_script hs.1 ht])
      rw [unbroken_append, and_iff_right hheader, Stack.unbroken_suite_iff hs.2 hls]
      simp [Stmt.bodies]
  | ifThen condition body =>
      simp only [Stmt.lines, bind_eq_ok_iff, pure_eq_ok_iff] at h
      obtain ⟨t, ht, ls, hls, rfl⟩ := h
      have hheader : Unbroken (linesAt n (condition.notes ++ ["if (" ++ t ++ "):"])) :=
        unbroken_header n condition (by simp +decide [Expr.oneLine_script hs.1 ht])
      rw [unbroken_append, and_iff_right hheader, Stack.unbroken_suite_iff hs.2 hls]
      simp [Stmt.bodies]
  | ifElse condition body orElse =>
      simp only [Stmt.lines, bind_eq_ok_iff, pure_eq_ok_iff] at h
      obtain ⟨t, ht, ls, hls, ms, hms, rfl⟩ := h
      have hheader : Unbroken (linesAt n (condition.notes ++ ["if (" ++ t ++ "):"])) :=
        unbroken_header n condition (by simp +decide [Expr.oneLine_script hs.1 ht])
      have helse : oneLine "else:" = true := by decide
      rw [unbroken_append, unbroken_append, and_iff_right hheader, unbroken_cons,
        and_iff_right helse, Stack.unbroken_suite_iff hs.2.1 hls,
        Stack.unbroken_suite_iff hs.2.2 hms]
      simp [Stmt.bodies]

theorem Stack.unbroken_iff {s : List Stmt} {b : Bool} {n : Nat} {ls : List Line}
    (hs : Stack.LoweredFrom p bestEffort s) (h : Stack.lines b n s = .ok ls) :
    Unbroken ls ↔ ∀ m ∈ Stack.visited s, m.OpcodeOneLine := by
  cases s with
  | nil =>
      obtain rfl := Except.ok.inj h
      simp
  | cons first rest =>
      simp only [Stack.lines, bind_eq_ok_iff, pure_eq_ok_iff] at h
      obtain ⟨ls, hls, ms, hms, rfl⟩ := h
      rw [unbroken_append, Stmt.unbroken_iff hs.1 hls, Stack.unbroken_iff hs.2 hms,
        Stack.forall_mem_visited_cons Node.opcodeOneLine_expr, and_assoc, Node.opcodeOneLine_stack]

theorem Stack.unbroken_suite_iff {s : List Stmt} {b : Bool} {n : Nat} {ls : List Line}
    (hs : Stack.LoweredFrom p bestEffort s) (h : Stack.suiteLines b n s = .ok ls) :
    Unbroken ls ↔ ∀ m ∈ Stack.visited s, m.OpcodeOneLine := by
  cases s with
  | nil =>
      obtain rfl := Except.ok.inj h
      simp +decide
  | cons first rest =>
      simp only [Stack.suiteLines, bind_eq_ok_iff, pure_eq_ok_iff] at h
      obtain ⟨ls, hls, ms, hms, rfl⟩ := h
      rw [unbroken_append, Stmt.unbroken_iff hs.1 hls, Stack.unbroken_iff hs.2 hms,
        Stack.forall_mem_visited_cons Node.opcodeOneLine_expr, and_assoc, Node.opcodeOneLine_stack]

end

end

end WordBlocks
