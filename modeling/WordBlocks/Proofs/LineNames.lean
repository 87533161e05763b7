import WordBlocks.Proofs.KnownDemands
import WordBlocks.Proofs.LineOrigins
import WordBlocks.Proofs.OwnNames

/-!
The names of the script's own in the lines of statements. A line that is not a note has only those
that its statement and the operands of the statement demand.
-/

namespace WordBlocks

open Script
open Python (scanner endsSign endsToken endsWord)

namespace Script

/-- A line that is a note, or that has no other names of the script's own than the given ones. -/
def Draws (names : List String) (text : String) : Prop :=
  startsNote text = true ∨ ∃ ts, scanner.tokens? text = some ts ∧ ownIn ts ⊆ names

theorem Piece.draws {head follow : Char → Bool} {names : List String} {text : String}
    (h : Piece head follow names text) : Draws names text :=
  .inr h.tokens

theorem draws_of_mem_fixedNotes {names : List String} {text : String} (h : text ∈ fixedNotes) :
    Draws names text :=
  .inl (fixedNotes_shape text h).1

/-- Lines without other names of the script's own than the given ones, notes apart. -/
def DrawsAll (names : List String) (ls : List Line) : Prop :=
  ∀ l ∈ ls, Draws names l.text

variable {names : List String}

@[simp] theorem drawsAll_nil : DrawsAll names [] :=
  List.forall_mem_nil _

@[simp] theorem drawsAll_cons (l : Line) (ls : List Line) :
    DrawsAll names (l :: ls) ↔ Draws names l.text ∧ DrawsAll names ls :=
  List.forall_mem_cons

@[simp] theorem drawsAll_append (ls ms : List Line) :
    DrawsAll names (ls ++ ms) ↔ DrawsAll names ls ∧ DrawsAll names ms :=
  List.forall_mem_append

@[simp] theorem drawsAll_linesAt (n : Nat) (ts : List String) :
    DrawsAll names (linesAt n ts) ↔ ∀ t ∈ ts, Draws names t :=
  List.forall_mem_map

section

variable {text : String} (h : Piece endsSign endsToken names text)

include h

theorem draws_line : Draws names text :=
  h.draws

theorem draws_singleton : ∀ t ∈ [text], Draws names t :=
  List.forall_mem_singleton.mpr h.draws

theorem drawsAll_line (n : Nat) : DrawsAll names (linesAt n [text]) :=
  (drawsAll_linesAt n _).mpr (draws_singleton h)

theorem drawsAll_noted {note : String} (hnote : note ∈ fixedNotes) (n : Nat) :
    DrawsAll names (linesAt n [note, text]) :=
  (drawsAll_linesAt n _).mpr
    (List.forall_mem_cons.mpr ⟨draws_of_mem_fixedNotes hnote, draws_singleton h⟩)

end

def Targets.Demanded (names : List String) : Targets → Prop
  | objects targets => ∀ m ∈ targets, Piece endsSign endsWord names m
  | loop iterable object =>
      Piece endsSign endsWord names iterable ∧ Piece endsSign endsWord names object

theorem drawsAll_calls {t : Targets} (ht : t.Demanded names) (n : Nat) {call : String → String}
    (hcall : ∀ m, Piece endsSign endsWord names m → Draws names (call m)) :
    DrawsAll names (t.calls n call) := by
  cases t with
  | objects targets =>
      rw [Targets.calls, drawsAll_linesAt, List.forall_mem_map]
      intro m hm
      exact hcall m (ht m hm)
  | loop iterable object =>
      have hopen : Piece endsSign endsSign names "for port in " := .plain (by decide)
      have hends : ends endsToken [] ":".toList = true := by decide
      have hcolon : Piece endsToken nothing names ":" := .last hends (List.nil_subset _)
      simp only [Targets.calls, drawsAll_cons, drawsAll_nil, and_true]
      exact ⟨((hopen.append ht.1.operand).append hcolon).draws, hcall object ht.2⟩

theorem piece_percent {c : Char} (h : c.isDigit = true) :
    Piece endsSign endsToken names (toString (digitPercent c)) := by
  have hle : c.toNat - '0'.toNat ≤ 9 := by
    obtain ⟨-, hnine⟩ : 48 ≤ c.toNat ∧ c.toNat ≤ 57 := Char.isDigit_iff_toNat.mp h
    change c.toNat - 48 ≤ 9
    omega
  unfold digitPercent
  -- There are ten percentages, and each of them is one number token.
  generalize c.toNat - '0'.toNat = k at hle
  interval_cases k
  all_goals exact ⟨_, _, _, rfl, rfl, Python.lexes_number rfl rfl, List.nil_subset _⟩

end Script

section

variable {names : List String}

theorem Expr.targets_demanded {d : Device} {ports : Expr} {t : Targets} (hports : ports.PlainPorts)
    (h : ports.targets d = .ok t) (hnames : (ports.devices d).map Demand.name ⊆ names) :
    t.Demanded names := by
  obtain ⟨letters, rfl, -, rfl⟩ | ⟨r, rfl, rfl⟩ := targets_cases h
  · refine List.forall_mem_map.mpr fun c hc =>
      (nested_objectName (hports.own c hc) (hnames ?_)).piece
    exact List.mem_map_of_mem (List.mem_map_of_mem hc)
  · exact ⟨(nested_identifier r.name).piece, (nested_className d).piece.append (.plain (by decide))⟩

/-- Operands that demand only the given names. -/
def Expr.AllDemand (names : List String) (es : List Expr) : Prop :=
  ∀ e ∈ es, e.demands.map Demand.name ⊆ names

theorem Expr.piece_operand {es : List Expr} {e : Expr} {t : String} (hes : ∀ e ∈ es, e.PlainPorts)
    (hnames : AllDemand names es) (he : e ∈ es) (ht : e.script = .ok t) :
    Piece endsSign endsToken names t :=
  piece_script (hes e he) ht (hnames e he)

/-- A statement on data is one line, which starts with the identifier of what it changes or deletes
from, and may have a note before it. -/
theorem DataAction.exists_rest {a : DataAction} {n : Nat} {ls : List Line}
    (ha : ∀ e ∈ a.operands, e.PlainPorts) (hnames : Expr.AllDemand names a.operands)
    (h : a.lines n = .ok ls) :
    ∃ notes text rest, ls = linesAt n (notes ++ [text]) ∧ (∀ t ∈ notes, t = oneBasedNote) ∧
      Piece endsWord endsToken names rest ∧ (text = identifier a.target.name ++ rest ∨
        text = "del " ++ (identifier a.target.name ++ rest)) := by
  have hpiece {e : Expr} {t : String} (he : e ∈ a.operands) (ht : e.script = .ok t) :
      Piece endsSign endsToken names t := Expr.piece_operand ha hnames he ht
  cases a with
  | set var value =>
      simp only [lines, bind_eq_ok_iff, pure_eq_ok_iff] at h
      obtain ⟨v, hv, rfl⟩ := h
      have hmark : Piece endsWord endsSign names " = " := .plain (by decide)
      exact ⟨[], _, _, rfl, by simp, hmark.append (hpiece List.mem_cons_self hv),
        .inl (String.append_assoc ..)⟩
  | change var value =>
      simp only [lines, bind_eq_ok_iff, pure_eq_ok_iff] at h
      obtain ⟨v, hv, rfl⟩ := h
      have hmark : Piece endsWord endsSign names " += " := .plain (by decide)
      exact ⟨[], _, _, rfl, by simp, hmark.append (hpiece List.mem_cons_self hv),
        .inl (String.append_assoc ..)⟩
  | append list item =>
      simp only [lines, bind_eq_ok_iff, pure_eq_ok_iff] at h
      obtain ⟨v, hv, rfl⟩ := h
      have hopening : Piece endsWord endsSign names ".append(" := .plain (by decide)
      have hclosing : Piece endsToken endsToken names ")" := .plain (by decide)
      exact ⟨[], _, _, rfl, by simp,
        (hopening.append (hpiece List.mem_cons_self hv)).append hclosing,
        .inl (by simp [target, String.append_assoc])⟩
  | delete list index =>
      simp only [lines, bind_eq_ok_iff, pure_eq_ok_iff] at h
      obtain ⟨i, hi, rfl⟩ := h
      have hopening : Piece endsWord endsSign names "[int(" := .plain (by decide)
      have hclosing : Piece endsToken endsToken names ")-1]" := .plain (by decide)
      exact ⟨[oneBasedNote], _, _, rfl, by simp,
        (hopening.append (hpiece List.mem_cons_self hi)).append hclosing,
        .inr (by simp [target, String.append_assoc])⟩
  | clear list =>
      obtain rfl := Except.ok.inj h
      have hcall : Piece endsWord endsToken names ".clear()" := .plain (by decide)
      exact ⟨[], _, _, rfl, by simp, hcall, .inl rfl⟩
  | insert list item index =>
      simp only [lines, bind_eq_ok_iff, pure_eq_ok_iff] at h
      obtain ⟨v, hv, i, hi, rfl⟩ := h
      have hopening : Piece endsWord endsSign names ".insert(int(" := .plain (by decide)
      have hmiddle : Piece endsToken endsSign names ")-1, " := .plain (by decide)
      have hclosing : Piece endsToken endsToken names ")" := .plain (by decide)
      exact ⟨[oneBasedNote], _, _, rfl, by simp,
        (((hopening.append (hpiece (by simp [operands]) hi)).append hmiddle).append
          (hpiece (by simp [operands]) hv)).append hclosing,
        .inl (by simp [target, String.append_assoc])⟩
  | replace list index item =>
      simp only [lines, bind_eq_ok_iff, pure_eq_ok_iff] at h
      obtain ⟨i, hi, v, hv, rfl⟩ := h
      have hopening : Piece endsWord endsSign names "[int(" := .plain (by decide)
      have hmiddle : Piece endsToken endsSign names ")-1] = " := .plain (by decide)
      exact ⟨[oneBasedNote], _, _, rfl, by simp,
        ((hopening.append (hpiece (by simp [operands]) hi)).append hmiddle).append
          (hpiece (by simp [operands]) hv),
        .inl (by simp [target, String.append_assoc])⟩

theorem DataAction.draws {a : DataAction} {n : Nat} {ls : List Line}
    (ha : ∀ e ∈ a.operands, e.PlainPorts) (hnames : Expr.AllDemand names a.operands)
    (h : a.lines n = .ok ls) : DrawsAll names ls := by
  obtain ⟨notes, text, rest, rfl, hnotes, hrest, htext⟩ := exists_rest ha hnames h
  have htarget := (nested_identifier a.target.name).piece.append hrest
  have hdel : Piece endsSign endsSign names "del " := .plain (by decide)
  rw [drawsAll_linesAt, List.forall_mem_append, List.forall_mem_singleton]
  constructor
  · intro t ht
    rw [hnotes t ht]
    exact draws_of_mem_fixedNotes (by simp [fixedNotes])
  · rcases htext with rfl | rfl
    · exact htarget.draws
    · exact (hdel.append htarget).draws

theorem MotorAction.draws_serialNote (t : Targets) : ∀ s ∈ serialNote t, Draws names s :=
  fun _ hs => draws_of_mem_fixedNotes (serialNote_subset t hs)

theorem MotorAction.draws {a : MotorAction} {n : Nat} {ls : List Line}
    (ha : ∀ e ∈ a.operands, e.PlainPorts)
    (hneeds : (a.ports.devices .motor).map Demand.name ⊆ names)
    (hnames : Expr.AllDemand names a.operands) (h : a.lines n = .ok ls) : DrawsAll names ls := by
  have hnote : Draws names wholeDegreesNote := draws_of_mem_fixedNotes (by simp [fixedNotes])
  have hports := ha a.ports a.ports_mem_operands
  cases a with
  | run ports direction value unit =>
      simp only [lines, bind_eq_ok_iff, pure_eq_ok_iff] at h
      obtain ⟨t, ht, v, hv, rfl⟩ := h
      have htargets := Expr.targets_demanded hports ht hneeds
      have hvalue := Expr.piece_operand ha hnames (by simp [operands]) hv
      have hamount : Piece endsSign endsToken names
          (if direction = .counterClockwise then negate v else v) := by
        split
        · exact hvalue.negate
        · exact hvalue
      have hcall {opening closing : List Char} (hopening : settles endsWord [] opening = true)
          (hclosing : settles endsToken [] closing = true) (m : String)
          (hm : Piece endsSign endsWord names m) : Draws names (m ++ String.ofList opening ++
            (if direction = .counterClockwise then negate v else v) ++ String.ofList closing) := by
        exact draws_line ((hm.append (.plain hopening)).enclose hamount hclosing)
      rw [drawsAll_append, drawsAll_linesAt]
      refine ⟨draws_serialNote t, ?_⟩
      cases unit with
      | rotations | seconds =>
          exact drawsAll_calls htargets n (hcall (by decide) (by decide))
      | degrees =>
          refine (drawsAll_cons _ _).mpr ⟨hnote, ?_⟩
          exact drawsAll_calls htargets n (hcall (by decide) (by decide))
  | goTo ports route position =>
      simp only [lines, bind_eq_ok_iff, pure_eq_ok_iff] at h
      obtain ⟨t, ht, v, hv, rfl⟩ := h
      have hposition := Expr.piece_operand ha hnames (by simp [operands]) hv
      have hroute : settles endsToken [] ("), '" ++ route.scriptName ++ "')").toList = true := by
        cases route <;> decide
      rw [drawsAll_append, drawsAll_linesAt, List.forall_mem_append]
      refine ⟨⟨draws_serialNote t, List.forall_mem_singleton.mpr hnote⟩, ?_⟩
      apply drawsAll_calls (Expr.targets_demanded hports ht hneeds)
      intro m hm
      have hopening : Piece endsWord endsSign names ".run_to_position(int(" := .plain (by decide)
      have hclosing : Piece endsToken endsToken names _ := .joined hroute
      exact draws_line ((((hm.append hopening).append hposition).append hclosing).respell (by simp))
  | start ports direction =>
      simp only [lines, bind_eq_ok_iff, pure_eq_ok_iff] at h
      obtain ⟨t, ht, rfl⟩ := h
      apply drawsAll_calls (Expr.targets_demanded hports ht hneeds)
      intro m hm
      cases direction with
      | clockwise =>
          exact draws_line (hm.append (.plain (by decide)))
      | counterClockwise =>
          have hopening : Piece endsWord endsSign names ".start(" := .plain (by decide)
          have hclosing : Piece endsWord endsToken names ".get_default_speed())" :=
            .plain (by decide)
          have hline := (hm.append hopening).append (hm.minus.append hclosing)
          exact draws_line (hline.respell (by simp))
  | stop ports =>
      simp only [lines, bind_eq_ok_iff, pure_eq_ok_iff] at h
      obtain ⟨t, ht, rfl⟩ := h
      apply drawsAll_calls (Expr.targets_demanded hports ht hneeds)
      intro m hm
      exact draws_line (hm.append (.plain (by decide)))
  | setSpeed ports speed =>
      simp only [lines, bind_eq_ok_iff, pure_eq_ok_iff] at h
      obtain ⟨t, ht, v, hv, rfl⟩ := h
      have hspeed := Expr.piece_operand ha hnames (by simp [operands]) hv
      apply drawsAll_calls (Expr.targets_demanded hports ht hneeds)
      intro m hm
      exact draws_line ((hm.append (.plain (by decide))).enclose hspeed (by decide))

theorem Expr.draws_pairTexts {ports : Expr} {ts : List String} (hports : ports.PlainPorts)
    (hpair : "motor_pair" ∈ names) (h : ports.pairTexts = .ok ts) : ∀ t ∈ ts, Draws names t := by
  have hopening : Piece endsSign endsSign names "motor_pair = MotorPair(" :=
    .owned hpair (by decide)
  obtain ⟨left, right, rfl, rfl⟩ | ⟨r, rfl, rfl⟩ := pairTexts_cases h
  · have hletters : ∀ c ∈ [left, right], isNameChar c = true := hports.own
    have hleft : Piece endsSign endsWord names _ :=
      (nested_letter (hletters left (by simp))).piece
    have hright : Piece endsSign endsWord names _ :=
      (nested_letter (hletters right (by simp))).piece
    have hcomma : Piece endsWord endsSign names "," := .plain (by decide)
    have hclosing : Piece endsWord endsToken names ")" := .plain (by decide)
    have hline := (hopening.append hleft).append (hcomma.append (hright.append hclosing))
    exact draws_singleton (hline.respell (by simp))
  · have hname : Piece endsSign endsWord names (identifier r.name) :=
      (nested_identifier r.name).piece
    refine List.forall_mem_cons.mpr ⟨draws_of_mem_fixedNotes (by simp [fixedNotes]), ?_⟩
    exact draws_singleton ((((hopening.append hname).append (.plain (by decide))).append
      hname).append (.plain (by decide)))

theorem MovementAction.draws {a : MovementAction} {ts : List String}
    (ha : ∀ e ∈ a.operands, e.PlainPorts) (hpair : "motor_pair" ∈ names)
    (hnames : Expr.AllDemand names a.operands) (h : a.texts = .ok ts) :
    ∀ t ∈ ts, Draws names t := by
  cases a with
  | move heading value unit =>
      simp only [texts, bind_eq_ok_iff, pure_eq_ok_iff] at h
      obtain ⟨v, hv, rfl⟩ := h
      have hvalue := Expr.piece_operand ha hnames List.mem_cons_self hv
      have hopening : Piece endsSign endsSign names "motor_pair.move(" :=
        .owned hpair (by decide)
      have hmove {amount closing : String} (hamount : Piece endsSign endsToken names amount)
          (hclosing : settles endsToken [] (", '" ++ unit.scriptName ++ closing).toList = true) :
          Piece endsSign endsToken names ("motor_pair" ++ ".move(" ++ amount ++ ", '" ++
            unit.scriptName ++ closing) :=
        ((hopening.append hamount).append (.joined hclosing)).respell (by simp)
      rw [List.forall_mem_singleton]
      cases heading with
      | forward | clockwise | counterClockwise =>
          exact draws_line (hmove hvalue (by cases unit <;> decide))
      | back => exact draws_line (hmove hvalue.negate (by cases unit <;> decide))
  | steer steering value unit =>
      simp only [texts, bind_eq_ok_iff, pure_eq_ok_iff] at h
      obtain ⟨s, hs, v, hv, rfl⟩ := h
      have hsteering := Expr.piece_operand ha hnames (by simp [operands]) hs
      have hvalue := Expr.piece_operand ha hnames (by simp [operands]) hv
      have hopening : Piece endsSign endsSign names "motor_pair.move(" :=
        .owned hpair (by decide)
      have hunit : settles endsToken []
          (", '" ++ unit.scriptName ++ "', steering=int(").toList = true := by
        cases unit <;> decide
      have hclosing : Piece endsToken endsToken names "))" := .plain (by decide)
      have hline :=
        (((hopening.append hvalue).append (.joined hunit)).append hsteering).append hclosing
      exact draws_singleton (hline.respell (by simp))
  | start heading =>
      obtain rfl := Except.ok.inj h
      have hsettles :
          settles endsSign ["motor_pair"] (startText "motor_pair" heading).toList = true := by
        cases heading <;> decide
      exact draws_singleton (.ownedJoined hpair hsettles)
  | startSteering value | setSpeed value =>
      simp only [texts, bind_eq_ok_iff, pure_eq_ok_iff] at h
      obtain ⟨v, hv, rfl⟩ := h
      have hvalue := Expr.piece_operand ha hnames List.mem_cons_self hv
      exact draws_singleton
        (Piece.enclose (.owned hpair (by decide)) hvalue (by decide))
  | stop =>
      obtain rfl := Except.ok.inj h
      exact draws_singleton (.owned hpair (by decide))
  | setMotors ports =>
      exact Expr.draws_pairTexts (ha ports List.mem_cons_self) hpair h
  | setRotation distance unit =>
      simp only [texts, bind_eq_ok_iff] at h
      obtain ⟨v, hv, h⟩ := h
      have hvalue := Expr.piece_operand ha hnames List.mem_cons_self hv
      cases unit with
      | cm | inches =>
          obtain rfl := Except.ok.inj h
          exact draws_singleton
            (Piece.enclose (.owned hpair (by decide)) hvalue (by decide))
      | percent => cases h

theorem Script.brightnessVariable_mem :
    brightnessVariable ∈ (Demand.patternDemands true).map Demand.name := by
  decide

theorem Script.piece_patternCall {b : Bool} {pattern : String}
    (hneeds : (Demand.patternDemands b).map Demand.name ⊆ names)
    (hpattern : Piece endsSign endsToken names pattern) :
    Piece endsSign endsToken names (patternCallText b pattern) := by
  have hopening : Piece endsSign endsSign names (patternFunction ++ "(") := by
    have hfunction : patternFunction ∈ names :=
      hneeds (List.mem_map_of_mem (List.mem_cons_of_mem _ List.mem_cons_self))
    exact .ownedJoined hfunction (by decide)
  cases b with
  | false => exact hopening.enclose hpattern (by decide)
  | true =>
      have hvariable : brightnessVariable ∈ names := hneeds brightnessVariable_mem
      have hcomma : Piece endsToken endsSign names ", " := .plain (by decide)
      have hclosing : Piece endsSign endsToken names (brightnessVariable ++ ")") :=
        .ownedJoined hvariable (by decide)
      exact ((hopening.append hpattern).append (hcomma.append hclosing)).respell (by
        simp [patternCallText])

theorem Expr.piece_buttonColor {color : Expr} {t : String} (hcolor : color.PlainPorts)
    (h : color.buttonColor = .ok t) (hnames : color.demands.map Demand.name ⊆ names) :
    Piece endsSign endsToken names t := by
  unfold buttonColor at h
  split at h
  · obtain ⟨c, -, rfl⟩ := map_eq_ok_iff.mp h
    have hsettles : settles endsSign [] c.scriptName.toList = true := by cases c <;> decide
    exact .joined hsettles
  · simp only [bind_eq_ok_iff, pure_eq_ok_iff] at h
    obtain ⟨c, hc, rfl⟩ := h
    have htable : Piece endsSign endsSign names (buttonColorTable ++ "[int(") :=
      .joined (by decide +kernel)
    exact htable.enclose (piece_script hcolor hc hnames) (by decide)

theorem Script.piece_percents {digits : List Char} (hne : digits ≠ [])
    (h : ∀ c ∈ digits, c.isDigit = true) : Piece endsSign endsToken names
      (", ".intercalate (digits.map fun c => toString (digitPercent c))) :=
  piece_intercalate (List.map_eq_nil_iff.not.mpr hne)
    (List.forall_mem_map.mpr fun c hc => piece_percent (h c hc))

theorem Expr.piece_sensorLights {pattern : Expr} {t : String} (hpattern : pattern.PlainPorts)
    (h : pattern.sensorLights = .ok t) (hnames : pattern.demands.map Demand.name ⊆ names) :
    Piece endsSign endsToken names t := by
  unfold sensorLights at h
  split at h
  · next digits hdigits =>
      obtain rfl := Except.ok.inj h
      obtain ⟨-, hshape⟩ := Option.filter_eq_some_iff.mp hdigits
      rw [Bool.and_eq_true, List.all_eq_true] at hshape
      exact piece_percents (by simpa using hshape.1) hshape.2
  · simp only [bind_eq_ok_iff, pure_eq_ok_iff] at h
    obtain ⟨c, hc, rfl⟩ := h
    exact Piece.enclose (.plain (by decide)) (piece_script hpattern hc hnames)
      (by decide)

theorem LightAction.draws {a : LightAction} {b : Bool} {n : Nat} {ls : List Line}
    (ha : ∀ e ∈ a.operands, e.PlainPorts) (hbrightness : ∀ e, a = .setBrightness e → b = true)
    (hneeds : (a.needs b).map Demand.name ⊆ names) (hnames : Expr.AllDemand names a.operands)
    (h : a.lines b n = .ok ls) : DrawsAll names ls := by
  cases a with
  | displayFor pattern duration =>
      simp only [lines, bind_eq_ok_iff, pure_eq_ok_iff] at h
      obtain ⟨p, hp, d, hd, rfl⟩ := h
      have hpattern := Expr.piece_operand ha hnames (by simp [operands]) hp
      have hduration := Expr.piece_operand ha hnames (by simp [operands]) hd
      have hwait : Piece endsSign endsToken names ("wait_for_seconds(int(" ++ d ++ "))") :=
        Piece.enclose (.plain (by decide)) hduration (by decide)
      have hoff : Piece endsSign endsToken names "hub.light_matrix.off()" :=
        .owned (hneeds List.mem_cons_self) (by decide)
      have hcall := piece_patternCall hneeds hpattern
      simpa using ⟨hcall.draws, hwait.draws, hoff.draws⟩
  | display pattern =>
      simp only [lines, bind_eq_ok_iff, pure_eq_ok_iff] at h
      obtain ⟨p, hp, rfl⟩ := h
      have hpattern := Expr.piece_operand ha hnames List.mem_cons_self hp
      exact drawsAll_line (piece_patternCall hneeds hpattern) n
  | write text =>
      simp only [lines, bind_eq_ok_iff, pure_eq_ok_iff] at h
      obtain ⟨t, ht, rfl⟩ := h
      have htext := Expr.piece_operand ha hnames List.mem_cons_self ht
      exact drawsAll_line (Piece.enclose (.owned (hneeds List.mem_cons_self) (by decide)) htext
        (by decide)) n
  | off =>
      obtain rfl := Except.ok.inj h
      exact drawsAll_line (.owned (hneeds List.mem_cons_self) (by decide)) n
  | setBrightness brightness =>
      simp only [lines, bind_eq_ok_iff, pure_eq_ok_iff] at h
      obtain ⟨v, hv, rfl⟩ := h
      obtain rfl := hbrightness _ rfl
      -- The variable is declared for the program as a whole, since a statement sets it.
      have hvariable : brightnessVariable ∈ names := hneeds brightnessVariable_mem
      have hvalue := Expr.piece_operand ha hnames List.mem_cons_self hv
      exact drawsAll_line (Piece.enclose (.ownedJoined hvariable (by decide)) hvalue
        (by decide)) n
  | setPixel x y brightness =>
      simp only [lines, bind_eq_ok_iff, pure_eq_ok_iff] at h
      obtain ⟨s, hs, t, ht, v, hv, rfl⟩ := h
      have hx := Expr.piece_operand ha hnames (by simp [operands]) hs
      have hy := Expr.piece_operand ha hnames (by simp [operands]) ht
      have hvalue := Expr.piece_operand ha hnames (by simp [operands]) hv
      exact drawsAll_noted (Piece.enclose (Piece.enclose (Piece.enclose
        (.owned (hneeds List.mem_cons_self) (by decide)) hx (by decide)) hy
        (by decide)) hvalue (by decide)) (by simp [fixedNotes]) n
  | setButton color =>
      simp only [lines, bind_eq_ok_iff, pure_eq_ok_iff] at h
      obtain ⟨c, hc, rfl⟩ := h
      have hcolor := Expr.piece_buttonColor (ha _ List.mem_cons_self) hc
        (hnames _ List.mem_cons_self)
      exact drawsAll_line (Piece.enclose (.owned (hneeds List.mem_cons_self) (by decide))
        hcolor (by decide)) n
  | lightSensor port pattern =>
      simp only [lines, bind_eq_ok_iff, pure_eq_ok_iff] at h
      obtain ⟨t, ht, lights, hlights, rfl⟩ := h
      have hpattern : pattern ∈ (lightSensor port pattern).operands := by simp [operands]
      have hpiece := Expr.piece_sensorLights (ha pattern hpattern) hlights (hnames pattern hpattern)
      apply drawsAll_calls (Expr.targets_demanded (ha port List.mem_cons_self) ht hneeds)
      intro m hm
      exact draws_line ((hm.append (.plain (by decide))).enclose hpiece (by decide))

theorem SoundAction.draws {a : SoundAction} {ts : List String}
    (ha : ∀ e ∈ a.operands, e.PlainPorts) (hneeds : a.needs.map Demand.name ⊆ names)
    (hnames : Expr.AllDemand names a.operands) (h : a.texts = .ok ts) :
    ∀ t ∈ ts, Draws names t := by
  have hdemand : Demand.hub ∈ a.needs := by cases a <;> simp [needs]
  have hhub : "hub" ∈ names := hneeds (List.mem_map_of_mem hdemand)
  cases a with
  | play sound | start sound =>
      obtain rfl := Except.ok.inj h
      have happ : "app" ∈ names := hneeds List.mem_cons_self
      refine List.forall_mem_cons.mpr ⟨draws_line ?_, ?_⟩
      · exact Piece.enclose (.owned happ (by decide)) (nested_quote sound).piece.operand
          (by decide)
      · exact draws_singleton (.owned hhub (by decide))
  | beep note duration =>
      simp only [texts, bind_eq_ok_iff, pure_eq_ok_iff] at h
      obtain ⟨s, hs, d, hd, rfl⟩ := h
      have hnote := Expr.piece_operand ha hnames (by simp [operands]) hs
      have hduration := Expr.piece_operand ha hnames (by simp [operands]) hd
      exact draws_singleton (Piece.enclose (Piece.enclose (.owned hhub (by decide)) hnote
        (by decide)) hduration (by decide))
  | startBeep value | setVolume value | changeVolume value =>
      simp only [texts, bind_eq_ok_iff, pure_eq_ok_iff] at h
      obtain ⟨v, hv, rfl⟩ := h
      have hvalue := Expr.piece_operand ha hnames List.mem_cons_self hv
      exact draws_singleton (Piece.enclose (.owned hhub (by decide)) hvalue (by decide))
  | stop =>
      obtain rfl := Except.ok.inj h
      exact draws_singleton (.owned hhub (by decide))

/-- The lines of a statement without a body have no other names of the script's own than those that
the statement and its operands demand. -/
theorem Action.draws {b : Bool} {a : Action} {n : Nat} {ls : List Line}
    (ha : ∀ e ∈ a.operands, e.PlainPorts)
    (hbrightness : ∀ e, a = .light (.setBrightness e) → b = true)
    (hneeds : (a.needs b).map Demand.name ⊆ names) (hnames : Expr.AllDemand names a.operands)
    (h : a.lines b n = .ok ls) : DrawsAll names ls := by
  cases a with
  | data a => exact a.draws ha hnames h
  | motor a => exact a.draws ha hneeds hnames h
  | light a =>
      refine a.draws ha ?_ hneeds hnames h
      rintro e rfl
      exact hbrightness e rfl
  | movement a =>
      obtain ⟨ts, hts, rfl⟩ := map_eq_ok_iff.mp h
      exact (drawsAll_linesAt n ts).mpr (a.draws ha (hneeds List.mem_cons_self) hnames hts)
  | sound a =>
      obtain ⟨ts, hts, rfl⟩ := map_eq_ok_iff.mp h
      exact (drawsAll_linesAt n ts).mpr (a.draws ha hneeds hnames hts)
  | wait value | waitUntil value =>
      simp only [lines, bind_eq_ok_iff, pure_eq_ok_iff] at h
      obtain ⟨v, hv, rfl⟩ := h
      have hvalue := Expr.piece_operand ha hnames List.mem_cons_self hv
      exact drawsAll_line (Piece.enclose (.plain (by decide)) hvalue (by decide)) n
  | resetTimer | resetYaw =>
      obtain rfl := Except.ok.inj h
      exact drawsAll_line (.owned (hneeds List.mem_cons_self) (by decide)) n
  | placeholder name feature =>
      obtain rfl := Except.ok.inj h
      exact (drawsAll_linesAt n _).mpr
        (List.forall_mem_singleton.mpr (.inl (placeholderText_shape name feature).1))

end

/-- Programs whose ports are spelled like names. -/
abbrev Forest.PlainPorts (forest : Forest) : Prop :=
  Forest.PortsIn (isNameChar · = true) forest

theorem Forest.plainPorts_of_loweredFrom {p : Project} {bestEffort : Bool} {forest : Forest}
    (hforest : ∀ s ∈ forest, Stack.LoweredFrom p bestEffort s) : forest.PlainPorts :=
  fun e he c hc => isNameChar_of_mem_portLetters c (Forest.portsIn_portLetters hforest e he c hc)

namespace Forest

variable {forest : Forest} {s : Stmt} {rest : Stack} {b : Bool}

theorem needs_subset (h : .stack s rest ∈ Forest.visited forest) :
    s.needs b ⊆ Forest.demands b forest :=
  fun _ hq => List.mem_flatMap.mpr ⟨_, h, hq⟩

theorem operand_demands_subset {o : Expr} (h : .stack s rest ∈ Forest.visited forest)
    (ho : o ∈ s.operands) : o.demands ⊆ Forest.demands b forest := by
  intro q hq
  obtain ⟨e, he, hq⟩ := List.mem_flatMap.mp hq
  exact List.mem_flatMap.mpr ⟨.expr e, expr_mem_visited h ho he, hq⟩

theorem draws_of_origin {l : Line} (hforest : forest.PlainPorts)
    (h : l.Origin (forest.any Stack.setsBrightness) (Forest.visited forest)) :
    Draws ((Forest.demands (forest.any Stack.setsBrightness) forest).map Demand.name) l.text := by
  cases h with
  | note h => exact .inl h
  | bare h =>
      have hends : ∀ t ∈ bareLines, ends anything [] t.toList = true := by decide
      exact (Piece.last (hends _ h) (List.nil_subset _)).draws
  | action hnode hlines hl =>
      refine Action.draws (fun o ho => hforest.operand hnode ho) ?_ ?_ ?_ hlines _ hl
      · -- A statement that sets the brightness is itself what the flag of the program is about.
        rintro e rfl
        exact Forest.setsBrightness_of_mem_visited hnode
      · exact List.map_subset _ (needs_subset hnode)
      · exact fun o ho => List.map_subset _ (operand_demands_subset hnode ho)
  | header hnode hbodies he ht hmarks =>
      have hends : ∀ marks ∈ headerMarks,
          settles anything [] marks.1.toList = true ∧ ends endsToken [] marks.2.toList = true := by
        decide
      have hports := hforest.operand hnode he
      refine (((Piece.joined (hends _ hmarks).1).append (Expr.piece_script hports ht ?_)).append
        (.last (hends _ hmarks).2 (List.nil_subset _))).draws
      exact List.map_subset _ (operand_demands_subset hnode he)

end Forest

end WordBlocks
