import WordBlocks.Proofs.LineShape
import WordBlocks.Proofs.ProgramScript

/-!
Suites of a script. The lines of every stack form a block: notes and statements at one depth, where
a line that ends with a colon is followed by a block one tab further in. A suite needs a line that
is not a comment, and it is `Layout.filled_iff` that carries this over to the rendered lines. The
programs whose scripts fill every suite are those where no body consists of placeholders only.
-/

namespace WordBlocks

open Script

/-- Lines in the layout of a block at a depth. The first flag says whether some line at that depth
is not a comment, the second one whether this holds for every suite inside. -/
inductive Script.Layout : Nat → List Line → Bool → Bool → Prop where
  | nil {n : Nat} : Layout n [] false true
  | note {n : Nat} {t : String} {ls : List Line} {acts filled : Bool}
      (starts : startsNote t = true) (ends : endsStatement t = true)
      (rest : Layout n ls acts filled) : Layout n (⟨n, t⟩ :: ls) acts filled
  | statement {n : Nat} {t : String} {ls : List Line} {acts filled : Bool}
      (starts : startsStatement t = true) (ends : endsStatement t = true)
      (rest : Layout n ls acts filled) : Layout n (⟨n, t⟩ :: ls) true filled
  | suite {n : Nat} {t : String} {body ls : List Line} {acts filled acts' filled' : Bool}
      (starts : startsStatement t = true) (ends : endsHeader t = true)
      (inner : Layout (n + 1) body acts' filled') (nonempty : body ≠ [])
      (rest : Layout n ls acts filled) :
      Layout n (⟨n, t⟩ :: (body ++ ls)) true (acts' && filled' && filled)

namespace Script.Layout

theorem append {n : Nat} {ls ms : List Line} {acts filled acts' filled' : Bool}
    (h : Layout n ls acts filled) (h' : Layout n ms acts' filled') :
    Layout n (ls ++ ms) (acts || acts') (filled && filled') := by
  induction h with
  | nil => exact h'
  | note starts ends _ ih => exact .note starts ends (ih h')
  | statement starts ends _ ih => exact .statement starts ends (ih h')
  | suite starts ends inner nonempty _ _ ih =>
      rw [List.cons_append, List.append_assoc, Bool.and_assoc]
      exact .suite starts ends inner nonempty (ih h')

theorem notes (n : Nat) {ts : List String}
    (h : ∀ t ∈ ts, startsNote t = true ∧ endsStatement t = true) :
    Layout n (linesAt n ts) false true := by
  induction ts with
  | nil => exact .nil
  | cons t ts ih =>
      obtain ⟨ht, hts⟩ := List.forall_mem_cons.mp h
      exact .note ht.1 ht.2 (ih hts)

theorem statements (n : Nat) {ts : List String} (hne : ts ≠ [])
    (h : ∀ t ∈ ts, startsStatement t = true ∧ endsStatement t = true) :
    Layout n (linesAt n ts) true true := by
  induction ts with
  | nil => exact absurd rfl hne
  | cons t ts ih =>
      obtain ⟨ht, hts⟩ := List.forall_mem_cons.mp h
      cases ts with
      | nil => exact .statement ht.1 ht.2 .nil
      | cons => exact .statement ht.1 ht.2 (ih (by simp) hts)

theorem line {n : Nat} {t : String} (starts : startsStatement t = true)
    (ends : endsStatement t = true) : Layout n (linesAt n [t]) true true :=
  .statement starts ends .nil

theorem fixedNote {n : Nat} {t : String} {ls : List Line} {acts filled : Bool}
    (ht : t ∈ fixedNotes) (rest : Layout n ls acts filled) : Layout n (⟨n, t⟩ :: ls) acts filled :=
  .note (fixedNotes_shape t ht).1 (fixedNotes_shape t ht).2 rest

end Script.Layout

/-- Targets that can be called: there is at least one, and each starts a statement. -/
def Script.Targets.Callable : Targets → Prop
  | objects names => names ≠ [] ∧ ∀ m ∈ names, startsStatement m = true
  | loop _ object => startsStatement object = true

theorem Expr.targets_callable {dev : Device} {ports : Expr} {t : Targets}
    (h : ports.targets dev = .ok t) : t.Callable := by
  obtain ⟨letters, rfl, hne, rfl⟩ | ⟨r, rfl, rfl⟩ := targets_cases h
  · refine ⟨by simpa using hne, ?_⟩
    intro m hm
    obtain ⟨letter, _, rfl⟩ := List.mem_map.mp hm
    simp
  · simp [Targets.Callable]

theorem Script.Layout.calls {t : Targets} (ht : t.Callable) (n : Nat) {call : String → String}
    (hcall : ∀ m, startsStatement m = true →
      startsStatement (call m) = true ∧ endsStatement (call m) = true) :
    Layout n (t.calls n call) true true := by
  cases t with
  | objects names =>
      apply Layout.statements n (by simpa using ht.1)
      intro s hs
      obtain ⟨m, hm, rfl⟩ := List.mem_map.mp hs
      exact hcall m (ht.2 m hm)
  | loop iterable object =>
      obtain ⟨hstarts, hends⟩ := hcall object ht
      have hheader : startsStatement ("for port in " ++ iterable ++ ":") = true := by simp +decide
      have hcolon : endsHeader ("for port in " ++ iterable ++ ":") = true := by simp +decide
      exact .suite hheader hcolon (.line hstarts hends) (by simp) .nil

theorem DataAction.layout {a : DataAction} {n : Nat} {ls : List Line} (h : a.lines n = .ok ls) :
    Layout n ls true true := by
  cases a with
  | set var value | change var value =>
      simp only [lines, bind_eq_ok_iff, pure_eq_ok_iff] at h
      obtain ⟨v, hv, rfl⟩ := h
      exact .line (by simp) (by simp [endsStatement_script hv])
  | append list item =>
      simp only [lines, bind_eq_ok_iff, pure_eq_ok_iff] at h
      obtain ⟨v, _, rfl⟩ := h
      exact .line (by simp) (by simp +decide)
  | delete list index =>
      simp only [lines, bind_eq_ok_iff, pure_eq_ok_iff] at h
      obtain ⟨i, _, rfl⟩ := h
      exact .fixedNote (by simp [fixedNotes]) (.line (by simp +decide) (by simp +decide))
  | clear list =>
      obtain rfl := Except.ok.inj h
      exact .line (by simp) (by simp +decide)
  | insert list item index =>
      simp only [lines, bind_eq_ok_iff, pure_eq_ok_iff] at h
      obtain ⟨v, _, i, _, rfl⟩ := h
      exact .fixedNote (by simp [fixedNotes]) (.line (by simp) (by simp +decide))
  | replace list index item =>
      simp only [lines, bind_eq_ok_iff, pure_eq_ok_iff] at h
      obtain ⟨i, _, v, hv, rfl⟩ := h
      exact .fixedNote (by simp [fixedNotes])
        (.line (by simp) (by simp [endsStatement_script hv]))

theorem MotorAction.layout_serialNote (t : Targets) (n : Nat) :
    Layout n (linesAt n (serialNote t)) false true := by
  apply Layout.notes
  intro s hs
  exact fixedNotes_shape s (serialNote_subset t hs)

theorem MotorAction.layout {a : MotorAction} {n : Nat} {ls : List Line} (h : a.lines n = .ok ls) :
    Layout n ls true true := by
  cases a with
  | run ports direction value unit =>
      simp only [lines, bind_eq_ok_iff, pure_eq_ok_iff] at h
      obtain ⟨t, ht, v, _, rfl⟩ := h
      have hcallable := Expr.targets_callable ht
      apply (layout_serialNote t n).append
      cases unit with
      | rotations | seconds =>
          apply Layout.calls hcallable
          intro m hm
          simp +decide [hm]
      | degrees =>
          apply Layout.fixedNote (by simp [fixedNotes])
          apply Layout.calls hcallable
          intro m hm
          simp +decide [hm]
  | goTo ports route position =>
      simp only [lines, bind_eq_ok_iff, pure_eq_ok_iff, linesAt_append, List.append_assoc] at h
      obtain ⟨t, ht, p, _, rfl⟩ := h
      apply (layout_serialNote t n).append
      apply Layout.fixedNote (by simp [fixedNotes])
      apply Layout.calls (Expr.targets_callable ht)
      intro m hm
      simp +decide [hm]
  | start ports direction =>
      simp only [lines, bind_eq_ok_iff, pure_eq_ok_iff] at h
      obtain ⟨t, ht, rfl⟩ := h
      apply Layout.calls (Expr.targets_callable ht)
      intro m hm
      cases direction <;> simp +decide [hm]
  | stop ports =>
      simp only [lines, bind_eq_ok_iff, pure_eq_ok_iff] at h
      obtain ⟨t, ht, rfl⟩ := h
      apply Layout.calls (Expr.targets_callable ht)
      intro m hm
      simp +decide [hm]
  | setSpeed ports speed =>
      simp only [lines, bind_eq_ok_iff, pure_eq_ok_iff] at h
      obtain ⟨t, ht, s, _, rfl⟩ := h
      apply Layout.calls (Expr.targets_callable ht)
      intro m hm
      simp +decide [hm]

theorem MovementAction.layout {a : MovementAction} {ts : List String} (h : a.texts = .ok ts)
    (n : Nat) : Layout n (linesAt n ts) true true := by
  cases a with
  | move heading value unit =>
      simp only [texts, bind_eq_ok_iff, pure_eq_ok_iff] at h
      obtain ⟨v, _, rfl⟩ := h
      cases heading <;> exact .line (by simp +decide [moveText]) (by simp +decide [moveText])
  | steer steering value unit =>
      simp only [texts, bind_eq_ok_iff, pure_eq_ok_iff] at h
      obtain ⟨s, _, v, _, rfl⟩ := h
      exact .line (by simp +decide) (by simp +decide)
  | start heading =>
      obtain rfl := Except.ok.inj h
      cases heading <;> exact .line (by decide) (by decide)
  | startSteering value | setSpeed value =>
      simp only [texts, bind_eq_ok_iff, pure_eq_ok_iff] at h
      obtain ⟨s, _, rfl⟩ := h
      exact .line (by simp +decide) (by simp +decide)
  | stop =>
      obtain rfl := Except.ok.inj h
      exact .line (by decide) (by decide)
  | setMotors ports =>
      obtain ⟨left, right, rfl, rfl⟩ | ⟨r, rfl, rfl⟩ := Expr.pairTexts_cases h
      · exact .line (by simp +decide [-String.append_singleton]) (by simp +decide)
      · exact .fixedNote (by simp [fixedNotes]) (.line (by simp +decide) (by simp +decide))
  | setRotation distance unit =>
      simp only [texts, bind_eq_ok_iff] at h
      obtain ⟨d, _, h⟩ := h
      cases unit with
      | cm | inches =>
          obtain rfl := Except.ok.inj h
          exact .line (by simp +decide) (by simp +decide)
      | percent => cases h

theorem Script.patternCallText_shape (usesBrightness : Bool) (pattern : String) :
    startsStatement (patternCallText usesBrightness pattern) = true ∧
      endsStatement (patternCallText usesBrightness pattern) = true := by
  have hname : startsStatement patternFunction = true := by decide
  unfold patternCallText
  split <;> simp +decide [hname]

theorem LightAction.layout {a : LightAction} {b : Bool} {n : Nat} {ls : List Line}
    (h : a.lines b n = .ok ls) : Layout n ls true true := by
  cases a with
  | displayFor pattern duration =>
      simp only [lines, bind_eq_ok_iff, pure_eq_ok_iff] at h
      obtain ⟨p, _, d, _, rfl⟩ := h
      obtain ⟨hstarts, hends⟩ := patternCallText_shape b p
      exact .statement hstarts hends (.statement (by simp +decide) (by simp +decide)
        (.line (by decide) (by decide)))
  | display pattern =>
      simp only [lines, bind_eq_ok_iff, pure_eq_ok_iff] at h
      obtain ⟨p, _, rfl⟩ := h
      obtain ⟨hstarts, hends⟩ := patternCallText_shape b p
      exact .line hstarts hends
  | write value | setBrightness value =>
      simp only [lines, bind_eq_ok_iff, pure_eq_ok_iff] at h
      obtain ⟨t, _, rfl⟩ := h
      exact .line (by simp +decide) (by simp +decide)
  | off =>
      obtain rfl := Except.ok.inj h
      exact .line (by decide) (by decide)
  | setPixel x y brightness =>
      simp only [lines, bind_eq_ok_iff, pure_eq_ok_iff] at h
      obtain ⟨x, _, y, _, v, _, rfl⟩ := h
      exact .fixedNote (by simp [fixedNotes]) (.line (by simp +decide) (by simp +decide))
  | setButton color =>
      simp only [lines, bind_eq_ok_iff, pure_eq_ok_iff] at h
      obtain ⟨c, _, rfl⟩ := h
      exact .line (by simp +decide) (by simp +decide)
  | lightSensor port pattern =>
      simp only [lines, bind_eq_ok_iff, pure_eq_ok_iff] at h
      obtain ⟨t, ht, lights, _, rfl⟩ := h
      apply Layout.calls (Expr.targets_callable ht)
      intro m hm
      simp +decide [hm]

theorem SoundAction.layout {a : SoundAction} {ts : List String} (h : a.texts = .ok ts) (n : Nat) :
    Layout n (linesAt n ts) true true := by
  cases a with
  | play sound | start sound =>
      obtain rfl := Except.ok.inj h
      exact .statement (by simp +decide) (by simp +decide) (.line (by decide) (by decide))
  | beep note duration =>
      simp only [texts, bind_eq_ok_iff, pure_eq_ok_iff] at h
      obtain ⟨k, _, d, _, rfl⟩ := h
      exact .line (by simp +decide) (by simp +decide)
  | startBeep value | setVolume value | changeVolume value =>
      simp only [texts, bind_eq_ok_iff, pure_eq_ok_iff] at h
      obtain ⟨k, _, rfl⟩ := h
      exact .line (by simp +decide) (by simp +decide)
  | stop =>
      obtain rfl := Except.ok.inj h
      exact .line (by decide) (by decide)

/-- Whether a statement without a body is a placeholder. -/
def Action.isPlaceholder : Action → Bool
  | placeholder _ _ => true
  | _ => false

theorem Action.layout {a : Action} {b : Bool} {n : Nat} {ls : List Line}
    (h : a.lines b n = .ok ls) : Layout n ls (!a.isPlaceholder) true := by
  cases a with
  | data a => exact DataAction.layout h
  | motor a => exact MotorAction.layout h
  | movement a =>
      simp only [lines, map_eq_ok_iff] at h
      obtain ⟨ts, hts, rfl⟩ := h
      exact MovementAction.layout hts n
  | light a => exact LightAction.layout h
  | sound a =>
      simp only [lines, map_eq_ok_iff] at h
      obtain ⟨ts, hts, rfl⟩ := h
      exact SoundAction.layout hts n
  | wait value | waitUntil value =>
      simp only [lines, bind_eq_ok_iff, pure_eq_ok_iff] at h
      obtain ⟨d, _, rfl⟩ := h
      exact .line (by simp +decide) (by simp +decide)
  | resetTimer | resetYaw =>
      obtain rfl := Except.ok.inj h
      exact .line (by decide) (by decide)
  | placeholder block feature =>
      obtain rfl := Except.ok.inj h
      obtain ⟨hstarts, hends⟩ := placeholderText_shape block feature
      exact .note hstarts hends .nil

theorem Action.lines_ne_nil {a : Action} {b : Bool} {n : Nat} {ls : List Line}
    (h : a.lines b n = .ok ls) : ls ≠ [] := by
  rintro rfl
  cases a with
  | placeholder block feature => cases h
  | _ =>
      have hlayout := Action.layout h
      cases hlayout

/-- Whether a statement is a placeholder, which leaves only a comment. -/
def Stmt.isPlaceholder : Stmt → Bool
  | action a => a.isPlaceholder
  | _ => false

mutual

/-- Whether every body in a statement gives its suite a line that is not a comment. -/
def Stmt.suitesAct : Stmt → Bool
  | .hat _ _ => true
  | .action _ => true
  | .repeatTimes _ body => Stack.suiteActs body
  | .forever body => Stack.suiteActs body
  | .repeatUntil _ body => Stack.suiteActs body
  | .ifThen _ body => Stack.suiteActs body
  | .ifElse _ body orElse => Stack.suiteActs body && Stack.suiteActs orElse

/-- The same for every statement of a stack. -/
def Stack.suitesAct : List Stmt → Bool
  | [] => true
  | first :: rest => first.suitesAct && Stack.suitesAct rest

/-- The same for a body and every body inside it. A body without statements is filled in. -/
def Stack.suiteActs : List Stmt → Bool
  | [] => true
  | first :: rest =>
    (first :: rest).any (!·.isPlaceholder) && (first.suitesAct && Stack.suitesAct rest)

end

theorem Script.Layout.exprNotes (n : Nat) (es : List Expr) :
    Layout n (linesAt n (es.flatMap Expr.notes)) false true := by
  apply Layout.notes
  intro t ht
  obtain ⟨e, _, ht⟩ := List.mem_flatMap.mp ht
  obtain rfl := Expr.eq_keyNote_of_mem_notes ht
  exact placeholderText_shape _ _

theorem Script.Layout.header {n : Nat} {t : String} {body : List Line} {acts filled : Bool}
    (starts : startsStatement t = true) (ends : endsHeader t = true)
    (inner : Layout (n + 1) body acts filled) (nonempty : body ≠ []) :
    Layout n (⟨n, t⟩ :: body) true (acts && filled) := by
  have hsuite := Layout.suite starts ends inner nonempty .nil
  rwa [List.append_nil, Bool.and_true] at hsuite

theorem Script.Layout.condition {n : Nat} {t : String} (e : Expr) {body : List Line}
    {acts filled : Bool} (starts : startsStatement t = true) (ends : endsHeader t = true)
    (inner : Layout (n + 1) body acts filled) (nonempty : body ≠ []) :
    Layout n (linesAt n (e.notes ++ [t]) ++ body) true (acts && filled) := by
  have hlayout := (exprNotes n [e]).append (header starts ends inner nonempty)
  simpa using hlayout

mutual

theorem Stmt.layout {s : Stmt} {b : Bool} {n : Nat} {ls : List Line} (h : s.lines b n = .ok ls) :
    ls ≠ [] ∧ Layout n ls (!s.isPlaceholder) s.suitesAct := by
  cases s with
  | hat x y => cases h
  | action a =>
      simp only [Stmt.lines, bind_eq_ok_iff, pure_eq_ok_iff] at h
      obtain ⟨ls, hls, rfl⟩ := h
      refine ⟨by simp [Action.lines_ne_nil hls], ?_⟩
      have hlayout := (Layout.exprNotes n a.operands).append (Action.layout hls)
      rwa [Bool.false_or, Bool.true_and] at hlayout
  | repeatTimes times body =>
      simp only [Stmt.lines, bind_eq_ok_iff, pure_eq_ok_iff] at h
      obtain ⟨t, _, ls, hls, rfl⟩ := h
      obtain ⟨hne, acts, filled, hsuite, heq⟩ := Stack.suite_layout hls
      refine ⟨by simp, ?_⟩
      rw [Stmt.suitesAct, ← heq]
      have hheader := Layout.header (n := n) (t := "for _ in range(int(" ++ t ++ ")):")
        (by simp +decide) (by simp +decide) hsuite hne
      have hlayout := (Layout.exprNotes n [times]).append
        (Layout.fixedNote (t := repeatCountNote) (by simp [fixedNotes]) hheader)
      simpa [Stmt.isPlaceholder] using hlayout
  | forever body =>
      simp only [Stmt.lines, bind_eq_ok_iff, pure_eq_ok_iff] at h
      obtain ⟨ls, hls, rfl⟩ := h
      obtain ⟨hne, acts, filled, hsuite, heq⟩ := Stack.suite_layout hls
      refine ⟨by simp, ?_⟩
      rw [Stmt.suitesAct, ← heq]
      exact .header (by decide) (by decide) hsuite hne
  | repeatUntil condition body | ifThen condition body =>
      simp only [Stmt.lines, bind_eq_ok_iff, pure_eq_ok_iff] at h
      obtain ⟨c, _, ls, hls, rfl⟩ := h
      obtain ⟨hne, acts, filled, hsuite, heq⟩ := Stack.suite_layout hls
      refine ⟨by simp, ?_⟩
      rw [Stmt.suitesAct, ← heq]
      exact .condition condition (by simp +decide) (by simp +decide) hsuite hne
  | ifElse condition body orElse =>
      simp only [Stmt.lines, bind_eq_ok_iff, pure_eq_ok_iff] at h
      obtain ⟨c, _, ls, hls, ms, hms, rfl⟩ := h
      obtain ⟨hne, acts, filled, hsuite, heq⟩ := Stack.suite_layout hls
      obtain ⟨hne', acts', filled', hsuite', heq'⟩ := Stack.suite_layout hms
      refine ⟨by simp, ?_⟩
      rw [Stmt.suitesAct, ← heq, ← heq']
      exact (Layout.condition condition (by simp +decide) (by simp +decide) hsuite hne).append
        (.header (by decide) (by decide) hsuite' hne')

theorem Stack.layout {s : List Stmt} {b : Bool} {n : Nat} {ls : List Line}
    (h : Stack.lines b n s = .ok ls) :
    Layout n ls (s.any (!·.isPlaceholder)) (Stack.suitesAct s) := by
  cases s with
  | nil =>
      obtain rfl := Except.ok.inj h
      exact .nil
  | cons first rest =>
      simp only [Stack.lines, bind_eq_ok_iff, pure_eq_ok_iff] at h
      obtain ⟨ls, hls, ms, hms, rfl⟩ := h
      exact (Stmt.layout hls).2.append (Stack.layout hms)

theorem Stack.suite_layout {s : List Stmt} {b : Bool} {n : Nat} {ls : List Line}
    (h : Stack.suiteLines b n s = .ok ls) :
    ls ≠ [] ∧ ∃ acts filled, Layout n ls acts filled ∧ (acts && filled) = Stack.suiteActs s := by
  cases s with
  | nil =>
      -- The one line `pass` acts, although the body has no statement.
      obtain rfl := Except.ok.inj h
      exact ⟨by simp, true, true, .line (by decide) (by decide), rfl⟩
  | cons first rest =>
      simp only [Stack.suiteLines, bind_eq_ok_iff, pure_eq_ok_iff] at h
      obtain ⟨ls, hls, ms, hms, rfl⟩ := h
      obtain ⟨hne, hfirst⟩ := Stmt.layout hls
      exact ⟨by simp [hne], _, _, hfirst.append (Stack.layout hms), rfl⟩

end

/-- A body without statements, or with a statement that is not a placeholder. -/
def Stack.Acts (body : Stack) : Prop :=
  body = [] ∨ ∃ s ∈ body, s.isPlaceholder = false

/-- The bodies of a node are empty or do something. -/
def Node.BodiesAct : Node → Prop
  | expr _ => True
  | stack first _ => ∀ body ∈ first.bodies, Stack.Acts body

theorem Stack.bodiesAct_cons (first : Stmt) (rest : Stack) :
    (∀ n ∈ Stack.visited (first :: rest), n.BodiesAct) ↔
      (∀ body ∈ first.bodies, Stack.Acts body ∧ ∀ n ∈ Stack.visited body, n.BodiesAct) ∧
        ∀ n ∈ Stack.visited rest, n.BodiesAct := by
  rw [Stack.forall_mem_visited_cons fun _ => trivial, ← and_assoc]
  exact and_congr_left fun _ => forall₂_and.symm

mutual

theorem Stmt.suitesAct_iff (s : Stmt) :
    s.suitesAct = true ↔
      ∀ body ∈ s.bodies, Stack.Acts body ∧ ∀ n ∈ Stack.visited body, n.BodiesAct := by
  cases s with
  | hat x y | action a => simp [Stmt.suitesAct, Stmt.bodies]
  | forever body | repeatTimes _ body | repeatUntil _ body | ifThen _ body =>
      simp [Stmt.suitesAct, Stmt.bodies, Stack.suiteActs_iff body]
  | ifElse condition body orElse =>
      simp [Stmt.suitesAct, Stmt.bodies, Stack.suiteActs_iff body, Stack.suiteActs_iff orElse]

theorem Stack.suitesAct_iff (s : List Stmt) :
    Stack.suitesAct s = true ↔ ∀ n ∈ Stack.visited s, n.BodiesAct := by
  cases s with
  | nil => simp [Stack.suitesAct]
  | cons first rest =>
      rw [Stack.bodiesAct_cons, Stack.suitesAct, Bool.and_eq_true, Stmt.suitesAct_iff first,
        Stack.suitesAct_iff rest]

theorem Stack.suiteActs_iff (s : List Stmt) :
    Stack.suiteActs s = true ↔ Stack.Acts s ∧ ∀ n ∈ Stack.visited s, n.BodiesAct := by
  cases s with
  | nil => simp [Stack.suiteActs, Stack.Acts]
  | cons first rest =>
      have hacts : ((first :: rest).any (!·.isPlaceholder)) = true ↔
          Stack.Acts (first :: rest) := by
        simp only [List.any_eq_true, Bool.not_eq_true', Stack.Acts]
        simp
      rw [Stack.bodiesAct_cons, Stack.suiteActs, Bool.and_eq_true, Bool.and_eq_true, hacts,
        Stmt.suitesAct_iff first, Stack.suitesAct_iff rest]

end

theorem Forest.layout {forest : Forest} {b started : Bool} {ls : List Line}
    (h : Forest.lines b started forest = .ok ls) :
    ∃ acts filled, Layout 0 ls acts filled ∧
      (filled = true ↔ ∀ n ∈ Forest.visited forest, n.BodiesAct) := by
  induction forest generalizing started ls with
  | nil =>
      obtain rfl := Except.ok.inj h
      exact ⟨false, true, .nil, by simp [Forest.visited]⟩
  | cons root rest ih =>
      rcases Forest.lines_cons_cases h with
        ⟨x, y, body, ls, ms, rfl, hls, hms, rfl⟩ | ⟨ms, hloose, hms, rfl⟩
      · obtain ⟨acts, filled, hrest, hfilled⟩ := ih hms
        have hnote : Layout 0 (linesAt 0 (if started then [parallelNote] else [])) false true := by
          apply Layout.notes
          intro t ht
          split at ht
          · obtain rfl := List.mem_singleton.mp ht
            exact placeholderText_shape _ _
          · cases ht
        refine ⟨_, _, (hnote.append (Stack.layout hls)).append hrest, ?_⟩
        rw [Bool.true_and, Bool.and_eq_true, hfilled, Stack.suitesAct_iff,
          Forest.visited_cons_hat, List.forall_mem_append]
      · obtain ⟨acts, filled, hrest, hfilled⟩ := ih hms
        refine ⟨acts, filled, .fixedNote (by simp [fixedNotes]) hrest, ?_⟩
        rw [hfilled, Forest.visited_cons_loose rest hloose]

namespace Script

/-- The number of tabs before a line. -/
def leadingTabs (l : String) : Nat :=
  (l.toList.takeWhile (· == '\t')).length

/-- Whether a line holds only a comment. -/
def isComment (l : String) : Bool :=
  (l.toList.dropWhile (· == '\t')).head?.any (· == '#')

/-- Every line that ends with a colon is followed, before the first line that is not further in, by
a line one tab further in that is not a comment. -/
def SuitesFilled (ls : List String) : Prop :=
  ∀ before header after, ls = before ++ header :: after → endsHeader header = true →
    ∃ l ∈ after.takeWhile (fun l => leadingTabs header < leadingTabs l),
      leadingTabs l = leadingTabs header + 1 ∧ isComment l = false

theorem suitesFilled_nil : SuitesFilled [] := by
  intro before header after h
  simp at h

theorem suitesFilled_cons (l : String) (ls : List String) :
    SuitesFilled (l :: ls) ↔
      (endsHeader l = true → ∃ m ∈ ls.takeWhile (fun m => leadingTabs l < leadingTabs m),
        leadingTabs m = leadingTabs l + 1 ∧ isComment m = false) ∧ SuitesFilled ls := by
  constructor
  · intro h
    refine ⟨h [] l ls rfl, ?_⟩
    intro before header after heq
    exact h (l :: before) header after (by rw [heq, List.cons_append])
  · rintro ⟨hfirst, hrest⟩ before header after heq
    cases before with
    | nil =>
        obtain ⟨rfl, rfl⟩ := List.cons.inj heq
        exact hfirst
    | cons _ before => exact hrest before header after (List.cons.inj heq).2

/-- A text that does not start with a tab. -/
def startsText (s : String) : Bool :=
  s.toList.head?.any (· != '\t')

theorem startsText_of_startsNote {s : String} (h : startsNote s = true) : startsText s = true := by
  unfold startsNote at h
  unfold startsText
  cases hs : s.toList.head? <;> simp_all

theorem startsText_of_startsStatement {s : String} (h : startsStatement s = true) :
    startsText s = true := by
  unfold startsStatement at h
  unfold startsText
  cases hs : s.toList.head? <;> simp_all

theorem startsNote_of_startsStatement {s : String} (h : startsStatement s = true) :
    startsNote s = false := by
  unfold startsStatement at h
  unfold startsNote
  cases hs : s.toList.head? <;> simp_all

theorem endsHeader_of_endsStatement {s : String} (h : endsStatement s = true) :
    endsHeader s = false := by
  unfold endsStatement at h
  unfold endsHeader
  cases hs : s.toList.getLast? <;> simp_all

theorem exists_cons_of_startsText {s : String} (h : startsText s = true) :
    ∃ c cs, s.toList = c :: cs ∧ (c == '\t') = false := by
  unfold startsText at h
  cases hs : s.toList with
  | nil => simp [hs] at h
  | cons c cs => exact ⟨c, cs, rfl, by simpa [hs] using h⟩

namespace Line

theorem toList_render (l : Line) :
    l.render.toList = List.replicate l.depth '\t' ++ l.text.toList := by
  rw [render, String.toList_append, tabs, String.toList_ofList]

theorem leadingTabs_render (n : Nat) {t : String} (h : startsText t = true) :
    leadingTabs (render ⟨n, t⟩) = n := by
  obtain ⟨c, cs, hcons, hc⟩ := exists_cons_of_startsText h
  rw [leadingTabs, toList_render, hcons, List.takeWhile_append_of_pos (by simp)]
  simp [hc]

theorem isComment_render (n : Nat) {t : String} (h : startsText t = true) :
    isComment (render ⟨n, t⟩) = startsNote t := by
  obtain ⟨c, cs, hcons, hc⟩ := exists_cons_of_startsText h
  rw [isComment, toList_render, hcons, List.dropWhile_append_of_pos (by simp), startsNote, hcons]
  simp [hc]

theorem endsHeader_render (n : Nat) {t : String} (h : startsText t = true) :
    endsHeader (render ⟨n, t⟩) = endsHeader t := by
  have hne : t ≠ "" := by
    rintro rfl
    exact absurd h (by decide)
  rw [render, endsHeader_append]
  simp [hne]

end Line

namespace Layout

theorem depth_head {n : Nat} {ls : List Line} {acts filled : Bool} (h : Layout n ls acts filled) :
    ∀ l ∈ ls.head?, l.depth = n := by
  cases h with
  | nil => simp
  | note | statement | suite =>
      rintro l hl
      obtain rfl := Option.some.inj hl
      rfl

theorem le_depth {n : Nat} {ls : List Line} {acts filled : Bool} (h : Layout n ls acts filled) :
    ∀ l ∈ ls, n ≤ l.depth ∧ startsText l.text = true := by
  induction h with
  | nil => simp
  | note starts _ _ ih =>
      exact List.forall_mem_cons.mpr ⟨⟨le_rfl, startsText_of_startsNote starts⟩, ih⟩
  | statement starts _ _ ih =>
      exact List.forall_mem_cons.mpr ⟨⟨le_rfl, startsText_of_startsStatement starts⟩, ih⟩
  | suite starts _ _ _ _ ihbody ih =>
      refine List.forall_mem_cons.mpr ⟨⟨le_rfl, startsText_of_startsStatement starts⟩, ?_⟩
      intro l hl
      rcases List.mem_append.mp hl with hl | hl
      · obtain ⟨hdepth, htext⟩ := ihbody l hl
        exact ⟨by omega, htext⟩
      · exact ih l hl

theorem acts_iff {n : Nat} {ls : List Line} {acts filled : Bool} (h : Layout n ls acts filled) :
    acts = true ↔ ∃ l ∈ ls.map Line.render, leadingTabs l = n ∧ isComment l = false := by
  induction h with
  | nil => simp
  | @note n t _ _ _ starts _ _ ih =>
      have hcomment := Line.isComment_render n (startsText_of_startsNote starts)
      simp [ih, hcomment, starts]
  | statement starts | suite starts =>
      have htext := startsText_of_startsStatement starts
      refine iff_of_true rfl ⟨_, List.mem_cons_self, Line.leadingTabs_render _ htext, ?_⟩
      rw [Line.isComment_render _ htext]
      exact startsNote_of_startsStatement starts

theorem head_append_le {n : Nat} {ls : List Line} {acts filled : Bool}
    (h : Layout n ls acts filled) {rest : List String}
    (hrest : ∀ l ∈ rest.head?, leadingTabs l ≤ n) :
    ∀ l ∈ (ls.map Line.render ++ rest).head?, leadingTabs l ≤ n := by
  cases ls with
  | nil => exact hrest
  | cons first ls =>
      intro l hl
      obtain rfl := Option.some.inj hl
      have htext := (h.le_depth first List.mem_cons_self).2
      rw [Line.leadingTabs_render _ htext, h.depth_head first rfl]

/-- A block one tab further in is all that lies between its header and what follows it. -/
theorem takeWhile_deeper {n : Nat} {ls : List Line} {acts filled : Bool}
    (h : Layout (n + 1) ls acts filled) {rest : List String}
    (hrest : ∀ l ∈ rest.head?, leadingTabs l ≤ n) :
    (ls.map Line.render ++ rest).takeWhile (fun l => n < leadingTabs l) = ls.map Line.render := by
  rw [List.takeWhile_append_of_pos]
  · cases rest with
    | nil => simp
    | cons l rest =>
        have hl := hrest l rfl
        simp [Nat.not_lt.mpr hl]
  · intro l hl
    obtain ⟨l, hmem, rfl⟩ := List.mem_map.mp hl
    obtain ⟨hdepth, htext⟩ := h.le_depth l hmem
    rw [Line.leadingTabs_render _ htext, decide_eq_true_eq]
    omega

/-- The second flag of a block says whether its suites are filled, whatever follows it that is not
further in. -/
theorem filled_iff {n : Nat} {ls : List Line} {acts filled : Bool} (h : Layout n ls acts filled)
    {rest : List String} (hrest : ∀ l ∈ rest.head?, leadingTabs l ≤ n) :
    SuitesFilled (ls.map Line.render ++ rest) ↔ filled = true ∧ SuitesFilled rest := by
  induction h generalizing rest with
  | nil => simp
  | @note n _ _ _ _ starts ends _ ih =>
      have hends := Line.endsHeader_render n (startsText_of_startsNote starts)
      rw [endsHeader_of_endsStatement ends] at hends
      rw [List.map_cons, List.cons_append, suitesFilled_cons, hends, ih hrest]
      simp
  | @statement n _ _ _ _ starts ends _ ih =>
      have hends := Line.endsHeader_render n (startsText_of_startsStatement starts)
      rw [endsHeader_of_endsStatement ends] at hends
      rw [List.map_cons, List.cons_append, suitesFilled_cons, hends, ih hrest]
      simp
  | @suite n t body ls acts filled acts' filled' starts ends inner _ after ihbody ih =>
      have htext := startsText_of_startsStatement starts
      have hends := Line.endsHeader_render n htext
      have htabs := Line.leadingTabs_render n htext
      have hafter := after.head_append_le hrest
      -- The lines further in than the header are those of its body, since what comes after the body
      -- starts at the depth of the header or further out.
      have hbody := ihbody fun l hl => Nat.le_succ_of_le (hafter l hl)
      rw [List.map_cons, List.map_append, List.cons_append, List.append_assoc, suitesFilled_cons,
        hbody, ih hrest, hends, htabs, inner.takeWhile_deeper hafter]
      simp only [ends, true_implies, ← inner.acts_iff, Bool.and_eq_true, and_assoc]

end Layout

end Script

/-- A script fills its suites just if no body below a hat consists of placeholders only. -/
theorem Script.generate_suitesFilled_iff {forest : Forest} {p : Program}
    (h : generate forest = .ok p) :
    SuitesFilled p.body ↔ ∀ n ∈ Forest.visited forest, n.BodiesAct := by
  rw [generate_eq, bind_eq_ok_iff] at h
  obtain ⟨ls, hls, hp⟩ := h
  obtain rfl := Except.ok.inj hp
  obtain ⟨acts, filled, hlayout, hfilled⟩ := Forest.layout hls
  have hbody : SuitesFilled (ls.map Line.render ++ []) ↔ filled = true ∧ SuitesFilled [] :=
    hlayout.filled_iff (by simp)
  rw [List.append_nil] at hbody
  rw [← hfilled]
  exact hbody.trans (and_iff_left suitesFilled_nil)

theorem Script.generate_suitesFilled_branches :
    ∃ p, generate [[.hat none none, .forever [.ifElse (.reading .timer)
        [.action (.placeholder "foo" none), .action (.sound .stop)] []]]] = .ok p ∧
      SuitesFilled p.body := by
  obtain ⟨p, hp⟩ : ∃ p, generate [[.hat none none, .forever [.ifElse (.reading .timer)
      [.action (.placeholder "foo" none), .action (.sound .stop)] []]]] = .ok p :=
    ⟨_, rfl⟩
  refine ⟨p, hp, (generate_suitesFilled_iff hp).mpr ?_⟩
  rw [Forest.visited_cons_hat, Forest.visited, List.flatMap_nil, List.append_nil]
  exact (Stack.suitesAct_iff _).mp rfl

/-- A loop around a placeholder has a suite without a line that is not a comment. -/
theorem Script.generate_placeholder_suite :
    (generate [[.hat none none, .forever [.action (.placeholder "foo" none)]]]).map Program.body =
        .ok ["while True:", "\t# Placeholder for the foo block. " ++
          "Note: that foo is not supported in Python at the moment."] ∧
      ¬ SuitesFilled ["while True:", "\t# Placeholder for the foo block. " ++
          "Note: that foo is not supported in Python at the moment."] := by
  constructor
  · decide +kernel
  · intro h
    obtain ⟨l, hl, -, hcomment⟩ := h [] "while True:" _ rfl (by decide)
    obtain rfl := List.mem_singleton.mp ((List.takeWhile_sublist _).subset hl)
    exact absurd hcomment (by decide)

end WordBlocks
