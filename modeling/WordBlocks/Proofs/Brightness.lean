import WordBlocks.Proofs.Bindings

/-!
The brightness of the light matrix. If a program sets the brightness anywhere, its script keeps it
in a variable, and every call of the function that shows a pattern passes this variable on, also the
calls before the brightness is first set. Otherwise no line of the script knows the variable. The
variable is declared at most once, and the function is defined at most once
(`generate_threads_brightness`).
-/

namespace WordBlocks

open Script
open Python (Token Lexes scanner endsSign endsToken endsWord)

namespace Python

/-- Wherever a statement names a function, it calls it, with one argument and then the given ones.
-/
def CallsWith (function : String) (more : List (List Token)) (ts : List Token) : Prop :=
  ∀ rest, .name function :: rest <:+ ts → ∃ first, arguments? rest = some (first :: more)

variable {function : String} {more : List (List Token)}

theorem callsWith_of_notMem {ts : List Token} (h : .name function ∉ ts) :
    CallsWith function more ts := by
  intro rest hrest
  exact absurd (hrest.subset List.mem_cons_self) h

theorem callsWith_call {first rest : List Token} (h : arguments? rest = some (first :: more))
    (hrest : .name function ∉ rest) : CallsWith function more (.name function :: rest) := by
  intro after hafter
  rcases List.suffix_cons_iff.mp hafter with heq | hafter
  · obtain rfl := List.tail_eq_of_cons_eq heq
    exact ⟨first, h⟩
  · exact callsWith_of_notMem hrest after hafter

end Python

namespace Script

/-- A line that is a comment, or whose tokens satisfy a condition. -/
def CommentOr (condition : List Token → Prop) (line : String) : Prop :=
  isComment line = true ∨ ∃ ts, scanner.tokens? line = some ts ∧ condition ts

theorem isComment_of_startsNote {text : String} (h : startsNote text = true) :
    isComment text = true := by
  have hrender : Line.render ⟨0, text⟩ = text := String.toList_inj.mp (Line.toList_render _)
  rw [← hrender, Line.isComment_render 0 (startsText_of_startsNote h)]
  exact h

theorem CommentOr.render {condition : List Token → Prop} {l : Line}
    (h : CommentOr condition l.text) : CommentOr condition l.render := by
  rcases h with hcomment | ⟨ts, hts, h⟩
  · left
    rw [isComment, Line.toList_render, List.dropWhile_append_of_pos (by simp)]
    exact hcomment
  · exact .inr ⟨ts, tokens?_render l hts, h⟩

theorem name_notMem_of_ownIn {word : String} {names : List String} {ts : List Token}
    (hword : word ∈ ownedNames) (hnames : word ∉ names) (h : ownIn ts ⊆ names) : .name word ∉ ts :=
  fun hmem => hnames (h (mem_ownIn.mpr ⟨hmem, hword⟩))

theorem Draws.lacks {word : String} {names : List String} {text : String} (h : Draws names text)
    (hword : word ∈ ownedNames) (hnames : word ∉ names) : CommentOr (.name word ∉ ·) text :=
  h.imp isComment_of_startsNote fun ⟨ts, hts, hown⟩ =>
    ⟨ts, hts, name_notMem_of_ownIn hword hnames hown⟩

theorem brightnessVariable_mem_ownedNames : brightnessVariable ∈ ownedNames := by
  decide

theorem patternFunction_mem_ownedNames : patternFunction ∈ ownedNames := by
  decide

namespace Demand

theorem eq_of_name_eq {b : Bool} {P : Char → Prop} {q own : Demand} (h : q.Issued b P)
    (hown : own ∈ [brightness, pattern]) (hname : q.name = own.name) : q = own := by
  have hfixed : ∀ q ∈ [hub, app, timer, motorPair, brightness, pattern, random],
      ∀ own ∈ [brightness, pattern], q.name = own.name → q = own := by
    decide
  cases h with
  | device d _ =>
      -- The names of devices do not start with an underscore.
      have hdevice (port : Char) : (d.objectName port).toList.head? ≠ some '_' := by
        cases d <;> simp [Device.objectName, Device.stem]
      have hunderscore : ∀ own ∈ [brightness, pattern], own.name.toList.head? = some '_' := by
        decide
      rw [name_device] at hname
      exact absurd (hname ▸ hunderscore own hown) (hdevice _)
  | list name =>
      rw [name_list] at hname
      have hmem : ∀ own ∈ [brightness, pattern], own.name ∈ ownedNames := by decide
      exact absurd (hname ▸ hmem own hown) (identifier_notMem_ownedNames name)
  | _ => exact hfixed _ (by simp) own hown hname

theorem pattern_cases {b : Bool} {P : Char → Prop} {q : Demand} (h : q.Issued b P) :
    q = .pattern ∨ q.symbol ≠ Demand.pattern.symbol ∧ q.functions = [] := by
  cases h with
  | pattern => exact .inl rfl
  | _ => exact .inr ⟨Symbol.noConfusion, rfl⟩

theorem exists_tokens_of_mem_declarations {b : Bool} {q : Demand}
    (h : q.Issued b (isNameChar · = true)) {t : String} (ht : t ∈ q.declarations) :
    ∃ ts, scanner.tokens? t = some ts ∧ ownIn ts ⊆ [q.name] := by
  have hfixed : ∀ q ∈ [hub, app, timer, motorPair, brightness, pattern, random],
      ∀ t ∈ q.declarations, ends anything [q.name] t.toList = true := by
    decide +kernel
  cases h with
  | @device d port hport =>
      obtain rfl := List.mem_singleton.mp ht
      have hname : Piece endsSign endsWord [d.objectName port] (d.objectName port) :=
        (nested_objectName hport List.mem_cons_self).piece
      have hmark : Piece endsWord endsSign [d.objectName port] " = " := .plain (by decide)
      have hopening : Piece endsWord endsSign [d.objectName port] "(" := .plain (by decide)
      have hclosing : Piece endsWord endsToken [d.objectName port] ")" := .plain (by decide)
      have hclass := (nested_className d).piece.append hopening
      have hvalue := hclass.append ((nested_letter hport).piece.append hclosing)
      exact (((hname.append hmark).append hvalue).respell (by simp)).tokens
  | list name =>
      obtain rfl := List.mem_singleton.mp ht
      have hempty : Piece endsWord endsToken [(list (identifier name)).name] " = []" :=
        .plain (by decide)
      exact ((nested_identifier name).piece.append hempty).tokens
  | _ => exact (Piece.last (hfixed _ (by simp) t ht) (List.Subset.refl _)).tokens

end Demand

/-- What a call passes on after the pattern. -/
def brightnessArguments (b : Bool) : List (List Token) :=
  if b then [[.name brightnessVariable]] else []

/-- A line whose calls of the function for patterns pass the brightness on, if there is one. -/
def Passes (b : Bool) (text : String) : Prop :=
  CommentOr (Python.CallsWith patternFunction (brightnessArguments b)) text

theorem Draws.passes {b : Bool} {names : List String} {text : String} (h : Draws names text)
    (hnames : patternFunction ∉ names) : Passes b text :=
  (h.lacks patternFunction_mem_ownedNames hnames).imp id fun ⟨ts, hts, hlacks⟩ =>
    ⟨ts, hts, Python.callsWith_of_notMem hlacks⟩

theorem passes_patternCall {b : Bool} {names : List String} {t : String}
    (ht : Nested endsToken names 0 t) (hnames : patternFunction ∉ names) :
    Passes b (patternCallText b t) := by
  obtain ⟨c, cs, ts, htext, -, hlex, hts⟩ := ht
  have hlacks := name_notMem_of_ownIn patternFunction_mem_ownedNames hnames hts.own
  have hfunction : Lexes endsWord patternFunction.toList [.name patternFunction] :=
    Python.lexes_name (by decide)
  have hopening : scanner.Scans .idle ['('] [.op "("] .idle := rfl
  have hclosing : Lexes endsToken [')'] [.op ")"] := .of_scans rfl
  have hcall := hfunction.append rfl (Lexes.after hopening hlex)
  -- The text of the pattern is the first argument, whatever comes after it.
  have harguments (rest : List Token) :
      Python.arguments? (.op "(" :: (ts ++ rest)) = Python.argumentsFrom 0 ts rest :=
    Python.argumentsFrom_append hts.depth [] rest
  right
  cases b with
  | false =>
      refine ⟨_, (hcall.append rfl hclosing).tokens? (by simp [patternCallText, htext]), ?_⟩
      exact Python.callsWith_call (harguments _) (by simpa using hlacks)
  | true =>
      have hcomma : scanner.Scans .idle [',', ' '] [.op ","] .idle := rfl
      have hvariable : Lexes endsWord brightnessVariable.toList [.name brightnessVariable] :=
        Python.lexes_name (by decide)
      have hrest := Lexes.after hcomma (hvariable.append rfl hclosing)
      refine ⟨_, (hcall.append rfl hrest).tokens? (by simp [patternCallText, htext]), ?_⟩
      refine Python.callsWith_call (harguments _) ?_
      simpa [patternFunction, brightnessVariable] using hlacks

end Script

theorem Node.needs_issued (n : Node) (b : Bool) :
    ∀ q ∈ n.needs b, q.Issued b fun _ => True := by
  cases n with
  | expr e => exact Expr.needs_issued fun _ _ _ _ => trivial
  | stack first rest =>
      cases first with
      | action a => exact Action.needs_issued fun _ _ _ _ => trivial
      | _ => exact List.forall_mem_nil _

theorem Node.patternFunction_notMem_needs {n : Node} (h : n.usesPattern = false) (b : Bool) :
    patternFunction ∉ (n.needs b).map Demand.name := by
  intro hmem
  obtain ⟨q, hq, hname⟩ := List.mem_map.mp hmem
  obtain rfl : q = .pattern := Demand.eq_of_name_eq (n.needs_issued b q hq) (by simp) hname
  exact Node.pattern_notMem_needs h b hq

theorem Expr.patternFunction_notMem_demands (e : Expr) :
    patternFunction ∉ e.demands.map Demand.name := by
  intro hmem
  obtain ⟨q, hq, hname⟩ := List.mem_map.mp hmem
  obtain ⟨x, -, hq⟩ := List.mem_flatMap.mp hq
  have hnode : (Node.expr x).usesPattern = false := rfl
  exact Node.patternFunction_notMem_needs hnode false (List.mem_map.mpr ⟨q, hq, hname⟩)

namespace Action

variable {a : Action} {b : Bool} {n : Nat} {ls : List Line}

theorem passes_of_not_usesPattern (rest : Stack) (ha : ∀ e ∈ a.operands, e.PlainPorts)
    (huses : (Node.stack (.action a) rest).usesPattern = false) (h : a.lines b n = .ok ls) :
    ∀ l ∈ ls, Passes b l.text := by
  have hdraws : DrawsAll ((a.needs b).map Demand.name ++
      a.operands.flatMap fun e => e.demands.map Demand.name) ls := by
    apply Action.draws ha _ (List.subset_append_left _ _) _ h
    · rintro e rfl
      cases huses
    · intro e he word hword
      exact List.mem_append_right _ (List.mem_flatMap.mpr ⟨e, he, hword⟩)
  intro l hl
  refine (hdraws l hl).passes fun hmem => ?_
  rcases List.mem_append.mp hmem with hmem | hmem
  · exact Node.patternFunction_notMem_needs huses b hmem
  · obtain ⟨e, -, hmem⟩ := List.mem_flatMap.mp hmem
    exact e.patternFunction_notMem_demands hmem

/-- The calls in the lines of a statement without a body pass the brightness on. -/
theorem passes (ha : ∀ e ∈ a.operands, e.PlainPorts) (h : a.lines b n = .ok ls) :
    ∀ l ∈ ls, Passes b l.text := by
  have hcall {e : Expr} {t : String} (he : e.PlainPorts) (ht : e.script = .ok t) :
      Passes b (patternCallText b t) :=
    passes_patternCall (Expr.nested_script he ht (List.Subset.refl _))
      e.patternFunction_notMem_demands
  cases a with
  | light a =>
      cases a with
      | display pattern =>
          simp only [lines, LightAction.lines, bind_eq_ok_iff, pure_eq_ok_iff] at h
          obtain ⟨p, hp, rfl⟩ := h
          exact List.forall_mem_singleton.mpr (hcall (ha _ List.mem_cons_self) hp)
      | displayFor pattern duration =>
          simp only [lines, LightAction.lines, bind_eq_ok_iff, pure_eq_ok_iff] at h
          obtain ⟨p, hp, d, hd, rfl⟩ := h
          have hpattern := hcall (ha pattern List.mem_cons_self) hp
          have hduration : duration.PlainPorts := ha _ (List.mem_cons_of_mem _ List.mem_cons_self)
          have hwait : Piece endsSign endsToken (duration.demands.map Demand.name)
              ("wait_for_seconds(int(" ++ d ++ "))") :=
            Piece.enclose (.plain (by decide))
              (Expr.piece_script hduration hd (List.Subset.refl _)) (by decide)
          have hoff : Piece endsSign endsToken ["hub"] "hub.light_matrix.off()" :=
            .owned List.mem_cons_self (by decide)
          simp only [linesAt_cons, linesAt_nil, List.forall_mem_cons]
          exact ⟨hpattern, hwait.draws.passes duration.patternFunction_notMem_demands,
            hoff.draws.passes (by decide), List.forall_mem_nil _⟩
      | setBrightness value =>
          simp only [lines, LightAction.lines, bind_eq_ok_iff, pure_eq_ok_iff] at h
          obtain ⟨v, hv, rfl⟩ := h
          have hline : Piece endsSign endsToken
              (brightnessVariable :: value.demands.map Demand.name)
              (brightnessVariable ++ " = int(" ++ v ++ ")") :=
            Piece.enclose (.ownedJoined List.mem_cons_self (by decide))
              (Expr.piece_script (ha _ List.mem_cons_self) hv (List.subset_cons_self _ _))
              (by decide)
          refine List.forall_mem_singleton.mpr (hline.draws.passes ?_)
          rw [List.mem_cons, not_or]
          exact ⟨by decide, value.patternFunction_notMem_demands⟩
      | _ => exact passes_of_not_usesPattern [] ha rfl h
  | _ => exact passes_of_not_usesPattern [] ha rfl h

end Action

namespace Forest

variable {forest : Forest}

theorem passes_of_origin {b : Bool} {l : Line} (hforest : forest.PlainPorts)
    (h : l.Origin b (Forest.visited forest)) : Passes b l.text := by
  cases h with
  | note h => exact .inl (isComment_of_startsNote h)
  | bare h =>
      have hends : ∀ t ∈ bareLines, ends anything [] t.toList = true := by decide
      have hpiece : Piece anything nothing [] l.text := .last (hends _ h) (List.nil_subset _)
      exact hpiece.draws.passes List.not_mem_nil
  | action hnode hlines hl => exact Action.passes (fun o ho => hforest.operand hnode ho) hlines l hl
  | @header _ _ e _ _ _ _ hnode _ he ht hmarks =>
      have hends : ∀ marks ∈ headerMarks,
          settles anything [] marks.1.toList = true ∧ ends endsToken [] marks.2.toList = true := by
        decide
      have hoperand := Expr.piece_script (hforest.operand hnode he) ht (List.Subset.refl _)
      have hline := ((Piece.joined (hends _ hmarks).1).append hoperand).append
        (.last (hends _ hmarks).2 (List.nil_subset _))
      exact hline.draws.passes e.patternFunction_notMem_demands

theorem name_notMem_demands {b : Bool} {own : Demand} (hown : own ∈ [.brightness, .pattern])
    (h : own ∉ Forest.demands b forest) :
    own.name ∉ (Forest.demands b forest).map Demand.name := by
  intro hmem
  obtain ⟨q, hq, hname⟩ := List.mem_map.mp hmem
  have hissued : q.Issued b fun _ => True :=
    Forest.demands_issued b (fun _ _ _ _ => trivial) q hq
  obtain rfl := Demand.eq_of_name_eq hissued hown hname
  exact h hq

/-- Whether a program sets the brightness anywhere, be it in a stack that never runs. -/
def setsBrightness (forest : Forest) : Bool :=
  forest.any fun s => (Stack.visited s).any Node.setsBrightness

theorem any_setsBrightness (forest : Forest) :
    forest.any Stack.setsBrightness = forest.setsBrightness := by
  have heq : Stack.setsBrightness = fun s => (Stack.visited s).any Node.setsBrightness :=
    funext Stack.setsBrightness_eq
  rw [heq]
  rfl

/-- Whether a statement that runs shows a pattern or sets the brightness. -/
def usesPatterns (forest : Forest) : Bool :=
  (Forest.visited forest).any Node.usesPattern

theorem functions_assemble (b : Bool) (forest : Forest) (ls : List Line) :
    (assemble (Forest.demands b forest) ls).functions =
      if forest.usesPatterns then Emit.patternFunctionLines else [] := by
  have hfunctions : (assemble (Forest.demands b forest) ls).functions =
      if .pattern ∈ Forest.demands b forest then Demand.pattern.functions else [] := by
    apply Demand.flatMap_firstOccurrences
    intro q hq
    exact Demand.pattern_cases (Forest.demands_issued (P := fun _ => True) b
      (fun _ _ _ _ => trivial) q hq)
  rw [hfunctions]
  simp only [Forest.pattern_mem_demands_iff]
  rfl

section

variable {b : Bool} {own : Demand} {ls : List Line}

theorem body_lacks (hforest : forest.PlainPorts) (hown : own ∈ [.brightness, .pattern])
    (hdemands : own ∉ Forest.demands (forest.any Stack.setsBrightness) forest)
    (h : Forest.lines (forest.any Stack.setsBrightness) false forest = .ok ls) :
    ∀ line ∈ ls.map Line.render, CommentOr (.name own.name ∉ ·) line := by
  have howned : ∀ own ∈ [Demand.brightness, Demand.pattern], own.name ∈ ownedNames := by decide
  refine List.forall_mem_map.mpr fun l hl => ?_
  have hdraws := draws_of_origin hforest (Forest.lines_origin h l hl)
  exact (hdraws.lacks (howned own hown) (name_notMem_demands hown hdemands)).render

theorem declarations_lack (hforest : forest.PlainPorts)
    (hdemands : .brightness ∉ Forest.demands b forest) :
    ∀ t ∈ (assemble (Forest.demands b forest) ls).declarations,
      CommentOr (.name brightnessVariable ∉ ·) t := by
  intro t ht
  obtain ⟨q, hq, ht⟩ := List.mem_flatMap.mp ht
  have hmem := Demand.mem_of_mem_firstOccurrences hq
  obtain ⟨ts, hts, hown⟩ :=
    Demand.exists_tokens_of_mem_declarations (Forest.demands_issued b hforest q hmem) ht
  have hname : brightnessVariable ≠ q.name := by
    intro heq
    apply name_notMem_demands (by simp) hdemands
    exact List.mem_map.mpr ⟨q, hmem, heq.symm⟩
  refine .inr ⟨ts, hts, name_notMem_of_ownIn brightnessVariable_mem_ownedNames ?_ hown⟩
  exact List.mem_singleton.not.mpr hname

end

end Forest

theorem Script.patternFunctionLines_lack :
    ∀ t ∈ Emit.patternFunctionLines, CommentOr (.name brightnessVariable ∉ ·) t := by
  intro t ht
  obtain ⟨ts, hts, hown⟩ :=
    (Piece.last (ends_patternFunctionLines t ht) (List.Subset.refl _)).tokens
  exact .inr ⟨ts, hts, name_notMem_of_ownIn brightnessVariable_mem_ownedNames (by decide) hown⟩

theorem Script.boundIn_patternFunctionLines :
    Emit.patternFunctionLines.flatMap Python.boundIn = [patternFunction] := by
  have hbound := Demand.Known.bound_eq Demand.Issued.pattern
  have hdeclarations : Demand.pattern.declarations = [] := rfl
  have himports : Demand.pattern.imports = "" := rfl
  rw [Demand.bound, hdeclarations, himports, Demand.physicalLines_empty, List.flatMap_nil,
    List.nil_append, List.append_nil] at hbound
  exact hbound

/-- If the brightness is set anywhere in a program, all calls of the function for patterns pass it
on, and it is declared exactly once as soon as there is such a call or the brightness is set. If it
is set nowhere, no line knows it. The function is defined exactly once if a statement that runs
shows a pattern or sets the brightness, and not otherwise. -/
theorem Script.generate_threads_brightness {forest : Forest} {program : Program}
    (h : generate forest = .ok program) :
    program.declarations.count brightnessLine =
        (forest.setsBrightness && forest.usesPatterns).toNat ∧
      program.functions.flatMap Python.boundIn =
        (if forest.usesPatterns then [patternFunction] else []) ∧
      (forest.PlainPorts →
        (∀ line ∈ program.body, Passes forest.setsBrightness line) ∧
        (forest.usesPatterns = false → ∀ line ∈ program.body,
          ∀ word ∈ [brightnessVariable, patternFunction], CommentOr (.name word ∉ ·) line) ∧
        (forest.setsBrightness = false →
          ∀ line ∈ program.declarations ++ program.functions ++ program.body,
            CommentOr (.name brightnessVariable ∉ ·) line)) := by
  rw [generate_eq, bind_eq_ok_iff] at h
  obtain ⟨ls, hls, hp⟩ := h
  obtain rfl := Except.ok.inj hp
  have hflag := forest.any_setsBrightness
  refine ⟨?_, ?_, fun hforest => ⟨?_, ?_, ?_⟩⟩
  · rw [count_brightnessLine, hflag]
    rfl
  · rw [Forest.functions_assemble]
    split
    · exact boundIn_patternFunctionLines
    · rfl
  · refine List.forall_mem_map.mpr fun l hl => ?_
    rw [← hflag]
    exact (Forest.passes_of_origin hforest (Forest.lines_origin hls l hl)).render
  · intro huses line hline
    have hnone : (Forest.visited forest).any Node.usesPattern = false := huses
    have hbrightness : .brightness ∉ Forest.demands (forest.any Stack.setsBrightness) forest := by
      simp [Forest.brightness_mem_demands_iff, hnone]
    have hpattern : .pattern ∉ Forest.demands (forest.any Stack.setsBrightness) forest := by
      simp [Forest.pattern_mem_demands_iff, hnone]
    have hlacksBrightness := Forest.body_lacks hforest (by simp) hbrightness hls line hline
    have hlacksPattern := Forest.body_lacks hforest (by simp) hpattern hls line hline
    exact List.forall_mem_cons.mpr ⟨hlacksBrightness, List.forall_mem_singleton.mpr hlacksPattern⟩
  · intro hunset
    have hbrightness : .brightness ∉ Forest.demands (forest.any Stack.setsBrightness) forest := by
      simp [Forest.brightness_mem_demands_iff, hflag, hunset]
    rw [List.forall_mem_append, List.forall_mem_append]
    refine ⟨⟨Forest.declarations_lack hforest hbrightness, ?_⟩, ?_⟩
    · rw [Forest.functions_assemble]
      split
      · exact patternFunctionLines_lack
      · exact List.forall_mem_nil _
    · exact Forest.body_lacks hforest (by simp) hbrightness hls

def Node.letters : Node → List Char
  | expr e => e.letters
  | stack _ _ => []

theorem Forest.plainPorts_of_all {forest : Forest}
    (h : (Forest.visited forest).all (·.letters.all isNameChar) = true) : forest.PlainPorts :=
  fun e he c hc => List.all_eq_true.mp (List.all_eq_true.mp h (.expr e) he) c hc

/-- A pattern is shown, and later one branch of a test sets the brightness. -/
def Forest.dimmedLater : Forest :=
  [[.hat none none, .action (.light (.display (.text "9"))),
    .ifElse (.device .reflectedLight (.ports ['B'])) [.action (.light .off)]
      [.action (.light (.setBrightness .zero))]]]

def Forest.stopsMotor : Forest :=
  [[.hat none none, .action (.motor (.stop (.ports ['A'])))]]

theorem Script.generate_threads_brightness_samples :
    (∃ program, generate Forest.dimmedLater = .ok program ∧ Forest.dimmedLater.PlainPorts ∧
      program.body.head? = some "_turn_on_pattern('9', _brightness)" ∧
      program.declarations.count brightnessLine = 1 ∧
      program.functions.flatMap Python.boundIn = [patternFunction] ∧
      ∀ line ∈ program.body, Passes true line) ∧
    ∃ program, generate Forest.stopsMotor = .ok program ∧ Forest.stopsMotor.PlainPorts ∧
      program.body = ["motor_a.stop()"] ∧
      program.declarations.count brightnessLine = 0 ∧
      program.functions.flatMap Python.boundIn = [] ∧
      (∀ line ∈ program.body, ∀ word ∈ [brightnessVariable, patternFunction],
        CommentOr (.name word ∉ ·) line) ∧
      ∀ line ∈ program.declarations ++ program.functions ++ program.body,
        CommentOr (.name brightnessVariable ∉ ·) line := by
  have hsets : Forest.dimmedLater.setsBrightness = true := by with_unfolding_all rfl
  have huses : Forest.dimmedLater.usesPatterns = true := by with_unfolding_all rfl
  have hports : Forest.dimmedLater.PlainPorts :=
    Forest.plainPorts_of_all (by with_unfolding_all rfl)
  have hsets' : Forest.stopsMotor.setsBrightness = false := by with_unfolding_all rfl
  have huses' : Forest.stopsMotor.usesPatterns = false := by with_unfolding_all rfl
  have hports' : Forest.stopsMotor.PlainPorts :=
    Forest.plainPorts_of_all (by with_unfolding_all rfl)
  constructor
  · refine ⟨_, rfl, hports, rfl, ?_⟩
    obtain ⟨hcount, hfunctions, hlines⟩ := @generate_threads_brightness .dimmedLater _ rfl
    rw [hsets, huses] at hcount
    rw [huses] at hfunctions
    obtain ⟨hpasses, -, -⟩ := hlines hports
    rw [hsets] at hpasses
    exact ⟨hcount, hfunctions, hpasses⟩
  · refine ⟨_, rfl, hports', rfl, ?_⟩
    obtain ⟨hcount, hfunctions, hlines⟩ := @generate_threads_brightness .stopsMotor _ rfl
    rw [huses', Bool.and_false] at hcount
    rw [huses'] at hfunctions
    obtain ⟨-, hnone, hunset⟩ := hlines hports'
    exact ⟨hcount, hfunctions, hnone huses', hunset hsets'⟩

/-- Ports that are no names can end the texts that they stand in, and with them the texts around
them: here a text of the program is read as a name. -/
def Forest.quotedPorts : Forest :=
  [[.hat none none, .action (.data (.set ⟨"x", "x"⟩ (.binary .join (.ports ['\\'])
    (.binary .join (.text " _brightness ") (.ports ['\''])))))]]

theorem Script.generate_quotedPorts :
    Forest.quotedPorts.setsBrightness = false ∧
      ∃ program, generate Forest.quotedPorts = .ok program ∧
        ∃ line ∈ program.body, isComment line = false ∧
          ∃ ts, scanner.tokens? line = some ts ∧ .name brightnessVariable ∈ ts := by
  refine ⟨by with_unfolding_all rfl, _, rfl, _, List.mem_singleton_self _, rfl, ?_⟩
  exact ⟨_, rfl, by decide⟩

end WordBlocks
