import WordBlocks.Proofs.LineNames
import WordBlocks.Proofs.LooseStacks
import WordBlocks.Proofs.PhysicalLines
import WordBlocks.Proofs.Suites

/-!
What binds the names that a script makes for itself. Every demand of a program binds one name, which
no other demand binds, and the names of the script's own in its lines are demanded. So each of them
is bound in the script, unless it stands in the opcode of an unknown block that breaks the line of
its placeholder.
-/

namespace WordBlocks

open Script
open Python (Token Lexes scanner endsSign endsToken endsWord)

namespace Python

def Token.word? : Token → Option String
  | .name word => some word
  | _ => none

/-- The names that a statement binds by an assignment, as a function or by an import. -/
def binds : List Token → List String
  | .name word :: .op "=" :: _ => [word]
  | .keyword "def" :: .name word :: _ => [word]
  | .keyword "from" :: ts => (ts.dropWhile (· ≠ .keyword "import")).filterMap Token.word?
  | .keyword "import" :: ts => ts.filterMap Token.word?
  | _ => []

def boundIn (line : String) : List String :=
  (scanner.tokens? line).elim [] binds

/-- The name that a statement on a variable or list is about. -/
def subject? : List Token → Option String
  | .keyword "del" :: .name word :: _ => some word
  | .name word :: _ => some word
  | _ => none

end Python

namespace Script

/-- The names that the imports, declarations and functions of a script bind. -/
def Program.bound (p : Program) : List String :=
  (physicalLines p.preamble).flatMap Python.boundIn ++ p.declarations.flatMap Python.boundIn ++
    p.functions.flatMap Python.boundIn

/-- Every name of the script's own that is an identifier in a text is bound in the script. -/
def Program.Closed (p : Program) (text : String) : Prop :=
  ∃ ts, scanner.tokens? text = some ts ∧ ownIn ts ⊆ p.bound

namespace Demand

theorem name_device (d : Device) (port : Char) : (device d port).name = d.objectName port := rfl

theorem name_list (name : String) : (list name).name = name := rfl

/-- The names that a demand binds. -/
def bound (q : Demand) : List String :=
  q.declarations.flatMap Python.boundIn ++ q.functions.flatMap Python.boundIn ++
    (physicalLines q.imports).flatMap Python.boundIn

theorem physicalLines_empty : physicalLines "" = [] := rfl

theorem boundIn_list (name : String) :
    Python.boundIn (identifier name ++ " = []") = [identifier name] := by
  have hlex := Python.lexes_name (isName_identifier name)
  have hrest : Lexes endsToken [' ', '=', ' ', '[', ']'] [.op "=", .op "[", .op "]"] :=
    .of_scans rfl
  rw [Python.boundIn, (hlex.append rfl hrest).tokens? (by simp)]
  rfl

theorem boundIn_device (d : Device) {port : Char} (h : port ∈ portLetters) :
    Python.boundIn
      (d.objectName port ++ " = " ++ d.className ++ "('" ++ String.singleton port ++ "')") =
        [d.objectName port] := by
  have hclass : Python.isName d.className = true := by cases d <;> rfl
  have hmark : scanner.Scans .idle [' ', '=', ' '] [.op "="] .idle := rfl
  have hport : Lexes endsToken ['(', '\'', port, '\'', ')']
      [.op "(", .text (String.singleton port), .op ")"] := by
    apply Lexes.of_scans
    simp only [portLetters, List.mem_cons, List.not_mem_nil, or_false] at h
    rcases h with rfl | rfl | rfl | rfl | rfl | rfl
    all_goals rfl
  have hvalue := Lexes.after hmark ((Python.lexes_name hclass).append rfl hport)
  have hname := isName_objectName d (isNameChar_of_mem_portLetters port h)
  have hlex := (Python.lexes_name hname).append rfl hvalue
  rw [Python.boundIn, hlex.tokens? (by simp)]
  rfl

theorem Known.bound_eq {q : Demand} (h : q.Known) : q.bound = [q.name] := by
  cases h with
  | hub | app | timer | motorPair | brightness | pattern | random => decide +kernel
  | device d hport =>
      simp [bound, Demand.device, Demand.object, Demand.name, boundIn_device d hport,
        physicalLines_empty, -String.append_singleton]
  | list name => simp [bound, Demand.list, Demand.name, boundIn_list, physicalLines_empty]

def symbolOf (name : String) : Symbol :=
  if name = patternFunction then .patternFunction
  else if name = "randint" then .randomImport
  else if name ∈ ownedNames then .object name
  else .list name

theorem deviceNames_eq :
    deviceNames = Device.all.flatMap fun d => portLetters.map d.objectName := by
  decide

theorem objectName_mem_deviceNames (d : Device) {port : Char} (h : port ∈ portLetters) :
    d.objectName port ∈ deviceNames := by
  rw [deviceNames_eq]
  refine List.mem_flatMap.mpr ⟨d, ?_, List.mem_map_of_mem h⟩
  cases d <;> decide

theorem symbolOf_device (d : Device) {port : Char} (h : port ∈ portLetters) :
    symbolOf (d.objectName port) = .object (d.objectName port) := by
  have hmem := objectName_mem_deviceNames d h
  have hne {word : String} (hword : word ∉ deviceNames) : d.objectName port ≠ word :=
    fun heq => hword (heq ▸ hmem)
  have hown : d.objectName port ∈ ownedNames := List.mem_append_right _ hmem
  rw [symbolOf, if_neg (hne (by decide)), if_neg (hne (by decide)), if_pos hown]

theorem symbolOf_identifier (name : String) :
    symbolOf (identifier name) = .list (identifier name) := by
  have hown := identifier_notMem_ownedNames name
  have hne {word : String} (hword : word ∈ ownedNames) : identifier name ≠ word :=
    fun heq => hown (heq ▸ hword)
  rw [symbolOf, if_neg (hne (by decide)), if_neg (hne (by decide)), if_neg hown]

theorem Known.symbol_eq {q : Demand} (h : q.Known) : q.symbol = symbolOf q.name := by
  cases h with
  | hub | app | timer | motorPair | brightness | pattern | random => decide
  | device d hport =>
      rw [name_device, symbolOf_device d hport]
      rfl
  | list name =>
      rw [name_list, symbolOf_identifier name]
      rfl

theorem nodup_bound {qs : List Demand} (h : ∀ q ∈ qs, q.Known) :
    (((firstOccurrences qs).flatMap (·.declarations)).flatMap Python.boundIn).Nodup := by
  have hsublist (rs : List Demand) (hrs : ∀ r ∈ rs, r.Known) :
      ((rs.flatMap (·.declarations)).flatMap Python.boundIn).Sublist (rs.map name) := by
    induction rs with
    | nil => exact .slnil
    | cons r rs ih =>
        obtain ⟨hr, hrs⟩ := List.forall_mem_cons.mp hrs
        have hfirst : (r.declarations.flatMap Python.boundIn).Sublist [r.name] := by
          rw [← hr.bound_eq, bound, List.append_assoc]
          exact List.sublist_append_left _ _
        rw [List.flatMap_cons, List.flatMap_append, List.map_cons]
        exact hfirst.append (ih hrs)
  have hknown : ∀ q ∈ firstOccurrences qs, q.Known :=
    fun q hq => h q (mem_of_mem_firstOccurrences hq)
  -- Demands of one name have one symbol, and no symbol occurs twice.
  refine .sublist (hsublist _ hknown) (List.pairwise_map.mpr ?_)
  refine (pairwise_firstOccurrences qs).imp_of_mem fun {q r} hq hr hne heq => hne ?_
  rw [(hknown q hq).symbol_eq, (hknown r hr).symbol_eq, heq]

theorem Known.name_eq {q : Demand} (h : q.Known) {text word : String}
    (htext : text ∈ q.declarations) (hword : word ∈ Python.boundIn text) : word = q.name := by
  have hmem : word ∈ q.bound :=
    List.mem_append_left _ (List.mem_append_left _ (List.mem_flatMap.mpr ⟨text, htext, hword⟩))
  rw [h.bound_eq] at hmem
  exact List.mem_singleton.mp hmem

theorem objectName_inj {d d' : Device} {port port' : Char} (h : port ∈ portLetters)
    (h' : port' ∈ portLetters) (heq : d.objectName port = d'.objectName port') :
    d = d' ∧ port = port' := by
  have hlower : (portLetters.map Char.toLower).Nodup := by decide
  have hchars := congrArg String.toList heq
  have hsame : d = d' ∧ port.toLower = port'.toLower := by
    -- No stem is the start of another one.
    cases d <;> cases d' <;> simp_all [Device.objectName, Device.stem]
  exact ⟨hsame.1, List.inj_on_of_nodup_map hlower h h' hsame.2⟩

theorem Known.eq_device {q : Demand} (h : q.Known) {d : Device} {port : Char}
    (hport : port ∈ portLetters) (hname : q.name = d.objectName port) : q = .device d port := by
  have hmem := objectName_mem_deviceNames d hport
  rw [← hname] at hmem
  cases h with
  | hub | app | timer | motorPair | brightness | pattern | random => exact absurd hmem (by decide)
  | device d' hport' =>
      rw [name_device] at hname
      obtain ⟨rfl, rfl⟩ := objectName_inj hport' hport hname
      rfl
  | list name =>
      rw [name_list] at hmem
      exact absurd (List.mem_append_right _ hmem) (identifier_notMem_ownedNames name)

theorem Known.notMem_ownedNames {q : Demand} (h : q.Known) {name : String}
    (htext : name ++ " = []" ∈ q.declarations) : name ∉ ownedNames := by
  -- Other declarations do not end with a bracket.
  have hother {texts : List String} (hlast : ∀ t ∈ texts, t.toList.getLast? ≠ some ']')
      (hmem : name ++ " = []" ∈ texts) : name ∉ ownedNames :=
    absurd (by simp) (hlast _ hmem)
  cases h with
  | hub | app | timer | motorPair | brightness => exact hother (by decide) htext
  | pattern | random => cases htext
  | device d hport =>
      refine hother (List.forall_mem_singleton.mpr ?_) htext
      simp [List.getLast?_cons]
  | list name' =>
      have heq := congrArg String.toList (List.mem_singleton.mp htext)
      rw [String.toList_append, String.toList_append] at heq
      rw [String.toList_inj.mp (List.append_cancel_right heq)]
      exact identifier_notMem_ownedNames name'

end Demand

theorem scans_tabs (n : Nat) : scanner.Scans .idle (List.replicate n '\t') [] .idle := by
  induction n with
  | zero => exact .nil _
  | succ n ih =>
      have htab : scanner.step .idle '\t' = some ([], .idle) := rfl
      exact .cons htab ih

theorem tokens?_render (l : Line) {ts : List Token} (h : scanner.tokens? l.text = some ts) :
    scanner.tokens? l.render = some ts := by
  obtain ⟨⟨here, mode⟩, hrun, h⟩ := Option.bind_eq_some_iff.mp h
  obtain ⟨last, hfinish, heq⟩ := Option.bind_eq_some_iff.mp h
  obtain rfl := Option.some.inj heq
  have hscans := (scans_tabs l.depth).append hrun
  rw [← Line.toList_render] at hscans
  exact Scanner.tokens?_of_scans hscans hfinish

theorem scans_comment {cs : List Char} (h : ∀ c ∈ cs, isLineEnd c = false) :
    scanner.Scans .comment cs [] .comment := by
  induction cs with
  | nil => exact .nil _
  | cons c cs ih =>
      obtain ⟨hc, hcs⟩ := List.forall_mem_cons.mp h
      have hstep : scanner.step .comment c = some ([], .comment) := by
        have hends : ¬(c = '\n' ∨ c = '\r') := by simpa [isLineEnd] using hc
        exact if_neg hends
      exact .cons hstep (ih hcs)

theorem tokens?_note {text : String} (h : startsNote text = true) (hline : oneLine text = true) :
    scanner.tokens? text = some [] := by
  rw [oneLine_iff] at hline
  cases htext : text.toList with
  | nil => simp [startsNote, htext] at h
  | cons c cs =>
      obtain rfl : c = '#' := by simpa [startsNote, htext] using h
      have hstart : scanner.step .idle '#' = some ([], .comment) := rfl
      rw [htext] at hline
      have hscans := Scanner.Scans.cons hstart (scans_comment (List.forall_mem_cons.mp hline).2)
      rw [← htext] at hscans
      exact Scanner.tokens?_of_scans hscans rfl

end Script

theorem Script.Demand.Known.importsNothing {q : Demand} (h : q.Known) :
    q = .random ∨ q.ImportsNothing := by
  cases h with
  | random => exact .inl rfl
  | hub | app | timer | motorPair | brightness | device =>
      exact .inr (Demand.object_importsNothing _ _)
  | pattern | list => exact .inr ⟨by simp [Demand.pattern, Demand.list], rfl⟩

theorem Node.hub_mem_needs {b : Bool} {n : Node} (h : Demand.pattern ∈ n.needs b) :
    Demand.hub ∈ n.needs b := by
  cases huses : n.usesPattern with
  | true =>
      rw [Node.needs_of_usesPattern huses]
      exact List.mem_cons_self
  | false => exact absurd h (Node.pattern_notMem_needs huses b)

namespace Script

variable {qs : List Demand} {ls : List Line}

theorem name_mem_bound (hknown : ∀ q ∈ qs, q.Known) {q : Demand} (hq : q ∈ qs) :
    q.name ∈ (assemble qs ls).bound := by
  obtain ⟨r, hr, hsymbol⟩ := Demand.exists_mem_firstOccurrences hq
  have hmem := Demand.mem_of_mem_firstOccurrences hr
  have hname : q.name ∈ r.bound := by
    rw [(hknown r hmem).bound_eq, Demand.name, Demand.name, hsymbol]
    exact List.mem_singleton_self _
  simp only [Program.bound, List.mem_append]
  -- The function for random numbers is imported, and all the others are declared or defined.
  rcases (hknown r hmem).importsNothing with rfl | himports
  · have hpreamble : (assemble qs ls).preamble = importLines ++ randomImportLine := by
      rw [assemble, Demand.join_imports_firstOccurrences fun q hq => (hknown q hq).importsNothing,
        if_pos hmem]
    rw [hpreamble, physicalLines_append importLines_ends, List.flatMap_append]
    exact .inl (.inl (List.mem_append_right _ hname))
  · rw [Demand.bound, himports.imports_eq, Demand.physicalLines_empty, List.flatMap_nil,
      List.append_nil, List.mem_append, List.mem_flatMap, List.mem_flatMap] at hname
    rcases hname with ⟨t, ht, hword⟩ | ⟨t, ht, hword⟩
    · exact .inl (.inr (List.mem_flatMap.mpr ⟨t, List.mem_flatMap.mpr ⟨r, hr, ht⟩, hword⟩))
    · exact .inr (List.mem_flatMap.mpr ⟨t, List.mem_flatMap.mpr ⟨r, hr, ht⟩, hword⟩)

theorem exists_known_of_mem_declarations (hknown : ∀ q ∈ qs, q.Known) {t : String}
    (h : t ∈ (assemble qs ls).declarations) : ∃ q : Demand, q.Known ∧ t ∈ q.declarations := by
  obtain ⟨q, hq, ht⟩ := List.mem_flatMap.mp h
  exact ⟨q, hknown q (Demand.mem_of_mem_firstOccurrences hq), ht⟩

theorem ends_patternFunctionLines :
    ∀ t ∈ Emit.patternFunctionLines, ends anything [patternFunction, "hub"] t.toList = true := by
  decide +kernel

theorem closed_functions (hknown : ∀ q ∈ qs, q.Known) (hhub : .pattern ∈ qs → .hub ∈ qs) :
    ∀ t ∈ (assemble qs ls).functions, (assemble qs ls).Closed t := by
  intro t ht
  obtain ⟨q, hq, ht⟩ := List.mem_flatMap.mp ht
  have hmem := Demand.mem_of_mem_firstOccurrences hq
  cases hknown q hmem with
  | pattern =>
      refine (Piece.last (ends_patternFunctionLines t ht) ?_).tokens
      exact List.cons_subset.mpr ⟨name_mem_bound hknown hmem,
        List.cons_subset.mpr ⟨name_mem_bound hknown (hhub hmem), List.nil_subset _⟩⟩
  | _ => cases ht

end Script

section

variable {p : Project} {bestEffort : Bool} {forest : Forest}

theorem Forest.hub_mem_demands {b : Bool} (h : .pattern ∈ Forest.demands b forest) :
    .hub ∈ Forest.demands b forest := by
  obtain ⟨n, hn, h⟩ := List.mem_flatMap.mp h
  exact List.mem_flatMap.mpr ⟨n, hn, Node.hub_mem_needs h⟩

/-- The lines of the body have no name of the script's own that is not bound, unless a comment is
broken by a line end. -/
theorem Forest.closed_lines {ls : List Line}
    (hforest : ∀ s ∈ forest, Stack.LoweredFrom p bestEffort s)
    (h : Forest.lines (forest.any Stack.setsBrightness) false forest = .ok ls) :
    ∀ t ∈ ls.map Line.render,
      (assemble (Forest.demands (forest.any Stack.setsBrightness) forest) ls).Closed t ∨
        (isComment t = true ∧ oneLine t = false) := by
  have hknown := Forest.demands_known (forest.any Stack.setsBrightness) hforest
  have hports : forest.PlainPorts := Forest.plainPorts_of_loweredFrom hforest
  refine List.forall_mem_map.mpr fun l hl => ?_
  rcases Forest.draws_of_origin hports (Forest.lines_origin h l hl) with hnote | ⟨ts, hts, hown⟩
  · -- A note has no tokens at all while it keeps to its line.
    cases hline : oneLine l.text with
    | true => exact .inl ⟨[], tokens?_render l (tokens?_note hnote hline), List.nil_subset _⟩
    | false =>
        refine .inr ⟨?_, (oneLine_render l).trans hline⟩
        exact (Line.isComment_render l.depth (startsText_of_startsNote hnote)).trans hnote
  · refine .inl ⟨ts, tokens?_render l hts, fun word hword => ?_⟩
    obtain ⟨q, hq, rfl⟩ := List.mem_map.mp (hown hword)
    exact name_mem_bound hknown hq

theorem Forest.opcodeOneLine_of_strict (hforest : ∀ s ∈ forest, Stack.LoweredFrom p false s) :
    ∀ n ∈ Forest.visited forest, n.OpcodeOneLine := by
  rintro n hn opcode rest rfl
  exact absurd (Forest.loweredFrom_visited hforest _ hn).1 Bool.false_ne_true

/-- A line that is a note, or about a name that is not one of the script's own. -/
def Script.LeavesOwnNames (text : String) : Prop :=
  ∃ ts, scanner.tokens? text = some ts ∧
    (ts = [] ∨ ∃ word, Python.subject? ts = some word ∧ word ∉ ownedNames)

theorem Script.LeavesOwnNames.render {l : Line} (h : LeavesOwnNames l.text) :
    LeavesOwnNames l.render := by
  obtain ⟨ts, hts, hsubject⟩ := h
  exact ⟨ts, tokens?_render l hts, hsubject⟩

theorem Script.leavesOwnNames_note {text : String} (h : startsNote text = true)
    (hline : oneLine text = true) : LeavesOwnNames text :=
  ⟨[], tokens?_note h hline, .inl rfl⟩

theorem DataAction.leavesOwnNames {a : DataAction} {n : Nat} {ls : List Line}
    (ha : ∀ e ∈ a.operands, e.PlainPorts) (h : a.lines n = .ok ls) :
    ∀ l ∈ ls, LeavesOwnNames l.text := by
  have hnames : Expr.AllDemand (a.operands.flatMap fun e => e.demands.map Demand.name) a.operands :=
    fun e he _ hword => List.mem_flatMap.mpr ⟨e, he, hword⟩
  obtain ⟨notes, text, rest, rfl, hnotes, ⟨c, cs, us, hcs, hc, hlex, -⟩, htext⟩ :=
    exists_rest ha hnames h
  -- The identifier is the first token, or the second one after the keyword that deletes.
  have hown := identifier_notMem_ownedNames a.target.name
  have hline := (Python.lexes_name (isName_identifier a.target.name)).append hc hlex
  have hdel : scanner.Scans .idle ['d', 'e', 'l', ' '] [.keyword "del"] .idle := rfl
  refine List.forall_mem_map.mpr (List.forall_mem_append.mpr ⟨?_, List.forall_mem_singleton.mpr ?_⟩)
  · intro t ht
    rw [hnotes t ht]
    have hmem : oneBasedNote ∈ fixedNotes := by simp [fixedNotes]
    exact leavesOwnNames_note (fixedNotes_shape _ hmem).1 (oneLine_fixedNotes _ hmem)
  · rcases htext with rfl | rfl
    · exact ⟨_, hline.tokens? (by simp [hcs]), .inr ⟨_, rfl, hown⟩⟩
    · exact ⟨_, (Lexes.after hdel hline).tokens? (by simp [hcs]), .inr ⟨_, rfl, hown⟩⟩

theorem DataAction.run_leavesOwnNames {a : DataAction} {draft draft' : Draft}
    (ha : ∀ e ∈ a.operands, e.WellFormed) (h : (Emit.dataAction a).run draft = .ok ((), draft')) :
    ∃ ts, draft'.body = draft.body ++ ts ∧ ∀ t ∈ ts, LeavesOwnNames t := by
  rw [Emit.dataAction_run, bind_eq_ok_iff] at h
  obtain ⟨ls, hls, heq⟩ := h
  obtain ⟨-, rfl⟩ := Prod.mk.inj (Except.ok.inj heq)
  rw [Draft.add_eq]
  refine ⟨_, rfl, List.forall_mem_map.mpr fun l hl => .render ?_⟩
  rcases List.mem_append.mp hl with hl | hl
  · obtain ⟨t, ht, rfl⟩ := List.mem_map.mp hl
    obtain ⟨e, -, ht⟩ := List.mem_flatMap.mp ht
    rw [Expr.eq_keyNote_of_mem_notes ht]
    refine leavesOwnNames_note (placeholderText_shape _ _).1 ?_
    rw [keyNote, oneLine_placeholderText]
    decide
  · refine leavesOwnNames (fun e he => ?_) hls l hl
    exact (Expr.portsIn_portLetters (.inl (ha e he))).imp isNameChar_of_mem_portLetters

theorem exists_device_of_mem {device : String × String} (h : device ∈ [("motor", "Motor"),
    ("color_sensor", "ColorSensor"), ("distance_sensor", "DistanceSensor")]) :
    ∃ d : Device, device = (d.word, d.constructor) := by
  simp only [List.mem_cons, List.not_mem_nil, or_false] at h
  rcases h with rfl | rfl | rfl
  · exact ⟨.motor, rfl⟩
  · exact ⟨.colorSensor, rfl⟩
  · exact ⟨.distanceSensor, rfl⟩

/-- Every name that a script makes for itself is bound in it, except in a comment that an opcode
breaks. No two declarations bind one name, a device is declared with its class and port, and neither
lists nor statements on variables take a name of the script's own. -/
theorem generate_names_bound {project : Json} {program : Program}
    (hlower : lower project bestEffort = .ok forest) (h : generate forest = .ok program) :
    (∀ t ∈ program.functions, program.Closed t) ∧
    (∀ t ∈ program.body, program.Closed t ∨ (isComment t = true ∧ oneLine t = false)) ∧
    ((bestEffort = false ∨ ∀ n ∈ Forest.visited forest, n.OpcodeOneLine) →
      ∀ t ∈ program.body, program.Closed t) ∧
    (program.declarations.flatMap Python.boundIn).Nodup ∧
    (∀ t ∈ program.declarations, ∀ device ∈ [("motor", "Motor"), ("color_sensor", "ColorSensor"),
        ("distance_sensor", "DistanceSensor")], ∀ port ∈ portLetters,
      device.1 ++ "_" ++ String.singleton port.toLower ∈ Python.boundIn t →
        t = device.1 ++ "_" ++ String.singleton port.toLower ++ " = " ++ device.2 ++ "('" ++
          String.singleton port ++ "')") ∧
    (∀ name, name ++ " = []" ∈ program.declarations → name ∉ ownedNames) ∧
    ∀ a rest, .stack (.action (.data a)) rest ∈ Forest.visited forest →
      ∀ draft draft', (Emit.dataAction a).run draft = .ok ((), draft') →
        ∃ ts, draft'.body = draft.body ++ ts ∧ ∀ t ∈ ts, LeavesOwnNames t := by
  obtain ⟨p, -, hforest⟩ := loweredFrom_of_lower hlower
  have honeLine := oneLine_generate_iff hforest h
  rw [generate_eq, bind_eq_ok_iff] at h
  obtain ⟨ls, hls, hprogram⟩ := h
  obtain rfl := Except.ok.inj hprogram
  have hknown := Forest.demands_known (forest.any Stack.setsBrightness) hforest
  have hclosed := Forest.closed_lines hforest hls
  refine ⟨closed_functions hknown Forest.hub_mem_demands, hclosed, ?_, Demand.nodup_bound hknown,
    ?_, ?_, ?_⟩
  · intro hopcodes t ht
    have hall : ∀ n ∈ Forest.visited forest, n.OpcodeOneLine := by
      rcases hopcodes with rfl | hall
      · exact Forest.opcodeOneLine_of_strict hforest
      · exact hall
    rcases hclosed t ht with hclosed | ⟨-, hbroken⟩
    · exact hclosed
    · have hline := honeLine.mpr hall t (List.mem_append_right _ ht)
      rw [hbroken] at hline
      cases hline
  · intro t ht device hdevice port hport hbound
    obtain ⟨d, rfl⟩ := exists_device_of_mem hdevice
    rw [← Device.objectName_eq] at hbound ⊢
    obtain ⟨q, hq, ht⟩ := exists_known_of_mem_declarations hknown ht
    rw [hq.eq_device hport (hq.name_eq ht hbound).symm] at ht
    rw [← Device.className_eq]
    exact List.mem_singleton.mp ht
  · intro name hname
    obtain ⟨q, hq, ht⟩ := exists_known_of_mem_declarations hknown hname
    exact hq.notMem_ownedNames ht
  · intro a rest hnode draft draft' hrun
    exact DataAction.run_leavesOwnNames (Forest.loweredFrom_visited hforest _ hnode) hrun

end

/-- A project that appends to a list named `hub` and turns the light matrix off. -/
def Json.hubList : Json :=
  .program [] [("l", .array [.string "hub", .array []])]
    [("below", .object [("opcode", .string "data_addtolist"), ("next", .string "off"),
        ("fields", .object [("LIST", .array [.string "hub", .string "l"])]),
        ("inputs", .object [("ITEM", .array [.number (.integer 1),
          .array [.number (.integer 11), .string "hub"]])])]),
      ("off", .object [("opcode", .string "flipperlight_lightDisplayOff")])]

theorem generate_names_bound_hubList :
    ∃ forest program, lower .hubList false = .ok forest ∧ generate forest = .ok program ∧
      program.declarations = ["hub_ = []", "hub = MSHub()"] ∧
      program.body = ["hub_.append('hub')", "hub.light_matrix.off()"] ∧
      (∀ t ∈ program.body, program.Closed t) ∧
      (program.declarations.flatMap Python.boundIn).Nodup := by
  have hlower : lower .hubList false = .ok [[.hat none none,
      .action (.data (.append ⟨"hub", "l"⟩ (.text "hub"))), .action (.light .off)]] := by
    with_unfolding_all rfl
  have hgenerate : generate [[.hat none none,
      .action (.data (.append ⟨"hub", "l"⟩ (.text "hub"))), .action (.light .off)]] =
      .ok ⟨importLines, ["hub_ = []", "hub = MSHub()"], [],
        ["hub_.append('hub')", "hub.light_matrix.off()"]⟩ := by
    decide +kernel
  obtain ⟨-, -, hclosed, hnodup, -⟩ := generate_names_bound hlower hgenerate
  exact ⟨_, _, hlower, hgenerate, rfl, rfl, hclosed (.inl rfl), hnodup⟩

def Script.importTexts : List String :=
  ["from mindstorms import MSHub, Motor, MotorPair, ColorSensor, DistanceSensor, App",
    "from mindstorms.control import wait_for_seconds, wait_until, Timer",
    "from mindstorms.operator import greater_than, greater_than_or_equal_to, less_than, " ++
      "less_than_or_equal_to, equal_to, not_equal_to",
    "import math"]

theorem Script.physicalLines_importLines : physicalLines importLines = importTexts := by
  have hunlines : importLines = unlines importTexts := by decide +kernel
  rw [hunlines]
  apply physicalLines_unlines
  simp only [importTexts, List.forall_mem_cons, oneLine_append, Bool.and_eq_true]
  refine ⟨?_, ?_, ⟨?_, ?_⟩, ?_, List.forall_mem_nil _⟩
  all_goals exact oneLine_ofList (by decide)

/-- A project with an unknown block in a loop, whose opcode has a line end in it. -/
def Json.nestedOpcode : Json :=
  .program [] []
    [("below", .object [("opcode", .string "control_forever"),
        ("inputs", .object [("SUBSTACK", .array [.number (.integer 2), .string "inner"])])]),
      ("inner", .object [("opcode", .string "foo\nhub")])]

/-- The name of the hub after the line end of an opcode is an identifier that nothing binds, in a
line that does not start with a number sign. -/
theorem generate_nested_opcode_unbound :
    ∃ forest program, lower .nestedOpcode true = .ok forest ∧ generate forest = .ok program ∧
      ∃ t ∈ program.body, startsNote t = false ∧
        ∃ ts, scanner.tokens? t = some ts ∧ .name "hub" ∈ ts ∧ "hub" ∉ program.bound := by
  have hlower : lower .nestedOpcode true = .ok [[.hat none none,
      .forever [.action (.placeholder "foo\nhub" none)]]] := by
    with_unfolding_all rfl
  have hgenerate : generate [[.hat none none, .forever [.action (.placeholder "foo\nhub" none)]]] =
      .ok ⟨importLines, [], [], ["while True:", "\t" ++ placeholderText "foo\nhub" none]⟩ := by
    decide +kernel
  have hbound : "hub" ∉ Program.bound ⟨importLines, [], [],
      ["while True:", "\t" ++ placeholderText "foo\nhub" none]⟩ := by
    rw [Program.bound, physicalLines_importLines]
    decide +kernel
  have htokens : (scanner.tokens? ("\t" ++ placeholderText "foo\nhub" none)).any
      (·.contains (.name "hub")) = true := by
    decide +kernel
  obtain ⟨ts, hts, hmem⟩ := (Option.any_eq_true _ _).mp htokens
  refine ⟨_, _, hlower, hgenerate, _, List.mem_cons_of_mem _ List.mem_cons_self, by decide +kernel,
    ts, hts, List.contains_iff_mem.mp hmem, hbound⟩

end WordBlocks
