import WordBlocks.Proofs.KnownDemands
import WordBlocks.Proofs.LineEnds

/-!
Scripts as they are split into lines again. A script whose lines and declarations have no line end
splits back into them, one physical line for each, and for a compiled project this fails just if the
program has a placeholder for an unknown block with a line end in its opcode.
-/

namespace WordBlocks

open Script

/-- A demand whose declarations and functions are single lines. -/
def Script.Demand.OneLine (q : Demand) : Prop :=
  ∀ t ∈ q.declarations ++ q.functions, oneLine t = true

namespace Script.Demand

theorem object_oneLine {name : String} {texts : List String} (h : ∀ t ∈ texts, oneLine t = true) :
    (object name texts).OneLine := by
  simpa [OneLine, object] using h

theorem Known.oneLine {q : Demand} (h : q.Known) : q.OneLine := by
  cases h with
  | hub | app | timer | brightness => exact object_oneLine (by decide)
  | motorPair =>
      apply object_oneLine
      simp only [List.forall_mem_cons]
      exact ⟨oneLine_ofList (by decide), oneLine_ofList (by decide), by simp⟩
  | pattern =>
      simp only [OneLine, Demand.pattern, Emit.patternFunctionLines, List.nil_append,
        List.forall_mem_cons]
      exact ⟨by simp +decide, oneLine_ofList (by decide), oneLine_ofList (by decide), by simp⟩
  | random => simp [OneLine, Demand.random]
  | device d hport =>
      have hletter := (oneLine_of_mem_portLetters hport).1
      apply object_oneLine
      simp +decide [oneLine_objectName d hport, hletter, -String.append_singleton]
  | list name => simp +decide [OneLine, Demand.list]

end Script.Demand

section

variable {p : Project} {bestEffort : Bool}

theorem Forest.unbroken_iff {forest : Forest} {b started : Bool} {ls : List Line}
    (hforest : ∀ s ∈ forest, Stack.LoweredFrom p bestEffort s)
    (h : Forest.lines b started forest = .ok ls) :
    Unbroken ls ↔ ∀ n ∈ Forest.visited forest, n.OpcodeOneLine := by
  induction forest generalizing started ls with
  | nil =>
      obtain rfl := Except.ok.inj h
      simp [Forest.visited]
  | cons root rest ih =>
      obtain ⟨hroot, hrest⟩ := List.forall_mem_cons.mp hforest
      rcases Forest.lines_cons_cases h with
        ⟨x, y, body, ls, ms, rfl, hls, hms, rfl⟩ | ⟨ms, hloose, hms, rfl⟩
      · have hnote : Unbroken (linesAt 0 (if started then [parallelNote] else [])) := by
          rw [unbroken_linesAt]
          intro t ht
          split at ht
          · rw [List.mem_singleton.mp ht, parallelNote, oneLine_placeholderText]
            decide
          · cases ht
        rw [unbroken_append, unbroken_append, and_iff_right hnote, Stack.unbroken_iff hroot.2 hls,
          ih hrest hms, Forest.visited_cons_hat, List.forall_mem_append]
      · have hnote : oneLine looseStackNote = true := oneLine_fixedNotes _ (by simp [fixedNotes])
        rw [unbroken_cons, and_iff_right hnote, ih hrest hms,
          Forest.visited_cons_loose rest hloose]

end

namespace Script

/-- The lines of a text, which end at every line feed and carriage return. -/
def splitLines : List Char → List (List Char)
  | [] => []
  | c :: cs =>
    if isLineEnd c then [] :: splitLines cs
    else match splitLines cs with
      | [] => [[c]]
      | l :: ls => (c :: l) :: ls

/-- The lines that a text has once it is written to a file. -/
def physicalLines (s : String) : List String :=
  (splitLines s.toList).map String.ofList

theorem splitLines_cons (c : Char) (cs : List Char) :
    splitLines (c :: cs) = if isLineEnd c then [] :: splitLines cs
      else match splitLines cs with
        | [] => [[c]]
        | l :: ls => (c :: l) :: ls :=
  rfl

theorem splitLines_chars (cs : List Char) :
    ∀ l ∈ splitLines cs, ∀ c ∈ l, isLineEnd c = false := by
  induction cs with
  | nil => simp [splitLines]
  | cons c cs ih =>
      rw [splitLines_cons]
      split
      · exact List.forall_mem_cons.mpr ⟨by simp, ih⟩
      · rename_i hc
        rw [Bool.not_eq_true] at hc
        split
        · simpa using hc
        · rename_i l ls heq
          rw [heq, List.forall_mem_cons] at ih
          exact List.forall_mem_cons.mpr ⟨List.forall_mem_cons.mpr ⟨hc, ih.1⟩, ih.2⟩

theorem splitLines_line {l : List Char} (h : ∀ c ∈ l, isLineEnd c = false) (rest : List Char) :
    splitLines (l ++ '\n' :: rest) = l :: splitLines rest := by
  induction l with
  | nil => rfl
  | cons c l ih =>
      obtain ⟨hc, hl⟩ := List.forall_mem_cons.mp h
      rw [List.cons_append, splitLines_cons, ih hl]
      simp [hc]

theorem splitLines_ne_nil (c : Char) (cs : List Char) : splitLines (c :: cs) ≠ [] := by
  rw [splitLines_cons]
  split
  · simp
  · split <;> simp

theorem splitLines_append {cs : List Char} (h : ∀ c ∈ cs.getLast?, isLineEnd c = true)
    (rest : List Char) : splitLines (cs ++ rest) = splitLines cs ++ splitLines rest := by
  induction cs with
  | nil => rfl
  | cons c cs ih =>
      cases cs with
      | nil =>
          have hc : isLineEnd c = true := h c rfl
          simp [splitLines, hc]
      | cons d cs =>
          have hrest := ih (by simpa [List.getLast?_cons_cons] using h)
          obtain ⟨l, ls, hls⟩ := List.exists_cons_of_ne_nil (splitLines_ne_nil d cs)
          rw [List.cons_append, splitLines_cons, hrest, splitLines_cons c (d :: cs), hls]
          split <;> rfl

theorem oneLine_iff (s : String) : oneLine s = true ↔ ∀ c ∈ s.toList, isLineEnd c = false := by
  simp [oneLine]

theorem physicalLines_line {t : String} (h : oneLine t = true) (rest : String) :
    physicalLines (t ++ "\n" ++ rest) = t :: physicalLines rest := by
  have hsplit := splitLines_line ((oneLine_iff t).mp h) rest.toList
  have hchars : (t ++ "\n" ++ rest).toList = t.toList ++ '\n' :: rest.toList := by simp
  rw [physicalLines, hchars, hsplit, List.map_cons, String.ofList_toList]
  rfl

@[simp] theorem unlines_nil : unlines [] = "" := rfl

@[simp] theorem unlines_cons (t : String) (ts : List String) :
    unlines (t :: ts) = t ++ "\n" ++ unlines ts := by
  rw [unlines, List.map_cons, String.join_cons, unlines]

@[simp] theorem unlines_append (ts us : List String) :
    unlines (ts ++ us) = unlines ts ++ unlines us := by
  induction ts with
  | nil => simp
  | cons t ts ih => simp [ih, String.append_assoc]

theorem physicalLines_unlines {ts : List String} (h : ∀ t ∈ ts, oneLine t = true) :
    physicalLines (unlines ts) = ts := by
  induction ts with
  | nil => rfl
  | cons t ts ih =>
      obtain ⟨ht, hts⟩ := List.forall_mem_cons.mp h
      rw [unlines_cons, physicalLines_line ht, ih hts]

theorem physicalLines_append {s : String} (h : s.toList.getLast?.any isLineEnd = true)
    (t : String) : physicalLines (s ++ t) = physicalLines s ++ physicalLines t := by
  have hlast : ∀ c ∈ s.toList.getLast?, isLineEnd c = true := by
    intro c hc
    rw [Option.mem_def.mp hc] at h
    exact h
  rw [physicalLines, String.toList_append, splitLines_append hlast, List.map_append]
  rfl

theorem oneLine_of_mem_physicalLines {s t : String} (h : t ∈ physicalLines s) :
    oneLine t = true := by
  obtain ⟨l, hl, rfl⟩ := List.mem_map.mp h
  rw [oneLine_iff, String.toList_ofList]
  exact splitLines_chars _ l hl

namespace Program

/-- The lines of a script after its imports. -/
def sections (p : Program) : List String :=
  "# Create your objects here." :: p.declarations ++
    (if p.functions.isEmpty then [] else "# Declare you functions here." :: p.functions) ++
    "# Write your program here." :: p.body

/-- No declaration, function line or body line has a line end in it. -/
def OneLine (p : Program) : Prop :=
  ∀ t ∈ p.declarations ++ p.functions ++ p.body, oneLine t = true

theorem text_eq (p : Program) : p.text = p.preamble ++ unlines p.sections := by
  have hcreate : "# Create your objects here.\n" = "# Create your objects here." ++ "\n" := rfl
  have hdeclare : "# Declare you functions here.\n" = "# Declare you functions here." ++ "\n" := rfl
  have hwrite : "# Write your program here.\n" = "# Write your program here." ++ "\n" := rfl
  rw [text, hcreate, hdeclare, hwrite]
  unfold sections
  cases hfunctions : p.functions.isEmpty with
  | true => simp [String.append_assoc]
  | false => simp [String.append_assoc]

theorem forall_mem_sections (p : Program) :
    (∀ t ∈ p.sections, oneLine t = true) ↔ p.OneLine := by
  have hcreate : oneLine "# Create your objects here." = true := oneLine_ofList (by decide)
  have hdeclare : oneLine "# Declare you functions here." = true := oneLine_ofList (by decide)
  have hwrite : oneLine "# Write your program here." = true := oneLine_ofList (by decide)
  have hfunctions : (∀ t ∈ (if p.functions.isEmpty then []
      else "# Declare you functions here." :: p.functions), oneLine t = true) ↔
      ∀ t ∈ p.functions, oneLine t = true := by
    cases p.functions with
    | nil => simp
    | cons f fs => exact List.forall_mem_cons.trans (and_iff_right hdeclare)
  rw [sections, OneLine, List.forall_mem_append, List.forall_mem_append, List.forall_mem_cons,
    and_iff_right hcreate, List.forall_mem_cons, and_iff_right hwrite, hfunctions,
    List.forall_mem_append, List.forall_mem_append]

theorem physicalLines_text_iff {p : Program}
    (hpreamble : p.preamble.toList.getLast?.any isLineEnd = true) :
    physicalLines p.text = physicalLines p.preamble ++ p.sections ↔ p.OneLine := by
  rw [text_eq, physicalLines_append hpreamble, List.append_cancel_left_eq,
    ← forall_mem_sections]
  constructor
  · intro h t ht
    rw [← h] at ht
    exact oneLine_of_mem_physicalLines ht
  · exact physicalLines_unlines

end Program

end Script

theorem Script.importLines_ends : importLines.toList.getLast?.any isLineEnd = true := by
  have hmath : "import math\n".toList.getLast?.any isLineEnd = true := by decide
  unfold importLines
  rw [any_getLast?_append, Bool.or_eq_true]
  exact .inl hmath

theorem Script.preamble_ends {forest : Forest} {program : Program}
    (h : generate forest = .ok program) :
    program.preamble.toList.getLast?.any isLineEnd = true := by
  have hrandom : randomImportLine.toList.getLast?.any isLineEnd = true := by decide
  -- The imports end with the line of the generator of random integers, if there is one.
  rw [generate_eq, bind_eq_ok_iff] at h
  obtain ⟨ls, _, hp⟩ := h
  obtain rfl := Except.ok.inj hp
  rw [assemble, Demand.join_imports_firstOccurrences (Forest.demands_imports _ forest)]
  split
  · rw [any_getLast?_append, hrandom, Bool.true_or]
  · rw [String.append_empty, importLines_ends]

theorem Script.oneLine_render (l : Line) : oneLine l.render = oneLine l.text := by
  have htabs : oneLine (tabs l.depth) = true := by
    rw [oneLine_iff, tabs, String.toList_ofList]
    intro c hc
    rw [List.eq_of_mem_replicate hc]
    rfl
  rw [Line.render, oneLine_append, htabs, Bool.true_and]

/-- A script of a lowered program is made of single lines just if the opcodes that its placeholders
take over are. -/
theorem Script.oneLine_generate_iff {p : Project} {bestEffort : Bool} {forest : Forest}
    {program : Program} (hforest : ∀ s ∈ forest, Stack.LoweredFrom p bestEffort s)
    (h : generate forest = .ok program) :
    program.OneLine ↔ ∀ n ∈ Forest.visited forest, n.OpcodeOneLine := by
  rw [generate_eq, bind_eq_ok_iff] at h
  obtain ⟨ls, hls, hp⟩ := h
  obtain rfl := Except.ok.inj hp
  have hdemands := Forest.demands_known (forest.any Stack.setsBrightness) hforest
  have hdeclared : ∀ t ∈ (assemble (Forest.demands (forest.any Stack.setsBrightness) forest)
      ls).declarations, oneLine t = true := by
    intro t ht
    obtain ⟨q, hq, ht⟩ := List.mem_flatMap.mp ht
    exact (hdemands q (Demand.mem_of_mem_firstOccurrences hq)).oneLine t (List.mem_append_left _ ht)
  have hdefined : ∀ t ∈ (assemble (Forest.demands (forest.any Stack.setsBrightness) forest)
      ls).functions, oneLine t = true := by
    intro t ht
    obtain ⟨q, hq, ht⟩ := List.mem_flatMap.mp ht
    exact (hdemands q (Demand.mem_of_mem_firstOccurrences hq)).oneLine t
      (List.mem_append_right _ ht)
  have hbody : (∀ t ∈ ls.map Line.render, oneLine t = true) ↔ Unbroken ls := by
    simp only [List.forall_mem_map, oneLine_render]
    rfl
  rw [Program.OneLine, List.forall_mem_append, List.forall_mem_append, and_iff_right hdeclared,
    and_iff_right hdefined, ← Forest.unbroken_iff hforest hls]
  exact hbody

/-- A compiled script is made of the lines that were generated for it, one physical line for each,
unless unknown blocks are let through and one of them has a line end in its opcode. -/
theorem compile_oneLine_iff {project : Json} {bestEffort : Bool} {c : Compiled}
    (h : compile project bestEffort = .ok c) :
    ∃ p program, Project.ofJson project = .ok p ∧ generate c.forest = .ok program ∧
      c.script = program.text ∧
      (program.OneLine ↔ physicalLines c.script =
        physicalLines program.preamble ++ program.sections) ∧
      (program.OneLine ↔ ¬ (bestEffort = true ∧
        ∃ id b rest, p.block id = .ok b ∧ StatementForm.ofOpcode? b.opcode = none ∧
          oneLine b.opcode = false ∧
          .stack (.action (.placeholder b.opcode none)) rest ∈ Forest.visited c.forest)) := by
  simp only [compile, bind_eq_ok_iff, pure_eq_ok_iff] at h
  obtain ⟨forest, hlower, program, hgenerate, rfl⟩ := h
  obtain ⟨p, hp, hforest⟩ := loweredFrom_of_lower hlower
  refine ⟨p, program, hp, hgenerate, rfl, ?_, ?_⟩
  · exact (Program.physicalLines_text_iff (preamble_ends hgenerate)).symm
  · rw [oneLine_generate_iff hforest hgenerate]
    constructor
    · rintro hall ⟨_, id, b, rest, _, _, hbroken, hmem⟩
      exact absurd (hall _ hmem b.opcode rest rfl) (by simp [hbroken])
    · rintro hnone n hn opcode rest rfl
      obtain ⟨heffort, hunknown, id, b, hb, rfl⟩ := Forest.loweredFrom_visited hforest _ hn
      by_contra hbroken
      exact hnone ⟨heffort, id, b, rest, hb, hunknown, by simpa using hbroken, hn⟩

theorem compile_of_generate {project : Json} {bestEffort : Bool} {forest : Forest}
    {program : Program} (hlower : lower project bestEffort = .ok forest)
    (hgenerate : generate forest = .ok program) :
    compile project bestEffort = .ok ⟨forest, program.text, Diagram.render forest⟩ :=
  bind_eq_ok_iff.mpr ⟨forest, hlower, bind_eq_ok_iff.mpr ⟨program, hgenerate, rfl⟩⟩

/-- A project with one block below a hat. -/
def Json.hatAbove (block : Json) : Json :=
  .object [("targets", .array [.null, .object
      [("variables", .object []), ("lists", .object []), ("broadcasts", .object []),
        ("blocks", .object
          [("hat", .object [("opcode", .string "flipperevents_whenProgramStarts"),
              ("next", .string "below"), ("topLevel", .bool true)]),
            ("below", block)])]]),
    ("extensions", .array [])]

/-- Sets a variable with a line end in its name to a text with a line end. -/
def Json.brokenAssignment : Json :=
  .object [("opcode", .string "data_setvariableto"),
    ("fields", .object [("VARIABLE", .array [.string "a\nb", .string "v"])]),
    ("inputs", .object [("VALUE", .array [.number (.integer 1),
      .array [.number (.integer 11), .string "x\r\ny"]])])]

theorem compile_oneLine_assignment :
    ∃ c program, compile (.hatAbove .brokenAssignment) false = .ok c ∧
      generate c.forest = .ok program ∧ program.body = ["a_b = 'x\\r\\ny'"] ∧
      program.OneLine := by
  have hlower : lower (.hatAbove .brokenAssignment) false =
      .ok [[.hat none none, .action (.data (.set ⟨"a\nb", "v"⟩ (.text "x\r\ny")))]] := by
    with_unfolding_all rfl
  have hbody : Program.body <$> generate [[.hat none none,
      .action (.data (.set ⟨"a\nb", "v"⟩ (.text "x\r\ny")))]] = .ok ["a_b = 'x\\r\\ny'"] := by
    decide +kernel
  obtain ⟨program, hgenerate, hbody⟩ := map_eq_ok_iff.mp hbody
  have hcompile := compile_of_generate hlower hgenerate
  obtain ⟨_, program', _, hgenerate', _, _, hlines⟩ := compile_oneLine_iff hcompile
  obtain rfl := Except.ok.inj (hgenerate.symm.trans hgenerate')
  exact ⟨_, program, hcompile, hgenerate, hbody, hlines.mpr (by simp)⟩

/-- A line end in an unknown opcode breaks the line of its placeholder. -/
theorem compile_opcode_breaks_line :
    ∃ c program, compile (.hatAbove (.object [("opcode", .string "foo\nbar")])) true = .ok c ∧
      generate c.forest = .ok program ∧
      program.body = ["# Placeholder for the foo\nbar block. Note: that foo\nbar " ++
        "is not supported in Python at the moment."] ∧ ¬ program.OneLine := by
  have hlower : lower (.hatAbove (.object [("opcode", .string "foo\nbar")])) true =
      .ok [[.hat none none, .action (.placeholder "foo\nbar" none)]] := by
    with_unfolding_all rfl
  have hbody : Program.body <$> generate [[.hat none none,
      .action (.placeholder "foo\nbar" none)]] =
      .ok ["# Placeholder for the foo\nbar block. Note: that foo\nbar " ++
        "is not supported in Python at the moment."] := by
    decide +kernel
  obtain ⟨program, hgenerate, hbody⟩ := map_eq_ok_iff.mp hbody
  have hcompile := compile_of_generate hlower hgenerate
  refine ⟨_, program, hcompile, hgenerate, hbody, ?_⟩
  intro hlines
  have hline := hlines _ (List.mem_append_right _ (hbody ▸ List.mem_singleton_self _))
  exact absurd hline (by decide)

end WordBlocks
