import Mathlib.Order.Bounds.Defs
import WordBlocks.CommandLine
import WordBlocks.Proofs.Demand
import WordBlocks.Proofs.StrayLocator

/-!
Performing an invocation is all or nothing. On any file system whose writes store a whole text or
fail, a run announces its stages up to the first that goes wrong; nothing is shown and no file
changes unless the script is complete, and then the script is that of `compileFile` on the same
input (`report_all_or_nothing`).
-/

namespace WordBlocks

/-- The error of a compilation of which one stage has ended in an error. -/
def FileError.whole : FileError → FileError
  | notLowered path e => notCompiled path e
  | notGenerated path e => notCompiled path e
  | e => e

theorem Lookup.whole_of_resolve {found : Lookup} {path : String} {e : FileError}
    (h : found.resolve path = .error e) : e.whole = e := by
  cases found <;> cases h <;> rfl

theorem Lookup.whole_of_project {found : Lookup} {full : String} {e : FileError}
    (h : found.project full = .error e) : e.whole = e := by
  unfold Lookup.project at h
  split at h
  · cases h
    rfl
  · split at h
    · cases h
      rfl
    · cases h

theorem compile_of_lower_error {project : Json} {bestEffort : Bool} {e : CompileError}
    (h : lower project bestEffort = .error e) : compile project bestEffort = .error e := by
  rw [compile, h]
  rfl

theorem compile_of_lower_ok {project : Json} {bestEffort : Bool} {forest : Forest}
    (h : lower project bestEffort = .ok forest) :
    compile project bestEffort = (Script.generate forest).map fun program =>
      ⟨forest, program.text, Diagram.render forest⟩ := by
  rw [compile, h]
  rfl

namespace CommandLine

/-- A file system. Nothing is known about a file after a write to it that fails. -/
structure FileSystem where
  State : Type
  look : State → String → Lookup
  content : State → String → Option Bytes
  write : State → String → String → Bool × State
  content_write : ∀ {s : State} {path text : String}, (write s path text).1 = true →
    content (write s path text).2 path = some text.toUTF8.toList

namespace Invocation

/-- The project in the input. -/
def project? (i : Invocation) (input : Lookup) : Option Json :=
  (input.resolve i.input >>= input.project).toOption

def forest? (i : Invocation) (input : Lookup) : Option Forest :=
  (i.project? input).bind fun project => (lower project i.bestEffort).toOption

def program? (i : Invocation) (input : Lookup) : Option Script.Program :=
  (i.forest? input).bind fun forest => (Script.generate forest).toOption

/-- What a run shows of a compilation. -/
def shown (i : Invocation) (c : Compiled) : String :=
  if i.printScript then c.script else c.diagram ++ "\n"

/-- How a run ends that has come to a compilation. -/
def conclude (i : Invocation) (c : Compiled) (writable : Bool) : Except FileError Product :=
  match i.output with
  | none => .ok ⟨i.shown c, none⟩
  | some path => if writable then .ok ⟨i.shown c, some c.script⟩ else .error (.notWritten path)

end Invocation

namespace FileSystem

variable (fs : FileSystem) (i : Invocation) (s : fs.State)

/-- Access to the files of a file system. -/
def files : Files (StateM fs.State) where
  look path := do return fs.look (← get) path
  write path text := fun s => fs.write s path text

/-- The report of an invocation that is performed in a state of the file system. -/
def report : Report :=
  ((i.perform fs.files).run s).1

/-- The state of the file system after an invocation. -/
def after : fs.State :=
  ((i.perform fs.files).run s).2

/-- A stage of a run does not go wrong. The stages are counted from one. -/
def Completes : Nat → Prop
  | 1 => ∃ full, (fs.look s i.input).resolve i.input = .ok full
  | 2 => (i.project? (fs.look s i.input)).isSome
  | 3 => (i.forest? (fs.look s i.input)).isSome
  | 4 => (i.program? (fs.look s i.input)).isSome
  | 5 => ∀ path program, i.output = some path → i.program? (fs.look s i.input) = some program →
      (fs.write s path program.text).1 = true
  | _ => True

/-- A run stops at a stage before the last with an error, and the compilation of its input fails
too. -/
structure StopsAt (k : Nat) (e : FileError) : Prop where
  pos : 0 < k
  early : k < 5
  before : ∀ n < k, fs.Completes i s n
  fails : ¬ fs.Completes i s k
  compile : compileFile i.input (fs.look s i.input) i.bestEffort = .error e.whole
  execute : ∀ writable, i.execute ⟨fs.look s i.input, writable⟩ = (k, .error e)

/-- A run comes to the compilation of its input, so that only writing is left. -/
structure Compiles (c : Compiled) : Prop where
  before : ∀ n < 5, fs.Completes i s n
  script : (i.program? (fs.look s i.input)).map (·.text) = some c.script
  compile : compileFile i.input (fs.look s i.input) i.bestEffort = .ok c
  execute : ∀ writable,
    i.execute ⟨fs.look s i.input, writable⟩ = (i.stages, i.conclude c writable)

variable {fs i s}

theorem completes_zero : ∀ n < 1, fs.Completes i s n := by
  intro n hn
  obtain rfl : n = 0 := by omega
  trivial

theorem stopsAt_of_resolve {e : FileError} (h : (fs.look s i.input).resolve i.input = .error e) :
    fs.StopsAt i s 1 e where
  pos := by omega
  early := by omega
  before := completes_zero
  fails := by
    rintro ⟨full, hfull⟩
    rw [h] at hfull
    cases hfull
  compile := by
    rw [compileFile, h, Lookup.whole_of_resolve h]
    rfl
  execute := by
    intro writable
    simp only [Invocation.execute, h]

section Resolved

variable {full : String} (hresolve : (fs.look s i.input).resolve i.input = .ok full)
include hresolve

theorem completes_one : ∀ n < 2, fs.Completes i s n :=
  Nat.forall_lt_succ_right.mpr ⟨completes_zero, full, hresolve⟩

theorem project?_eq :
    i.project? (fs.look s i.input) = ((fs.look s i.input).project full).toOption := by
  rw [Invocation.project?, hresolve]
  rfl

theorem compileFile_eq : compileFile i.input (fs.look s i.input) i.bestEffort =
    (fs.look s i.input).project full >>= fun project =>
      (compile project i.bestEffort).mapError (.notCompiled full) := by
  rw [compileFile, hresolve]
  change (fs.look s i.input).project full >>= _ = _
  apply bind_congr
  intro project
  cases compile project i.bestEffort <;> rfl

theorem stopsAt_of_project {e : FileError} (h : (fs.look s i.input).project full = .error e) :
    fs.StopsAt i s 2 e where
  pos := by omega
  early := by omega
  before := completes_one hresolve
  fails := by
    rw [Completes, project?_eq hresolve, h]
    exact Bool.false_ne_true
  compile := by
    rw [compileFile_eq hresolve, h, Lookup.whole_of_project h]
    rfl
  execute := by
    intro writable
    simp only [Invocation.execute, hresolve, h]

section Read

variable {project : Json} (hread : (fs.look s i.input).project full = .ok project)
include hread

theorem completes_two : ∀ n < 3, fs.Completes i s n := by
  refine Nat.forall_lt_succ_right.mpr ⟨completes_one hresolve, ?_⟩
  rw [Completes, project?_eq hresolve, hread]
  rfl

theorem forest?_eq : i.forest? (fs.look s i.input) = (lower project i.bestEffort).toOption := by
  rw [Invocation.forest?, project?_eq hresolve, hread]
  rfl

theorem stopsAt_of_lower {e : CompileError} (h : lower project i.bestEffort = .error e) :
    fs.StopsAt i s 3 (.notLowered full e) where
  pos := by omega
  early := by omega
  before := completes_two hresolve hread
  fails := by
    rw [Completes, forest?_eq hresolve hread, h]
    exact Bool.false_ne_true
  compile := by
    rw [compileFile_eq hresolve, hread]
    change (compile project i.bestEffort).mapError _ = _
    rw [compile_of_lower_error h]
    rfl
  execute := by
    intro writable
    simp only [Invocation.execute, hresolve, hread, h]

section Lowered

variable {forest : Forest} (hlower : lower project i.bestEffort = .ok forest)
include hlower

theorem completes_three : ∀ n < 4, fs.Completes i s n := by
  refine Nat.forall_lt_succ_right.mpr ⟨completes_two hresolve hread, ?_⟩
  rw [Completes, forest?_eq hresolve hread, hlower]
  rfl

theorem program?_eq : i.program? (fs.look s i.input) = (Script.generate forest).toOption := by
  rw [Invocation.program?, forest?_eq hresolve hread, hlower]
  rfl

theorem stopsAt_of_generate {e : CompileError} (h : Script.generate forest = .error e) :
    fs.StopsAt i s 4 (.notGenerated full e) where
  pos := by omega
  early := by omega
  before := completes_three hresolve hread hlower
  fails := by
    rw [Completes, program?_eq hresolve hread hlower, h]
    exact Bool.false_ne_true
  compile := by
    rw [compileFile_eq hresolve, hread]
    change (compile project i.bestEffort).mapError _ = _
    rw [compile_of_lower_ok hlower, h]
    rfl
  execute := by
    intro writable
    simp only [Invocation.execute, hresolve, hread, hlower, h]

theorem compiles_of_generate {program : Script.Program} (h : Script.generate forest = .ok program) :
    fs.Compiles i s ⟨forest, program.text, Diagram.render forest⟩ where
  before := by
    refine Nat.forall_lt_succ_right.mpr ⟨completes_three hresolve hread hlower, ?_⟩
    rw [Completes, program?_eq hresolve hread hlower, h]
    rfl
  script := by
    rw [program?_eq hresolve hread hlower, h]
    rfl
  compile := by
    rw [compileFile_eq hresolve, hread]
    change (compile project i.bestEffort).mapError _ = _
    rw [compile_of_lower_ok hlower, h]
    rfl
  execute := by
    intro writable
    simp only [Invocation.execute, hresolve, hread, hlower, h]
    cases houtput : i.output with
    | none => simp [Invocation.stages, Invocation.conclude, Invocation.shown, houtput]
    | some path =>
        cases writable <;>
          simp [Invocation.stages, Invocation.conclude, Invocation.shown, houtput]

end Lowered

end Read

end Resolved

theorem compiles_of_file {found : FoundFile} {project : Json} {forest : Forest}
    {program : Script.Program} (hlook : fs.look s i.input = .file found)
    (hread : ProjectFile.read found.content = .ok project)
    (hlower : lower project i.bestEffort = .ok forest)
    (hgenerate : Script.generate forest = .ok program) :
    fs.Compiles i s ⟨forest, program.text, Diagram.render forest⟩ := by
  have hresolve : (fs.look s i.input).resolve i.input = .ok found.path := by
    rw [hlook]
    rfl
  have hproject : (fs.look s i.input).project found.path = .ok project := by
    simp only [hlook, Lookup.project, Lookup.content?, hread]
  exact compiles_of_generate hresolve hproject hlower hgenerate

/-- A run either stops at one of the first four stages or comes to the compilation of its input. -/
theorem stops_or_compiles (fs : FileSystem) (i : Invocation) (s : fs.State) :
    (∃ k e, fs.StopsAt i s k e) ∨ ∃ c, fs.Compiles i s c := by
  cases hresolve : (fs.look s i.input).resolve i.input with
  | error e => exact .inl ⟨1, e, stopsAt_of_resolve hresolve⟩
  | ok full =>
  cases hread : (fs.look s i.input).project full with
  | error e => exact .inl ⟨2, e, stopsAt_of_project hresolve hread⟩
  | ok project =>
  cases hlower : lower project i.bestEffort with
  | error e => exact .inl ⟨3, _, stopsAt_of_lower hresolve hread hlower⟩
  | ok forest =>
  cases hgenerate : Script.generate forest with
  | error e => exact .inl ⟨4, _, stopsAt_of_generate hresolve hread hlower hgenerate⟩
  | ok program => exact .inr ⟨_, compiles_of_generate hresolve hread hlower hgenerate⟩

theorem run_look : (fs.files.look i.input).run s = pure (fs.look s i.input, s) :=
  rfl

theorem run_write (path text : String) : (fs.files.write path text).run s =
    pure ((fs.write s path text).1, (fs.write s path text).2) :=
  rfl

theorem perform_of_written_eq_none (h : (i.run ⟨fs.look s i.input, true⟩).written = none) :
    (i.perform fs.files).run s = (i.run ⟨fs.look s i.input, true⟩, s) := by
  rw [Invocation.perform, StateT.run_bind, run_look, pure_bind]
  dsimp only
  rw [h]
  cases i.output <;> rfl

theorem perform_of_written {path text : String} (houtput : i.output = some path)
    (h : (i.run ⟨fs.look s i.input, true⟩).written = some text) :
    (i.perform fs.files).run s =
      (i.run ⟨fs.look s i.input, (fs.write s path text).1⟩, (fs.write s path text).2) := by
  rw [Invocation.perform, StateT.run_bind, run_look, pure_bind]
  dsimp only
  rw [h, houtput]
  dsimp only
  rw [StateT.run_bind, run_write, pure_bind]
  cases (fs.write s path text).1 <;> rfl

theorem perform_of_stopsAt {k : Nat} {e : FileError} (h : fs.StopsAt i s k e) :
    (i.perform fs.files).run s = (⟨1, "", progress k i.stages ++ errorText e, none⟩, s) := by
  have hrun : i.run ⟨fs.look s i.input, true⟩ =
      ⟨1, "", progress k i.stages ++ errorText e, none⟩ := by
    rw [Invocation.run, h.execute]
  rw [perform_of_written_eq_none (by rw [hrun]), hrun]

theorem perform_of_compiles {c : Compiled} (h : fs.Compiles i s c) (houtput : i.output = none) :
    (i.perform fs.files).run s = (⟨0, i.shown c, progress i.stages i.stages, none⟩, s) := by
  have hrun : i.run ⟨fs.look s i.input, true⟩ =
      ⟨0, i.shown c, progress i.stages i.stages, none⟩ := by
    rw [Invocation.run, h.execute, Invocation.conclude, houtput]
  rw [perform_of_written_eq_none (by rw [hrun]), hrun]

theorem perform_of_compiles_output {c : Compiled} {path : String} (h : fs.Compiles i s c)
    (houtput : i.output = some path) :
    (i.perform fs.files).run s =
      (if (fs.write s path c.script).1 then
          ⟨0, i.shown c, progress i.stages i.stages, some c.script⟩
        else ⟨1, "", progress i.stages i.stages ++ errorText (.notWritten path), none⟩,
        (fs.write s path c.script).2) := by
  have hrun : ∀ writable, i.run ⟨fs.look s i.input, writable⟩ =
      if writable then ⟨0, i.shown c, progress i.stages i.stages, some c.script⟩
      else ⟨1, "", progress i.stages i.stages ++ errorText (.notWritten path), none⟩ := by
    intro writable
    rw [Invocation.run, h.execute, Invocation.conclude, houtput]
    cases writable <;> rfl
  rw [perform_of_written houtput (by rw [hrun, if_pos rfl]), hrun]

theorem completes_five_iff {c : Compiled} (h : fs.Compiles i s c) :
    fs.Completes i s 5 ↔ ∀ path, i.output = some path → (fs.write s path c.script).1 = true := by
  obtain ⟨program, hprogram, hscript⟩ := Option.map_eq_some_iff.mp h.script
  rw [← hscript, Completes]
  constructor
  · intro hfive path houtput
    exact hfive path program houtput hprogram
  · intro hwrite path program' houtput hprogram'
    rw [hprogram] at hprogram'
    cases hprogram'
    exact hwrite path houtput

theorem report_of_compiles {c : Compiled} (h : fs.Compiles i s c) (hfive : fs.Completes i s 5) :
    ∃ written, fs.report i s = ⟨0, i.shown c, progress i.stages i.stages, written⟩ := by
  cases houtput : i.output with
  | none => exact ⟨none, by rw [report, perform_of_compiles h houtput]⟩
  | some path =>
      have hwrite := (completes_five_iff h).mp hfive path houtput
      exact ⟨some c.script, by rw [report, perform_of_compiles_output h houtput, if_pos hwrite]⟩

theorem report_of_compiles_not_written {c : Compiled} (h : fs.Compiles i s c)
    (hfive : ¬ fs.Completes i s 5) :
    ∃ e, fs.report i s = ⟨1, "", progress i.stages i.stages ++ errorText e, none⟩ := by
  rw [completes_five_iff h] at hfive
  simp only [not_forall] at hfive
  obtain ⟨path, houtput, hwrite⟩ := hfive
  refine ⟨.notWritten path, ?_⟩
  rw [report, perform_of_compiles_output h houtput, if_neg hwrite]

theorem report_of_stopsAt {k : Nat} {e : FileError} (h : fs.StopsAt i s k e) :
    fs.report i s = ⟨1, "", progress k i.stages ++ errorText e, none⟩ := by
  rw [report, perform_of_stopsAt h]

theorem after_of_stopsAt {k : Nat} {e : FileError} (h : fs.StopsAt i s k e) : fs.after i s = s := by
  rw [after, perform_of_stopsAt h]

/-- The stages after which a run does not go on: those that go wrong, and the last. -/
def Ends (fs : FileSystem) (i : Invocation) (s : fs.State) (n : Nat) : Prop :=
  n = i.stages ∨ ¬ fs.Completes i s n

theorem stages_bounds (i : Invocation) : 4 ≤ i.stages ∧ i.stages ≤ 5 := by
  unfold Invocation.stages
  split <;> omega

/-- What a stage is announced as. -/
def announcement : Nat → String
  | 1 => "Resolving input path"
  | 2 => "Reading .lms archive"
  | 3 => "Filtering manifest and lowering blocks"
  | 4 => "Generating Python"
  | _ => "Writing Python program"

/-- A bar of fourteen places. As many are filled as come nearest to the part that is done, and the
greater number of two that are equally near. -/
def IsBar (step total : Nat) (bar : String) : Prop :=
  ∃ filled ≤ 14, 2 * (filled * total) ≤ 28 * step + total ∧
    28 * step + total < 2 * ((filled + 1) * total) ∧
    bar =
      "[" ++ String.ofList (List.replicate filled '=' ++ List.replicate (14 - filled) '-') ++ "]"

theorem isBar_progressBar {step total : Nat} (hpos : 0 < total) (h : step ≤ total) :
    IsBar step total (progressBar step total) := by
  have hle : (step * 14 + total / 2) / total ≤ 14 := by
    rw [← Nat.lt_succ_iff, Nat.div_lt_iff_lt_mul hpos]
    omega
  have hlower := Nat.div_mul_le_self (step * 14 + total / 2) total
  have hupper := (Nat.div_lt_iff_lt_mul hpos).mp
    (Nat.lt_succ_self ((step * 14 + total / 2) / total))
  refine ⟨(step * 14 + total / 2) / total, hle, ?_, ?_, ?_⟩
  · omega
  · rw [← Nat.succ_eq_add_one]
    omega
  · rw [String.ofList_append, ← String.append_assoc]
    simp only [progressBar, barWidth, Nat.min_eq_left hle]

/-- Lines that announce the first stages, one line for each. -/
def Announces (total count : Nat) (lines : List String) : Prop :=
  lines.length = count ∧ ∀ n < count, ∃ bar, IsBar (n + 1) total bar ∧
    lines[n]? = some ("[Compile] " ++ announcement (n + 1) ++ "... (" ++ toString (n + 1) ++ "/" ++
      toString total ++ ") " ++ bar ++ "\n")

theorem stageLabels_getElem? {n : Nat} (h : n < 5) :
    stageLabels[n]? = some (announcement (n + 1)) := by
  have hall : ∀ n < 5, stageLabels[n]? = some (announcement (n + 1)) := by decide
  exact hall n h

theorem announces_progress {total count : Nat} (h : count ≤ total) (htotal : total ≤ 5) :
    Announces total count ((stageLabels.zipIdx.take count).map (progressLine total)) := by
  constructor
  · have hlength : stageLabels.length = 5 := rfl
    simp only [List.length_map, List.length_take, List.length_zipIdx, hlength]
    omega
  · intro n hn
    refine ⟨progressBar (n + 1) total, isBar_progressBar (by omega) (by omega), ?_⟩
    simp only [List.getElem?_map, List.getElem?_take_of_lt hn, List.getElem?_zipIdx,
      stageLabels_getElem? (by omega : n < 5), Option.map_some, Nat.zero_add]
    rfl

theorem isLeast_ends {k : Nat} (hk : k ≤ i.stages) (hbefore : ∀ n < k, fs.Completes i s n)
    (hends : fs.Ends i s k) : IsLeast {n | fs.Ends i s n} k := by
  refine ⟨hends, ?_⟩
  rintro n (rfl | hfails)
  · exact hk
  · by_contra hlt
    exact hfails (hbefore n (Nat.not_le.mp hlt))

theorem completes_five_of_output_none (h : i.output = none) : fs.Completes i s 5 := by
  intro path program houtput
  rw [h] at houtput
  cases houtput

theorem completes_le_stages_iff : (∀ n ≤ i.stages, fs.Completes i s n) ↔
    (∀ n < 5, fs.Completes i s n) ∧ fs.Completes i s 5 := by
  obtain ⟨hfour, hfive⟩ := stages_bounds i
  constructor
  · intro h
    refine ⟨fun n hn => h n (by omega), ?_⟩
    cases houtput : i.output with
    | none => exact completes_five_of_output_none houtput
    | some path => exact h 5 (by simp [Invocation.stages, houtput])
  · rintro ⟨hbefore, hlast⟩ n hn
    rcases Nat.lt_or_ge n 5 with hlt | hge
    · exact hbefore n hlt
    · obtain rfl : n = 5 := by omega
      exact hlast

theorem stderr_report (fs : FileSystem) (i : Invocation) (s : fs.State) :
    ∃ k e lines, IsLeast {n | fs.Ends i s n} k ∧ Announces i.stages k lines ∧
      (fs.report i s).stderr = String.join lines ++ (e.map errorText).getD "" ∧
      (e = none ↔ (fs.report i s).exit = 0) := by
  obtain ⟨hfour, hfive⟩ := stages_bounds i
  rcases stops_or_compiles fs i s with ⟨k, e, hstops⟩ | ⟨c, hcompiles⟩
  · have hk := hstops.early
    have hleast := isLeast_ends (by omega) hstops.before (.inr hstops.fails)
    rw [report_of_stopsAt hstops]
    exact ⟨k, some e, _, hleast, announces_progress (by omega) hfive, rfl, by simp⟩
  have hleast : IsLeast {n | fs.Ends i s n} i.stages :=
    isLeast_ends (Nat.le_refl _) (fun n hn => hcompiles.before n (by omega)) (.inl rfl)
  by_cases hlast : fs.Completes i s 5
  · obtain ⟨written, hreport⟩ := report_of_compiles hcompiles hlast
    rw [hreport]
    exact ⟨i.stages, none, _, hleast, announces_progress (Nat.le_refl _) hfive,
      String.append_empty.symm, by simp⟩
  · obtain ⟨e, hreport⟩ := report_of_compiles_not_written hcompiles hlast
    rw [hreport]
    exact ⟨i.stages, some e, _, hleast, announces_progress (Nat.le_refl _) hfive, rfl, by simp⟩

theorem exit_report_eq_zero_iff :
    (fs.report i s).exit = 0 ↔ ∀ n ≤ i.stages, fs.Completes i s n := by
  rw [completes_le_stages_iff]
  rcases stops_or_compiles fs i s with ⟨k, e, hstops⟩ | ⟨c, hcompiles⟩
  · rw [report_of_stopsAt hstops]
    refine iff_of_false Nat.one_ne_zero ?_
    rintro ⟨hbefore, -⟩
    exact hstops.fails (hbefore k hstops.early)
  by_cases hlast : fs.Completes i s 5
  · obtain ⟨written, hreport⟩ := report_of_compiles hcompiles hlast
    rw [hreport]
    exact iff_of_true rfl ⟨hcompiles.before, hlast⟩
  · obtain ⟨e, hreport⟩ := report_of_compiles_not_written hcompiles hlast
    rw [hreport]
    exact iff_of_false Nat.one_ne_zero fun h => hlast h.2

theorem unchanged_of_not_completes {n : Nat} (hn : n < 5) (h : ¬ fs.Completes i s n) :
    fs.after i s = s ∧ (fs.report i s).stdout = "" ∧
      ∃ k e, (fs.report i s).stderr = progress k i.stages ++ errorText e ∧
        compileFile i.input (fs.look s i.input) i.bestEffort = .error e.whole := by
  rcases stops_or_compiles fs i s with ⟨k, e, hstops⟩ | ⟨c, hcompiles⟩
  · rw [report_of_stopsAt hstops]
    exact ⟨after_of_stopsAt hstops, rfl, k, e, rfl, hstops.compile⟩
  · exact absurd (hcompiles.before n hn) h

theorem compiled_of_completes (h : ∀ n ≤ i.stages, fs.Completes i s n) :
    ∃ c, compileFile i.input (fs.look s i.input) i.bestEffort = .ok c ∧
      (fs.report i s).stdout = i.shown c ∧
      ∀ path, i.output = some path →
        fs.content (fs.after i s) path = some c.script.toUTF8.toList := by
  obtain ⟨hbefore, hlast⟩ := completes_le_stages_iff.mp h
  rcases stops_or_compiles fs i s with ⟨k, e, hstops⟩ | ⟨c, hcompiles⟩
  · exact absurd (hbefore k hstops.early) hstops.fails
  obtain ⟨written, hreport⟩ := report_of_compiles hcompiles hlast
  refine ⟨c, hcompiles.compile, by rw [hreport], ?_⟩
  intro path houtput
  rw [after, perform_of_compiles_output hcompiles houtput]
  exact fs.content_write ((completes_five_iff hcompiles).mp hlast path houtput)

theorem after_of_output_none (h : i.output = none) : fs.after i s = s := by
  rcases stops_or_compiles fs i s with ⟨k, e, hstops⟩ | ⟨c, hcompiles⟩
  · exact after_of_stopsAt hstops
  · rw [after, perform_of_compiles hcompiles h]

theorem exists_compileFile_iff :
    (∃ c, compileFile i.input (fs.look s i.input) i.bestEffort = .ok c) ↔
      ∀ n < 5, fs.Completes i s n := by
  rcases stops_or_compiles fs i s with ⟨k, e, hstops⟩ | ⟨c, hcompiles⟩
  · rw [hstops.compile]
    refine iff_of_false ?_ fun h => hstops.fails (h k hstops.early)
    rintro ⟨c, hc⟩
    cases hc
  · exact iff_of_true ⟨c, hcompiles.compile⟩ hcompiles.before

theorem exit_report_of_output_none (h : i.output = none) : (fs.report i s).exit = 0 ↔
    ∃ c, compileFile i.input (fs.look s i.input) i.bestEffort = .ok c := by
  rw [exit_report_eq_zero_iff, completes_le_stages_iff, exists_compileFile_iff]
  exact and_iff_left (completes_five_of_output_none h)

/-- A run announces its stages up to the first that goes wrong or the last. It shows nothing and
changes no file when a stage before the writing of the script goes wrong; when none does, the output
file and the standard output hold what the compilation of the same input gives. -/
theorem report_all_or_nothing (fs : FileSystem) (i : Invocation) (s : fs.State) :
    (∃ k e lines, IsLeast {n | fs.Ends i s n} k ∧ Announces i.stages k lines ∧
      (fs.report i s).stderr = String.join lines ++ (e.map errorText).getD "" ∧
      (e = none ↔ (fs.report i s).exit = 0)) ∧
    ((fs.report i s).exit = 0 ↔ ∀ n ≤ i.stages, fs.Completes i s n) ∧
    (∀ n < 5, ¬ fs.Completes i s n → fs.after i s = s ∧ (fs.report i s).stdout = "" ∧
      ∃ k e, (fs.report i s).stderr = progress k i.stages ++ errorText e ∧
        compileFile i.input (fs.look s i.input) i.bestEffort = .error e.whole) ∧
    ((∀ n ≤ i.stages, fs.Completes i s n) →
      ∃ c, compileFile i.input (fs.look s i.input) i.bestEffort = .ok c ∧
        (fs.report i s).stdout = i.shown c ∧
        ∀ path, i.output = some path →
          fs.content (fs.after i s) path = some c.script.toUTF8.toList) ∧
    (i.output = none → fs.after i s = s ∧ ((fs.report i s).exit = 0 ↔
      ∃ c, compileFile i.input (fs.look s i.input) i.bestEffort = .ok c)) := by
  refine ⟨stderr_report fs i s, exit_report_eq_zero_iff, ?_, compiled_of_completes, ?_⟩
  · intro n hn h
    exact unchanged_of_not_completes hn h
  · intro h
    exact ⟨after_of_output_none h, exit_report_of_output_none h⟩

/-- A table of files, all of which can be read and written. -/
def table : FileSystem where
  State := String → Option Bytes
  look files path := (files path).map (FoundFile.mk path)
  content files path := files path
  write files path text := (true, Function.update files path (some text.toUTF8.toList))
  content_write := by
    intro files path text _
    exact Function.update_self path _ files

theorem look_table {files : table.State} {path : String} {content : Bytes}
    (h : files path = some content) : table.look files path = .file ⟨path, content⟩ := by
  simp only [table, h, Option.map_some]

/-- The text of a project that stops a motor. -/
def stopProject : String :=
  "\x7b\"targets\":[0,\x7b\"variables\":\x7b\x7d,\"lists\":\x7b\x7d,\"broadcasts\":\x7b\x7d," ++
    "\"blocks\":\x7b\"a\":\x7b\"opcode\":\"flipperevents_whenProgramStarts\"," ++
    "\"next\":\"b\",\"topLevel\":true\x7d,\"b\":\x7b\"opcode\":\"flippermotor_motorStop\"," ++
    "\"inputs\":\x7b\"PORT\":[1,[10,\"A\"]]\x7d\x7d\x7d\x7d],\"extensions\":[]\x7d"

def stopForest : Forest :=
  [[.hat none none, .action (.motor (.stop (.ports ['A'])))]]

/-- A table with the project as its only file. -/
def stopTable : table.State :=
  Function.update (fun _ => none) "input.lms"
    (some (Zip.archive (ProjectFile.bareProject stopProject)))

def writeScript : Invocation :=
  ⟨"input.lms", some "out.py", true, false⟩

theorem look_stopTable : table.look stopTable writeScript.input =
    .file ⟨"input.lms", Zip.archive (ProjectFile.bareProject stopProject)⟩ := by
  have hfile : stopTable "input.lms" =
      some (Zip.archive (ProjectFile.bareProject stopProject)) :=
    Function.update_self _ _ _
  have hinput : writeScript.input = "input.lms" := rfl
  rw [hinput, look_table hfile]

set_option maxRecDepth 4000 in
theorem read_stopProject : ∃ project,
    ProjectFile.read (Zip.archive (ProjectFile.bareProject stopProject)) = .ok project ∧
      lower project false = .ok stopForest := by
  have hfits : Zip.Fits (ProjectFile.bareProject stopProject) :=
    ⟨by decide +kernel, by decide, by decide +kernel⟩
  have hstray : ¬ Zip.StrayLocator (ProjectFile.bareProject stopProject) :=
    Zip.not_strayLocator (by decide) (by decide +kernel)
  have hholds : Zip.Holds (ProjectFile.bareProject stopProject) "project.json"
      stopProject.toUTF8.toList := by
    simp [Zip.Holds, ProjectFile.bareProject, ProjectFile.lure, ProjectFile.plain]
  obtain ⟨project, hproject, hlower⟩ : ∃ project, Json.parse? stopProject = some project ∧
      lower project false = .ok stopForest := by
    refine ⟨_, by rfl, ?_⟩
    with_unfolding_all rfl
  refine ⟨project, ?_, hlower⟩
  rw [ProjectFile.read_of_holds hfits hstray hholds, hproject]
  rfl

theorem generate_stopForest : ∃ program, Script.generate stopForest = .ok program ∧
    program.body = ["motor_a.stop()"] := by
  have hbody : Script.Program.body <$> Script.generate stopForest = .ok ["motor_a.stop()"] := by
    decide +kernel
  exact Script.map_eq_ok_iff.mp hbody

theorem report_stopProject : (table.report writeScript stopTable).exit = 0 ∧
    ∃ c program, compileFile "input.lms" (table.look stopTable "input.lms") false = .ok c ∧
      Script.generate stopForest = .ok program ∧
      program.body = ["motor_a.stop()"] ∧
      (table.report writeScript stopTable).stdout = program.text ∧
      table.after writeScript stopTable "out.py" = some program.text.toUTF8.toList := by
  obtain ⟨project, hread, hlower⟩ := read_stopProject
  obtain ⟨program, hgenerate, hbody⟩ := generate_stopForest
  have hcompiles := compiles_of_file look_stopTable hread hlower hgenerate
  have hall : ∀ n ≤ writeScript.stages, table.Completes writeScript stopTable n :=
    completes_le_stages_iff.mpr
      ⟨hcompiles.before, (completes_five_iff hcompiles).mpr fun _ _ => rfl⟩
  obtain ⟨-, hexit, -, hdone, -⟩ := report_all_or_nothing table writeScript stopTable
  obtain ⟨c, hc, hstdout, hcontent⟩ := hdone hall
  obtain rfl := Except.ok.inj (hc.symm.trans hcompiles.compile)
  exact ⟨hexit.mpr hall, _, program, hc, hgenerate, hbody, hstdout, hcontent "out.py" rfl⟩

end FileSystem

end CommandLine

end WordBlocks
