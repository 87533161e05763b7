import WordBlocks.Compile

/-!
The command line. An invocation names the project file, perhaps a file for the script, and two
switches. Running it is a function of what is found at these places, so that all of its output is
known before anything is written. It is performed with the files of any system that can look for a
file and write one.
-/

namespace WordBlocks.CommandLine

/-- What the arguments ask for. -/
structure Invocation where
  input : String
  output : Option String
  /-- Print the script instead of the diagram. -/
  printScript : Bool
  bestEffort : Bool
deriving DecidableEq, Repr

/-- Arguments sorted so far. -/
structure Sorted where
  paths : List String
  printScript : Bool
  bestEffort : Bool
  /-- Whether all further arguments are paths. -/
  pathsOnly : Bool

/-- Takes one argument. A switch stands at most once, and a path is not empty. -/
def Sorted.add (s : Sorted) (argument : String) : Option Sorted :=
  let path : Option Sorted :=
    if argument.isEmpty then none else some { s with paths := s.paths ++ [argument] }
  if s.pathsOnly then path
  else if argument = "--" then some { s with pathsOnly := true }
  else if argument = "--python" then
    if s.printScript then none else some { s with printScript := true }
  else if argument = "--best-effort" then
    if s.bestEffort then none else some { s with bestEffort := true }
  else match argument.toList with
    | '-' :: _ :: _ => none
    | _ => path

/-- Reads the arguments. There are one or two paths. -/
def parse? (arguments : List String) : Option Invocation := do
  let s ← arguments.foldlM Sorted.add ⟨[], false, false, false⟩
  match s.paths with
  | [input] => return ⟨input, none, s.printScript, s.bestEffort⟩
  | [input, output] => return ⟨input, some output, s.printScript, s.bestEffort⟩
  | _ => failure

def usage : String :=
  "Usage: INPUT [OUTPUT] [--python] [--best-effort]\n"

/-- What an invocation meets: the input file, and whether the output file can be written. -/
structure Surroundings where
  input : Lookup
  writable : Bool

/-- What an invocation has to show when nothing goes wrong. -/
structure Product where
  stdout : String
  /-- The content of the output file. -/
  written : Option String
deriving DecidableEq, Repr

/-- Runs an invocation. Beside the product or the error it gives the number of stages that were
begun. -/
def Invocation.execute (i : Invocation) (s : Surroundings) : Nat × Except FileError Product :=
  match s.input.resolve i.input with
  | .error e => (1, .error e)
  | .ok full =>
    match s.input.project full with
    | .error e => (2, .error e)
    | .ok project =>
      match lower project i.bestEffort with
      | .error e => (3, .error (.notLowered full e))
      | .ok forest =>
        match Script.generate forest with
        | .error e => (4, .error (.notGenerated full e))
        | .ok program =>
          let script := program.text
          let stdout := if i.printScript then script else Diagram.render forest ++ "\n"
          match i.output with
          | none => (4, .ok ⟨stdout, none⟩)
          | some path =>
            if s.writable then (5, .ok ⟨stdout, some script⟩)
            else (5, .error (.notWritten path))

/-- The stages of a run. -/
def stageLabels : List String :=
  ["Resolving input path", "Reading .lms archive", "Filtering manifest and lowering blocks",
    "Generating Python", "Writing Python program"]

/-- The number of stages that an invocation goes through when nothing goes wrong. -/
def Invocation.stages (i : Invocation) : Nat :=
  if i.output.isSome then 5 else 4

/-- The width of the progress bar. -/
def barWidth : Nat := 14

/-- A bar that is filled in proportion to the steps done, rounded to the nearest place. -/
def progressBar (step total : Nat) : String :=
  let filled := (step * barWidth + total / 2) / total
  "[" ++ String.ofList (List.replicate (min filled barWidth) '=') ++
    String.ofList (List.replicate (barWidth - filled) '-') ++ "]"

/-- The line that announces a stage. -/
def progressLine (total : Nat) (stage : String × Nat) : String :=
  let step := stage.2 + 1
  "[Compile] " ++ stage.1 ++ "... (" ++ toString step ++ "/" ++ toString total ++ ") " ++
    progressBar step total ++ "\n"

/-- The lines that announce the first stages. -/
def progress (begun total : Nat) : String :=
  String.join ((stageLabels.zipIdx.take begun).map (progressLine total))

/-- A text moved four places in. -/
def indent (s : String) : String :=
  "    " ++ String.ofList (s.toList.flatMap fun c => if c = '\n' then "\n    ".toList else [c])

/-- The report of an error, with its cause. -/
def errorText (e : FileError) : String :=
  "Error: " ++ e.message ++ "\n" ++
    match e.cause? with
    | some cause => "\nCaused by:\n" ++ indent cause.message ++ "\n"
    | none => ""

/-- All that a run leaves behind. -/
structure Report where
  exit : Nat
  stdout : String
  stderr : String
  /-- The content of the output file, if it is written. -/
  written : Option String
deriving DecidableEq, Repr

/-- Runs an invocation and reports. -/
def Invocation.run (i : Invocation) (s : Surroundings) : Report :=
  let (begun, result) := i.execute s
  let lines := progress begun i.stages
  match result with
  | .ok p => ⟨0, p.stdout, lines, p.written⟩
  | .error e => ⟨1, "", lines ++ errorText e, none⟩

/-- Access to files. -/
structure Files (m : Type → Type) where
  look : String → m Lookup
  /-- Writes a text to the file at a path and says whether that succeeded. -/
  write : String → String → m Bool

/-- Performs an invocation. The output file is written last, when the script is complete. -/
def Invocation.perform {m : Type → Type} [Monad m] (files : Files m) (i : Invocation) :
    m Report := do
  let input ← files.look i.input
  let planned := i.run ⟨input, true⟩
  match i.output, planned.written with
  | some path, some text =>
    let stored ← files.write path text
    return if stored then planned else i.run ⟨input, false⟩
  | _, _ => return planned

end WordBlocks.CommandLine
