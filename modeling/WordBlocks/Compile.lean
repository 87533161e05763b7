import WordBlocks.Archive.ProjectFile
import WordBlocks.Diagram
import WordBlocks.Lowering.Stack
import WordBlocks.Script.Program

/-!
The compiler as a whole: from a project, given as JSON, as text or as a file, to its program, its
script and its diagram.
-/

namespace WordBlocks

/-- What a compilation produces. -/
structure Compiled where
  forest : Forest
  script : String
  diagram : String

/-- The program of a project. With `bestEffort` unknown blocks do not stop the compilation. -/
def lower (project : Json) (bestEffort : Bool) : Except CompileError Forest := do
  let p ← Project.ofJson project
  p.forest bestEffort

/-- Compiles a project. -/
def compile (project : Json) (bestEffort : Bool) : Except CompileError Compiled := do
  let forest ← lower project bestEffort
  let program ← Script.generate forest
  return ⟨forest, program.text, Diagram.render forest⟩

/-- Why the text of a project is not compiled. -/
inductive SourceError where
  | notJson
  | rejected (cause : CompileError)
deriving DecidableEq, Repr

/-- Compiles the text of a project. -/
def compileText (text : String) (bestEffort : Bool) : Except SourceError Compiled :=
  match Json.parse? text with
  | none => .error .notJson
  | some project =>
    match compile project bestEffort with
    | .ok c => .ok c
    | .error e => .error (.rejected e)

/-- Why a project file is not compiled. Paths are named as they are shown to the user. -/
inductive FileError where
  | notFound (path : String)
  /-- There is a file, but the way to it is not found out. -/
  | notResolved (reason : String)
  | notOpened (path : String)
  | invalidFile (path : String)
  | notCompiled (path : String) (cause : CompileError)
  | notLowered (path : String) (cause : CompileError)
  | notGenerated (path : String) (cause : CompileError)
  | notWritten (path : String)
deriving DecidableEq, Repr

namespace FileError

def message : FileError → String
  | notFound path => "Input file not found: '" ++ path ++ "'."
  | notResolved reason => reason
  | notOpened path => "Failed to open '" ++ path ++ "'."
  | invalidFile path => "Invalid .lms file '" ++ path ++ "'."
  | notCompiled path _ => "Failed to compile '" ++ path ++ "'."
  | notLowered path _ => "Failed to lower '" ++ path ++ "'."
  | notGenerated path _ => "Failed to generate Python for '" ++ path ++ "'."
  | notWritten path => "Failed to write '" ++ path ++ "'."

/-- The error of the compilation that is behind this one. -/
def cause? : FileError → Option CompileError
  | notCompiled _ e | notLowered _ e | notGenerated _ e => some e
  | notFound _ | notResolved _ | notOpened _ | invalidFile _ | notWritten _ => none

end FileError

/-- A file that was found: its full path and its content. -/
structure FoundFile where
  path : String
  content : Bytes

/-- What a search at a path comes to. -/
inductive Lookup where
  | nothing
  /-- There is a file, but its full path is not found out. -/
  | unresolved (reason : String)
  /-- There is a file with this full path, but it cannot be read. -/
  | unreadable (path : String)
  | file (found : FoundFile)

instance : Coe (Option FoundFile) Lookup where
  coe
    | some found => .file found
    | none => .nothing

namespace Lookup

/-- The full path of the file at a path. -/
def resolve (path : String) : Lookup → Except FileError String
  | nothing => .error (.notFound path)
  | unresolved reason => .error (.notResolved reason)
  | unreadable full => .ok full
  | file found => .ok found.path

def content? : Lookup → Option Bytes
  | file found => some found.content
  | nothing | unresolved _ | unreadable _ => none

/-- The project in the file with a full path. -/
def project (found : Lookup) (full : String) : Except FileError Json :=
  match found.content? with
  | none => .error (.notOpened full)
  | some bytes =>
    match ProjectFile.read bytes with
    | .error _ => .error (.invalidFile full)
    | .ok project => .ok project

end Lookup

/-- Compiles the file at a path, given what was found there. -/
def compileFile (path : String) (found : Lookup) (bestEffort : Bool) :
    Except FileError Compiled := do
  let full ← found.resolve path
  let project ← found.project full
  match compile project bestEffort with
  | .ok c => .ok c
  | .error e => .error (.notCompiled full e)

end WordBlocks
