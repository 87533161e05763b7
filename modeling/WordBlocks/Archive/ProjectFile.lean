import WordBlocks.Archive.Zip
import WordBlocks.Json.Reader

/-!
Project files. A project file is a zip archive that holds `scratch.sb3`, which is itself an archive
and holds `project.json`. An archive with `project.json` at its top is taken too.
-/

namespace WordBlocks

/-- Why a project file cannot be read. -/
inductive ArchiveError where
  | notZip
  | noInnerArchive
  | innerNotZip
  | noProject
  | notJson
  /-- The data of an entry are damaged, or are not text. -/
  | unreadable
deriving DecidableEq, Repr

/-- The wording of an error; damage to the data is reported without one. -/
def ArchiveError.message? : ArchiveError → Option String
  | notZip => some "Outer archive is not a valid zip file."
  | noInnerArchive => some "scratch.sb3 not found in archive."
  | innerNotZip => some "scratch.sb3 is not a valid zip file."
  | noProject => some "project.json not found in scratch.sb3."
  | notJson => some "Invalid project.json."
  | unreadable => none

namespace ProjectFile

/-- Turns a missing value into an error. -/
def orElse {ε α : Type} (e : ε) : Option α → Except ε α
  | some a => .ok a
  | none => .error e

/-- The content of the entry with a name; `missing` is the error when there is none that can be
opened. -/
def extract (file : Bytes) (entries : List Zip.Entry) (name : String) (missing : ArchiveError) :
    Except ArchiveError Bytes := do
  let e ← orElse missing (Zip.find? entries name)
  let data ← orElse missing (Zip.data? file e)
  orElse .unreadable (e.content? data)

/-- Reads `project.json` from an archive. -/
def readProject (file : Bytes) (entries : List Zip.Entry) : Except ArchiveError Json := do
  let bytes ← extract file entries "project.json" .noProject
  let text ← orElse .unreadable (Bytes.utf8? bytes)
  orElse .notJson (Json.parse? text)

/-- Reads a project file. -/
def read (file : Bytes) : Except ArchiveError Json := do
  let outer ← orElse .notZip (Zip.entries? file)
  if (Zip.find? outer "project.json").isSome then readProject file outer
  else
    let inner ← extract file outer "scratch.sb3" .noInnerArchive
    let entries ← orElse .innerNotZip (Zip.entries? inner)
    readProject inner entries

end ProjectFile

end WordBlocks
