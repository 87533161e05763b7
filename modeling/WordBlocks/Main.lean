import WordBlocks.CommandLine

/-!
The program. It performs an invocation with the files of the system and puts what is reported where
it belongs.
-/

namespace WordBlocks.CommandLine

/-- What a file with a full path comes to. -/
def readFound (full : String) : IO Lookup := do
  try
    let content ← IO.FS.readBinFile full
    return .file ⟨full, content.toList⟩
  catch _ => return .unreadable full

/-- Looks for the file at a path. -/
def findFile (path : String) : IO Lookup := do
  let named := (← IO.currentDir) / path
  let isFile ← try pure ((← named.metadata).type == .file) catch _ => pure false
  if !isFile then return .nothing
  try
    let full ← IO.FS.realPath named
    readFound full.toString
  catch e => return .unresolved (toString e)

/-- Writes a text to the file at a path and says whether that succeeded. -/
def store (path text : String) : IO Bool := do
  try
    IO.FS.writeFile path text
    return true
  catch _ => return false

end WordBlocks.CommandLine

open WordBlocks in
def main (arguments : List String) : IO UInt32 := do
  match CommandLine.parse? arguments with
  | none =>
    (← IO.getStderr).putStr CommandLine.usage
    return 2
  | some invocation =>
    let report ← invocation.perform ⟨CommandLine.findFile, CommandLine.store⟩
    (← IO.getStderr).putStr report.stderr
    (← IO.getStdout).putStr report.stdout
    return report.exit.toUInt32
