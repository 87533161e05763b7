import WordBlocks.Script.Action

/-!
Whole scripts. `generate` turns a program into a script: each stack that starts with a hat becomes
lines of the body, a stack without a hat becomes a note, and what the lines need is declared before
them. `Program.text` puts the sections together.
-/

namespace WordBlocks

mutual

/-- Whether the brightness of the light matrix is set somewhere in a statement. -/
def Stmt.setsBrightness : Stmt → Bool
  | .hat _ _ => false
  | .action a =>
    match a with
    | .light (.setBrightness _) => true
    | _ => false
  | .repeatTimes _ body => Stack.setsBrightness body
  | .forever body => Stack.setsBrightness body
  | .repeatUntil _ body => Stack.setsBrightness body
  | .ifThen _ body => Stack.setsBrightness body
  | .ifElse _ body orElse => Stack.setsBrightness body || Stack.setsBrightness orElse

/-- Whether the brightness of the light matrix is set somewhere in a stack. -/
def Stack.setsBrightness : List Stmt → Bool
  | [] => false
  | first :: rest => first.setsBrightness || Stack.setsBrightness rest

end

namespace Script

def repeatCountNote : String :=
  "# Note: repeat counts are whole numbers, so the value is converted with int()."

def looseStackNote : String :=
  "# Note: a stack without a when program starts block never runs, so it is left out."

namespace Emit

mutual

/-- Adds the lines of a statement. -/
def stmt : Stmt → Emit Unit
  | .hat _ _ => throw (.brokenPromise .hatInsideStack)
  | .action a => action a
  | .repeatTimes times body => do
    let n ← expr times
    line repeatCountNote
    line ("for _ in range(int(" ++ n ++ ")):")
    suite body
  | .forever body => do
    line "while True:"
    suite body
  | .repeatUntil condition body => do
    let c ← expr condition
    line ("while not (" ++ c ++ "):")
    suite body
  | .ifThen condition body => do
    let c ← expr condition
    line ("if (" ++ c ++ "):")
    suite body
  | .ifElse condition body orElse => do
    let c ← expr condition
    line ("if (" ++ c ++ "):")
    suite body
    line "else:"
    suite orElse

/-- Adds the lines of a stack. -/
def stack : List Stmt → Emit Unit
  | [] => return ()
  | first :: rest => do
    stmt first
    stack rest

/-- Adds the lines of a body one tab further in. A body without statements does nothing. -/
def suite : List Stmt → Emit Unit
  | [] => indented (line "pass")
  | first :: rest => indented do
    stmt first
    stack rest

end

/-- Adds the lines of the stacks of a program. The flag says whether a stack with a hat has come
before: a script has one thread, so the further ones are marked. -/
def roots (started : Bool) : Forest → Emit Unit
  | [] => return ()
  | root :: rest => do
    match root with
    | .hat _ _ :: body =>
      if started then placeholder "when program starts" (some .parallelStacks)
      stack body
      roots true rest
    | _ =>
      line looseStackNote
      roots started rest

end Emit

/-- A generated script in its sections. -/
structure Program where
  preamble : String
  declarations : List String
  functions : List String
  body : List String
deriving DecidableEq, Repr

def Draft.finish (d : Draft) : Program where
  preamble := d.preamble
  declarations := d.declarations
  functions := d.functions
  body := d.body

/-- Generates the script of a program. -/
def generate (forest : Forest) : Except CompileError Program := do
  let ((), draft) ← (Emit.roots false forest).run (.empty (forest.any Stack.setsBrightness))
  return draft.finish

/-- Lines, each with its end. -/
def unlines (texts : List String) : String :=
  String.join (texts.map (· ++ "\n"))

/-- The text of a script. -/
def Program.text (p : Program) : String :=
  p.preamble ++ "# Create your objects here.\n" ++ unlines p.declarations ++
    (if p.functions.isEmpty then ""
      else "# Declare you functions here.\n" ++ unlines p.functions) ++
    "# Write your program here.\n" ++ unlines p.body

end Script

end WordBlocks
