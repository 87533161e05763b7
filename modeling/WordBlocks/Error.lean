/-!
Reasons why a project does not become a script, and the wording of each.
-/

namespace WordBlocks

/-- What is wrong with the project file. -/
inductive Malformation where
  | noTargets
  | tooFewTargets (found : Nat)
  | noSection (key : String)
  | declarationNotArray (kind id : String)
  | declarationWithoutName (kind id : String)
  | noExtensions
  | missingBlock (id : String)
  | cyclicChain (id : String)
  /-- The block is needed to work out one of its own slots. -/
  | cyclicNesting (id : String)
  | unexpectedBinding (binding : String)
  | bindingWithoutKind (binding : String)
  | noSound (opcode : String)
  | missingField (opcode field : String)
  | referenceWithoutName
deriving DecidableEq, Repr

/-- What stands in a port slot instead of ports. -/
inductive PortFault where
  | missingInput (slot opcode : String)
  | reporter (opcode : String)
  | numericLiteral
  | binding (text : String)
  | selector (letters : String)
  | pairSelector (letters : String)
  | operand (label : String)
  | pairOperand (label : String)
deriving DecidableEq, Repr

/-- A promise between lowering and script generation that a program breaks. -/
inductive Breach where
  | emptyPorts
  | hatInsideStack
  | percentRotation
  | missingArgument (function : String)
deriving DecidableEq, Repr

/-- Everything that can stop a project from becoming a script. -/
inductive CompileError where
  | malformed (cause : Malformation)
  | unsupportedOpcode (opcode : String)
  | unsupportedPort (fault : PortFault)
  | invalidChoice (kind raw : String)
  | invalidIndex (palette : String) (index : Int)
  | brokenPromise (breach : Breach)
deriving DecidableEq, Repr

def Malformation.message : Malformation → String
  | noTargets => "missing 'targets' array."
  | tooFewTargets n => "expected at least 2 targets, found " ++ toString n ++ "."
  | noSection key => "program target missing '" ++ key ++ "' object."
  | declarationNotArray kind id => kind ++ " '" ++ id ++ "' is not an array."
  | declarationWithoutName kind id => kind ++ " '" ++ id ++ "' has no name."
  | noExtensions => "missing 'extensions' array."
  | missingBlock id => "missing block '" ++ id ++ "'."
  | cyclicChain id => "cyclic block chain at '" ++ id ++ "'."
  | cyclicNesting id => "cyclic block nesting at '" ++ id ++ "'."
  | unexpectedBinding b => "unexpected slot binding " ++ b ++ "."
  | bindingWithoutKind b => "slot binding " ++ b ++ " has no kind tag."
  | noSound opcode => opcode ++ " has no sound selected."
  | missingField opcode field => opcode ++ " block is missing field '" ++ field ++ "'."
  | referenceWithoutName => "variable reference without a name."

def PortFault.message : PortFault → String
  | missingInput slot opcode => "missing '" ++ slot ++ "' input on " ++ opcode
  | reporter opcode => opcode
  | numericLiteral => "numeric literal"
  | binding text => text
  | selector letters => "port selector '" ++ letters ++ "'"
  | pairSelector letters => "movement pair '" ++ letters ++ "'"
  | operand label => label
  | pairOperand label => "movement pair " ++ label

def Breach.message : Breach → String
  | emptyPorts => "empty port list."
  | hatInsideStack => "hat block found inside a stack."
  | percentRotation => "motor rotation cannot be set in percent."
  | missingArgument function => function ++ " needs two arguments."

/-- The wording of an error. -/
def CompileError.message : CompileError → String
  | malformed cause => "Malformed manifest: " ++ cause.message
  | unsupportedOpcode opcode => "Unsupported opcode '" ++ opcode ++ "'."
  | unsupportedPort fault => "Unsupported port expression: " ++ fault.message ++ "."
  | invalidChoice kind raw => "Invalid " ++ kind ++ " value '" ++ raw ++ "'."
  | invalidIndex palette index =>
    "No " ++ palette ++ " entry at index " ++ toString index ++ "."
  | brokenPromise breach => "Internal invariant violated: " ++ breach.message

end WordBlocks
