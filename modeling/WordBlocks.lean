import WordBlocks.Main
import WordBlocks.Proofs.OperatorText
import WordBlocks.Proofs.Suites
import WordBlocks.Proofs.PhysicalLines
import WordBlocks.Proofs.Faults
import WordBlocks.Proofs.BestEffort
import WordBlocks.Proofs.BlockParts
import WordBlocks.Proofs.References
import WordBlocks.Proofs.Collisions
import WordBlocks.Proofs.Reachable
import WordBlocks.Proofs.DiagramReader
import WordBlocks.Proofs.PythonTokens
import WordBlocks.Proofs.PythonGrammar
import WordBlocks.Proofs.PythonText
import WordBlocks.Proofs.ExprSyntax
import WordBlocks.Proofs.OwnNames
import WordBlocks.Proofs.KnownDemands
import WordBlocks.Proofs.LineNames
import WordBlocks.Proofs.LineOrigins
import WordBlocks.Proofs.Bindings
import WordBlocks.Proofs.LooseStacks
import WordBlocks.Proofs.ExactValues
import WordBlocks.Proofs.StoredArchive
import WordBlocks.Proofs.StrayLocator
import WordBlocks.Proofs.AllOrNothing
import WordBlocks.Proofs.NextLinks
import WordBlocks.Proofs.ScriptFailures
import WordBlocks.Proofs.Indentation
import WordBlocks.Proofs.LightPattern
import WordBlocks.Proofs.SafeTexts
import WordBlocks.Proofs.PortSlots
import WordBlocks.Proofs.CallArguments
import WordBlocks.Proofs.Brightness
import WordBlocks.Proofs.FloatLiterals
import WordBlocks.Proofs.ExprFrame
