import TriggerScript.Bytecode.Json
import TriggerScript.Config.Json
import TriggerScript.Main
import TriggerScript.Project.Tree
import TriggerScript.Proofs.Compiler.Acceptance
import TriggerScript.Proofs.Compiler.Artifacts
import TriggerScript.Proofs.Compiler.Commands
import TriggerScript.Proofs.Config.Decoding
import TriggerScript.Proofs.Config.Range
import TriggerScript.Proofs.Evaluation.Keys
import TriggerScript.Proofs.Generation.Hooks
import TriggerScript.Proofs.Generation.Preservation
import TriggerScript.Proofs.Optimization.FixedPoint
import TriggerScript.Proofs.Parsing.Constants
import TriggerScript.Proofs.Parsing.HookText
import TriggerScript.Proofs.Printing.RoundTrip
import TriggerScript.Proofs.Symbol.Runs
import TriggerScript.Proofs.Token.Comments
import TriggerScript.Proofs.Token.Interpolation
import TriggerScript.Proofs.Token.Operators
import TriggerScript.Proofs.Token.Packing
import TriggerScript.Symbol.Json
