import TriggerScript.Bytecode.Resolve
import TriggerScript.Value.Json

/-!
Bytecode as JSON.
-/

namespace TriggerScript

def ResolvedOperand.toJson : ResolvedOperand → Json
  | .int value => .variant "Int" (.int value.toInt)
  | .long value => .variant "Long" (.int value.toInt)
  | .text value => .variant "Str" (.text value)

namespace Bytecode

def instructionToJson (instruction : ResolvedInstruction) : Json :=
  .list [.nat instruction.code.toNat, .bool instruction.large, instruction.operand.toJson]

def tableToJson (table : JumpTable) : Json :=
  Json.ofList (fun (key, offset) => .list [.int key.toInt, .int offset.toInt]) table

def countsToJson (counts : StackCounts) : Json := Json.ofList Json.nat (counts.toList true)

def toJson (bytecode : Bytecode) : Json :=
  .object [
    ("name", .text bytecode.name),
    ("instructions", Json.ofList instructionToJson bytecode.instructions),
    ("params", countsToJson bytecode.params), ("locals", countsToJson bytecode.locals),
    ("tables", Json.ofList tableToJson bytecode.tables)]

end Bytecode

end TriggerScript
