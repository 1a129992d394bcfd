import TriggerScript.Code.Routine
import TriggerScript.Script.Json

/-!
Code as JSON.
-/

namespace TriggerScript

def Opcode.tag (opcode : Opcode) : String :=
  String.join ((opcode.name.splitOn "_").map fun word => word.toLower.capitalize)

def Label.toJson (label : Label) : Json :=
  .object [("id", .nat label.id), ("name", .text label.name)]

def Operation.toJson : Operation → Json
  | .core opcode => .variant "Core" (.text opcode.tag)
  | .command name code =>
    .variant "Command" (.object [("name", .text name), ("code", .nat code.toNat)])

def Operand.toJson : Operand → Json
  | .int value => .variant "Int" (.int value.toInt)
  | .long value => .variant "Long" (.int value.toInt)
  | .text value => .variant "Str" (.text value)
  | .bool value => .variant "Bool" (.bool value)
  | .label target => .variant "Label" target.toJson
  | .localVar target => .variant "Local" target.toJson
  | .switch table => .variant "Switch" (.nat table)
  | .script trigger name id =>
    .variant "Script" (.object [
      ("trigger", .text trigger), ("name", .text name), ("id", .int id.toInt)])

namespace Routine

def instructionToJson (instruction : Instruction) : Json :=
  .object [("opcode", instruction.operation.toJson), ("operand", instruction.operand.toJson)]

def blockToJson (block : Block) : Json :=
  .object [
    ("label", block.label.toJson),
    ("instructions", Json.ofList instructionToJson block.instructions)]

def tableToJson (table : SwitchTable) : Json :=
  .object [("cases", table.cases.map (fun entry => Json.object [
    ("keys", Json.ofList (fun key => .int key.toInt) entry.keys),
    ("label", entry.label.toJson)]) |> .list)]

def byStackToJson (entries : List (Stack × Local)) : Json :=
  Json.ofList (fun stack => Json.ofList Local.toJson (LocalMap.onStack stack entries)) Stack.all

def localsToJson (locals : LocalMap) : Json :=
  .object [
    ("params", byStackToJson locals.params), ("variables", byStackToJson locals.declared)]

def toJson (routine : Routine) : Json :=
  .object [
    ("name", .text routine.name),
    ("blocks", .object [("blocks", Json.ofList blockToJson routine.blocks)]),
    ("switch_tables", Json.ofList tableToJson routine.tables),
    ("locals", localsToJson routine.locals)]

end Routine

end TriggerScript
