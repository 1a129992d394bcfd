import TriggerScript.Settings.Json
import TriggerScript.Value.Json

/-!
Symbols as JSON.
-/

namespace TriggerScript

def ConstantInfo.toJson (info : ConstantInfo) : Json :=
  .object [("name", .text info.name), ("ty", info.prim.toJson), ("value", info.value.toJson)]

def CommandInfo.toJson (info : CommandInfo) : Json :=
  .object [
    ("name", .text info.name), ("opcode", .nat info.opcode.toNat),
    ("args", Json.ofList Prim.toJson info.args), ("returns", info.returns.toJson),
    ("alternative", .bool info.alternative)]

def ScriptInfo.toJson (info : ScriptInfo) : Json :=
  .object [
    ("trigger", .text info.trigger), ("name", .text info.name),
    ("params", Json.ofList Prim.toJson info.params), ("returns", info.returns.toJson),
    ("id", .nat info.id)]

def ConfigInfo.toJson (info : ConfigInfo) : Json :=
  .object [
    ("name", .text info.name), ("ty", info.prim.toJson),
    ("content_type", Json.ofOption Prim.toJson info.content), ("id", .nat info.id)]

def GlobalInfo.toJson (info : GlobalInfo) : Json :=
  .object [
    ("name", .text info.name), ("domain", .text info.domain.word), ("ty", info.prim.toJson),
    ("id", .int info.id.toInt)]

end TriggerScript
