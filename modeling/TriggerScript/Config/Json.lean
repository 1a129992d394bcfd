import TriggerScript.Config.Record
import TriggerScript.Script.Json

/-!
Configurations as JSON.
-/

namespace TriggerScript

def Rule.display : Rule → String
  | range least greatest =>
    "Range \x7b min: " ++ Int.repr least.toInt ++ ", max: " ++ Int.repr greatest.toInt ++ " \x7d"
  | positive => "Positive"
  | emptyIfTrue => "EmitEmptyIfTrue"
  | emptyIfFalse => "EmitEmptyIfFalse"

def BoundProperty.ruleToJson (entry : ComponentRule) : Json :=
  .list [.nat entry.component, .text entry.rule.display]

def BoundProperty.toJson (property : BoundProperty) : Json :=
  .object [
    ("name", .text property.name), ("opcode", .nat property.opcode.toNat),
    ("components", Json.ofList Prim.toJson property.components),
    ("required", .bool property.required), ("allow_duplicates", .bool property.allowDuplicates),
    ("rules", Json.ofList ruleToJson property.rules),
    ("requires", Json.ofOption .text property.requires),
    ("emit_empty_when", Json.ofOption .bool property.emptyWhen?)]

def Binding.toJson (binding : Binding) : Json :=
  .object [
    ("group", binding.group.toJson), ("content_type", Json.ofOption .text binding.contentType),
    ("properties", Json.ofList BoundProperty.toJson binding.properties)]

def ConfigValue.formToJson : ValueForm → Json
  | .text value => .variant "Str" (.text value)
  | .int value => .variant "Int" (.int value.toInt)
  | .long value => .variant "Long" (.int value.toInt)
  | .bool value => .variant "Bool" (.bool value)
  | .type prim => .variant "Type" prim.toJson
  | .coordgrid value => .variant "Coordgrid" (.int value.toInt)
  | .constant name => .variant "Constant" name.toJson
  | .reference name => .variant "Reference" name.toJson
  | .error => .text "Error"

def ConfigValue.toJson (value : ConfigValue) : Json :=
  .object [("kind", formToJson value.form), ("span", value.span.toJson)]

def Property.toJson (property : Property) : Json :=
  .object [
    ("key", property.key.toJson), ("values", Json.ofList ConfigValue.toJson property.values),
    ("span", property.span.toJson)]

def Constant.toJson (constant : Constant) : Json :=
  .object [
    ("name", constant.name.toJson), ("value", constant.value.toJson),
    ("span", constant.span.toJson)]

def Config.toJson (config : Config) : Json :=
  .object [
    ("name", config.name.toJson), ("properties", Json.ofList Property.toJson config.properties),
    ("span", config.span.toJson)]

def Record.propertyToJson (property : RecordProperty) : Json :=
  .object [
    ("opcode", .nat property.opcode.toNat),
    ("values", Json.ofList (fun (prim, value) => .list [prim.toJson, value.toJson])
      property.values)]

def Record.toJson (record : Record) : Json :=
  .object [
    ("group", record.group.toJson), ("name", .text record.name),
    ("properties", Json.ofList propertyToJson record.properties)]

end TriggerScript
