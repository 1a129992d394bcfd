import TriggerScript.Json.Record
import TriggerScript.Settings.Basic

/-!
Settings as JSON.

Every field of the settings themselves may be absent and then has its default. A trigger needs a
name, a command a name and an opcode; a global variable and a kind of configuration need most of
what they have.
-/

namespace TriggerScript

def CallKind.words : List (String × CallKind) := [("gosub", gosub), ("jump", jump)]

def CallKind.word : CallKind → String
  | gosub => "gosub"
  | jump => "jump"

def TriggerSettings.ofJson? (json : Json) : Option TriggerSettings := do
  match ← json.fields? ["name", "operator", "call", "params", "returns"] with
  | [name, operator, call, params, returns] =>
    return {
      name := ← Json.required Json.asText? name
      operator := ← Json.defaulted none (Json.nullable? Json.asText?) operator
      call := ← Json.defaulted none (Json.nullable? (Json.asChoice? CallKind.words)) call
      params := ← Json.defaulted false Json.asBool? params
      returns := ← Json.defaulted false Json.asBool? returns }
  | _ => none

def TriggerSettings.toJson (settings : TriggerSettings) : Json := .object [
  ("name", .text settings.name),
  ("operator", Json.ofOption .text settings.operator),
  ("call", Json.ofOption (fun kind => .text kind.word) settings.call),
  ("params", .bool settings.params),
  ("returns", .bool settings.returns)]

def CommandSettings.ofJson? (json : Json) : Option CommandSettings := do
  match ← json.fields? ["name", "opcode", "args", "returns", "alternative"] with
  | [name, opcode, args, returns, alternative] =>
    return {
      name := ← Json.required Json.asText? name
      opcode := UInt16.ofNat (← Json.required (Json.asBelow? UInt16.size) opcode)
      args := ← Json.defaulted [] (Json.asList? Json.asText?) args
      returns := ← Json.defaulted [] (Json.asList? Json.asText?) returns
      alternative := ← Json.defaulted false Json.asBool? alternative }
  | _ => none

def CommandSettings.toJson (settings : CommandSettings) : Json := .object [
  ("name", .text settings.name),
  ("opcode", .nat settings.opcode.toNat),
  ("args", Json.ofList .text settings.args),
  ("returns", Json.ofList .text settings.returns),
  ("alternative", .bool settings.alternative)]

def Domain.words : List (String × Domain) := [
  ("player", player), ("player_bit", playerBit), ("client_int", clientInt),
  ("client_string", clientString)]

def Domain.word : Domain → String
  | player => "player"
  | playerBit => "player_bit"
  | clientInt => "client_int"
  | clientString => "client_string"

def GlobalSettings.ofJson? (json : Json) : Option GlobalSettings := do
  match ← json.fields? ["name", "domain", "type", "id"] with
  | [name, domain, typeName, id] =>
    return {
      name := ← Json.required Json.asText? name
      domain := ← Json.required (Json.asChoice? Domain.words) domain
      typeName := ← Json.required Json.asText? typeName
      id := ← Json.required Json.asInt32? id }
  | _ => none

def GlobalSettings.toJson (settings : GlobalSettings) : Json := .object [
  ("name", .text settings.name),
  ("domain", .text settings.domain.word),
  ("type", .text settings.typeName),
  ("id", .int settings.id.toInt)]

namespace Rule

def rangeOf? (content : Json) : Option Rule := do
  match ← content.fields? ["min", "max"] with
  | [least, greatest] =>
    return .range (← Json.required Json.asInt32? least) (← Json.required Json.asInt32? greatest)
  | _ => none

/-- The rule of a kind, which takes the bounds of a range from the rest of its description. -/
def ofKind? (content : Json) : String → Option Rule
  | "range" => rangeOf? content
  | "positive" => bare positive
  | "emit_empty_if_true" => bare emptyIfTrue
  | "emit_empty_if_false" => bare emptyIfFalse
  | _ => none
where
  bare (rule : Rule) : Option Rule :=
    match content with
    | .object _ | .list [] => some rule
    | _ => none

/-- A rule names its kind in a field of its own, or first in a list. -/
def described? : Json → Option Rule
  | .object members => do
    match ← Json.namedFields? ["kind"] members with
    | [some (.text kind)] => ofKind? (.object (members.filter fun entry => entry.1 ≠ "kind")) kind
    | _ => none
  | .list (.text kind :: content) => ofKind? (.list content) kind
  | _ => none

/-- The kind of a rule may stand behind what belongs to it, so that nothing in a rule is passed over
unread. -/
def ofJson? (json : Json) : Option Rule := if json.isSound then described? json else none

def toJson : Rule → Json
  | range least greatest => .object [
    ("kind", .text "range"), ("min", .int least.toInt), ("max", .int greatest.toInt)]
  | positive => .object [("kind", .text "positive")]
  | emptyIfTrue => .object [("kind", .text "emit_empty_if_true")]
  | emptyIfFalse => .object [("kind", .text "emit_empty_if_false")]

end Rule

def ComponentRule.ofJson? (json : Json) : Option ComponentRule := do
  match ← json.fields? ["component", "rule"] with
  | [component, rule] =>
    return {
      component := ← Json.defaulted 0 (Json.asBelow? UInt64.size) component
      rule := ← Json.required Rule.ofJson? rule }
  | _ => none

def ComponentRule.toJson (rule : ComponentRule) : Json := .object [
  ("component", .nat rule.component), ("rule", rule.rule.toJson)]

def PropertySettings.ofJson? (json : Json) : Option PropertySettings := do
  match ← json.fields? ["name", "opcode", "components", "required", "allow_duplicates", "rules",
      "requires", "repeat"] with
  | [name, opcode, components, required, allowDuplicates, rules, requires, copies] =>
    return {
      name := ← Json.required Json.asText? name
      opcode := UInt8.ofNat (← Json.required (Json.asBelow? UInt8.size) opcode)
      components := ← Json.required (Json.asList? Json.asText?) components
      required := ← Json.defaulted false Json.asBool? required
      allowDuplicates := ← Json.defaulted false Json.asBool? allowDuplicates
      rules := ← Json.defaulted [] (Json.asList? ComponentRule.ofJson?) rules
      requires := ← Json.defaulted none (Json.nullable? Json.asText?) requires
      copies := ← Json.defaulted none (Json.nullable? (Json.asBelow? UInt32.size)) copies }
  | _ => none

def PropertySettings.toJson (settings : PropertySettings) : Json := .object [
  ("name", .text settings.name),
  ("opcode", .nat settings.opcode.toNat),
  ("components", Json.ofList .text settings.components),
  ("required", .bool settings.required),
  ("allow_duplicates", .bool settings.allowDuplicates),
  ("rules", Json.ofList ComponentRule.toJson settings.rules),
  ("requires", Json.ofOption .text settings.requires),
  ("repeat", Json.ofOption .nat settings.copies)]

def BindingSettings.ofJson? (json : Json) : Option BindingSettings := do
  match ← json.fields? ["group", "content_type", "properties"] with
  | [group, contentType, properties] =>
    return {
      group := ← Json.required Json.asText? group
      contentType := ← Json.defaulted none (Json.nullable? Json.asText?) contentType
      properties := ← Json.required (Json.asList? PropertySettings.ofJson?) properties }
  | _ => none

def BindingSettings.toJson (settings : BindingSettings) : Json := .object [
  ("group", .text settings.group),
  ("content_type", Json.ofOption .text settings.contentType),
  ("properties", Json.ofList PropertySettings.toJson settings.properties)]

namespace Settings

def fieldNames : List String := [
  "version", "supports_long_primitive_type", "array_capacity", "optimize",
  "max_optimizer_iterations", "script_extensions", "constant_extension", "triggers", "commands",
  "globals", "configs", "opcodes"]

def asOpcode? (json : Json) : Option UInt16 := (json.asBelow? UInt16.size).map UInt16.ofNat

def ofJson? (json : Json) : Option Settings := do
  match ← json.fields? fieldNames with
  | [version, supportsLong, arrayCapacity, optimize, maxIterations, scriptExtensions,
      constantExtension, triggers, commands, globals, configs, opcodes] =>
    return {
      version := ← Json.defaulted default.version (Json.asBelow? UInt32.size) version
      supportsLong := ← Json.defaulted default.supportsLong Json.asBool? supportsLong
      arrayCapacity :=
        ← Json.defaulted default.arrayCapacity (Json.asBelow? UInt64.size) arrayCapacity
      optimize := ← Json.defaulted default.optimize Json.asBool? optimize
      maxIterations :=
        ← Json.defaulted default.maxIterations (Json.asBelow? UInt64.size) maxIterations
      scriptExtensions :=
        ← Json.defaulted default.scriptExtensions (Json.asList? Json.asText?) scriptExtensions
      constantExtension := ← Json.defaulted default.constantExtension Json.asText? constantExtension
      triggers := ← Json.defaulted default.triggers (Json.asList? TriggerSettings.ofJson?) triggers
      commands := ← Json.defaulted default.commands (Json.asList? CommandSettings.ofJson?) commands
      globals := ← Json.defaulted default.globals (Json.asList? GlobalSettings.ofJson?) globals
      configs := ← Json.defaulted default.configs (Json.asEntries? BindingSettings.ofJson?) configs
      opcodes := ← Json.defaulted default.opcodes (Json.asEntries? asOpcode?) opcodes }
  | _ => none

def toJson (settings : Settings) : Json := .object [
  ("version", .nat settings.version),
  ("supports_long_primitive_type", .bool settings.supportsLong),
  ("array_capacity", .nat settings.arrayCapacity),
  ("optimize", .bool settings.optimize),
  ("max_optimizer_iterations", .nat settings.maxIterations),
  ("script_extensions", Json.ofList .text settings.scriptExtensions),
  ("constant_extension", .text settings.constantExtension),
  ("triggers", Json.ofList TriggerSettings.toJson settings.triggers),
  ("commands", Json.ofList CommandSettings.toJson settings.commands),
  ("globals", Json.ofList GlobalSettings.toJson settings.globals),
  ("configs", .object (settings.configs.map fun (name, binding) => (name, binding.toJson))),
  ("opcodes", .object (settings.opcodes.map fun (name, code) => (name, .nat code.toNat)))]

end Settings

end TriggerScript
