import TriggerScript.Config.Binding
import TriggerScript.Config.Tree
import TriggerScript.Diagnostic

/-!
Configurations as records of bytes.

A record is a sequence of properties, each an opcode and its values, and ends in a zero byte. A
property that is written empty or not at all, by the truth of its value, has no values in the
record.
-/

namespace TriggerScript

/-- A property with its values, each with the type in which it is written. -/
structure RecordProperty where
  opcode : UInt8
  values : List (Prim × Value)
  deriving DecidableEq

/-- A configuration without names. -/
structure Record where
  group : Prim
  name : String
  properties : List RecordProperty
  deriving DecidableEq

def ConfigValue.resolve (symbols : SymbolTable) (value : ConfigValue) : Except Diagnostic Value :=
  match value.form with
  | .text value => .ok (.text value)
  | .int value | .coordgrid value => .ok (.int value)
  | .long value => .ok (.long value)
  | .bool value => .ok (.bool value)
  | .type prim => .ok (.type prim)
  | .constant name =>
    match symbols.constant? name.text with
    | some info => .ok info.value
    | none => .error ⟨.internal (.unresolvedName name.text), value.span⟩
  | .reference name =>
    match symbols.config? name.text with
    | some info => .ok (.int (Int32.ofNat info.id))
    | none => .error ⟨.internal (.unresolvedName name.text), value.span⟩
  | .error => .error ⟨.internal .errorValue, value.span⟩

/-- A property as its rules want it written: with its values, without them, or not at all. -/
def RecordProperty.emitted (bound : BoundProperty) (values : List (Prim × Value)) :
    Option RecordProperty :=
  match bound.emptyWhen?, values with
  | some truth, [(_, .bool value)] => if value = truth then some ⟨bound.opcode, []⟩ else none
  | _, _ => some ⟨bound.opcode, values⟩

namespace Record

def generateProperty (symbols : SymbolTable) (binding : Binding) (property : Property) :
    Except Diagnostic (Option RecordProperty) := do
  match Binding.property? binding.properties property.key.text with
  | none => throw ⟨.internal (.unknownProperty property.key.text), property.key.span⟩
  | some bound =>
    let values ← (property.values.zip bound.components).mapM fun (value, prim) => do
      return (prim, ← value.resolve symbols)
    return RecordProperty.emitted bound values

def generate (symbols : SymbolTable) (binding : Binding) (config : Config) :
    Except Diagnostic Record := do
  let properties ← config.properties.mapM (generateProperty symbols binding)
  return ⟨binding.group, config.name.text, properties.filterMap id⟩

def valueBytes (name : String) (entry : Prim × Value) : Except Diagnostic (List Byte) :=
  match entry.1.encoding?.bind fun encoding => encoding.write? entry.2 with
  | some bytes => .ok bytes
  | none => .error ⟨.internal (.unencodable entry.2 entry.1 name), Span.empty⟩

def propertyBytes (name : String) (property : RecordProperty) : Except Diagnostic (List Byte) := do
  return property.opcode :: (← property.values.mapM (valueBytes name)).flatten

def encode (record : Record) : Except Diagnostic (List Byte) := do
  return (← record.properties.mapM (propertyBytes record.name)).flatten ++ [0]

end Record

end TriggerScript
