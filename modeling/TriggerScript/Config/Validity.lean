import TriggerScript.Config.Binding
import TriggerScript.Config.Tree
import TriggerScript.Diagnostic

/-!
Definition and validity of configurations.

Constants and configurations are defined first. A configuration is valid if its binding knows every
property, if every property has the values that it asks for, and if nothing that is required is
missing. The values behind the second occurrence of a property are not looked at.
-/

namespace TriggerScript

namespace ConfigValue

def literal? (value : ConfigValue) : Option (Prim × Value) :=
  match value.form with
  | .text value => some (.string, .text value)
  | .int value => some (.int, .int value)
  | .long value => some (.long, .long value)
  | .bool value => some (.boolean, .bool value)
  | .type prim => some (.type, .type prim)
  | .coordgrid value => some (.coordgrid, .int value)
  | .constant _ | .reference _ | .error => none

/-- The type of a value, if it is known, and the fault of a name that is not. -/
def typeOf (symbols : SymbolTable) (value : ConfigValue) : Option Prim × List Diagnostic :=
  match value.form with
  | .error => (none, [])
  | .constant name =>
    match symbols.constant? name.text with
    | some info => (some info.prim, [])
    | none => (none, [⟨.semantic (.unresolvedConstant name.text), name.span⟩])
  | .reference name =>
    match symbols.config? name.text with
    | some info => (some info.prim, [])
    | none => (none, [⟨.semantic (.unresolvedSymbol name.text), name.span⟩])
  | _ => (value.literal?.map Prod.fst, [])

def number? (symbols : SymbolTable) (value : ConfigValue) : Option Int32 :=
  match value.form with
  | .int value => some value
  | .constant name => do (← symbols.constant? name.text).value.asInt?
  | _ => none

def ruleFault (symbols : SymbolTable) (value : ConfigValue) : Rule → List Diagnostic
  | .range least greatest =>
    if (value.number? symbols).any fun number => number < least || greatest < number then
      [⟨.semantic (.outsideRange least greatest), value.span⟩]
    else []
  | .positive =>
    if (value.number? symbols).any fun number => number < 1 then
      [⟨.semantic .notPositive, value.span⟩]
    else []
  | .emptyIfTrue | .emptyIfFalse => []

/-- The faults of a value that is to be of a type and to keep rules. -/
def faults (symbols : SymbolTable) (expected : Prim) (rules : List Rule) (value : ConfigValue) :
    List Diagnostic :=
  match value.typeOf symbols with
  | (none, faults) => faults
  | (some prim, faults) =>
    faults ++
      if prim.agrees expected then rules.flatMap (value.ruleFault symbols)
      else [⟨.semantic (.typeMismatch (.single prim) (.single expected)), value.span⟩]

end ConfigValue

def Constant.define (table : SymbolTable) (constant : Constant) : SymbolTable × List Diagnostic :=
  match constant.value.literal? with
  | none =>
    if constant.value.form = .error then (table, [])
    else (table, [⟨.semantic .constantNotLiteral, constant.value.span⟩])
  | some (prim, value) =>
    match table.defineConstant ⟨constant.name.text, prim, value⟩ with
    | some table => (table, [])
    | none => (table, [⟨.semantic (.duplicateConstant constant.name.text), constant.name.span⟩])

def Constant.defineAll (table : SymbolTable) : List Constant → SymbolTable × List Diagnostic
  | [] => (table, [])
  | constant :: rest =>
    let (table, faults) := constant.define table
    let (table, others) := defineAll table rest
    (table, faults ++ others)

namespace Config

def content? (binding : Binding) (config : Config) : Option Prim := do
  let property ← config.property? (← binding.contentType)
  match (← property.values.head?).form with
  | .type prim => some prim
  | _ => none

def define (binding : Binding) (table : SymbolTable) (config : Config) :
    SymbolTable × List Diagnostic :=
  match table.defineConfig config.name.text binding.group (config.content? binding) with
  | some (_, table) => (table, [])
  | none => (table, [⟨.semantic (.duplicateConfig config.name.text), config.name.span⟩])

def defineAll (binding : Binding) (table : SymbolTable) :
    List Config → SymbolTable × List Diagnostic
  | [] => (table, [])
  | config :: rest =>
    let (table, faults) := config.define binding table
    let (table, others) := defineAll binding table rest
    (table, faults ++ others)

/-- The faults of the values of a property, each of a type of its own. -/
def valueFaults (symbols : SymbolTable) (bound : BoundProperty) (property : Property) :
    List Diagnostic :=
  (property.values.zip bound.components).zipIdx.flatMap fun ((value, expected), index) =>
    value.faults symbols expected (bound.rulesFor index)

def requiredFault (config : Config) (bound : BoundProperty) (property : Property) :
    List Diagnostic :=
  match bound.requires with
  | none => []
  | some required =>
    if (config.property? required).isSome then []
    else [⟨.semantic (.requiresProperty property.key.text required), property.span⟩]

def propertyFaults (symbols : SymbolTable) (config : Config) (bound : BoundProperty)
    (property : Property) : List Diagnostic :=
  if bound.components.length = property.values.length then
    valueFaults symbols bound property ++ config.requiredFault bound property
  else
    [⟨.semantic (.argumentCount bound.components.length property.values.length), property.span⟩]

def faultsFrom (symbols : SymbolTable) (binding : Binding) (config : Config) (seen : List String) :
    List Property → List Diagnostic
  | [] => []
  | property :: rest =>
    let key := property.key.text
    match Binding.property? binding.properties key with
    | none =>
      ⟨.semantic (.unknownProperty key), property.key.span⟩ ::
        faultsFrom symbols binding config seen rest
    | some bound =>
      let faults :=
        if seen.contains key && !bound.allowDuplicates then
          [⟨.semantic (.duplicateProperty key), property.key.span⟩]
        else propertyFaults symbols config bound property
      faults ++ faultsFrom symbols binding config (key :: seen) rest

def missingFaults (binding : Binding) (config : Config) : List Diagnostic :=
  (binding.properties.filter fun bound =>
      bound.required && (config.property? bound.name).isNone).map fun bound =>
    ⟨.semantic (.missingProperty bound.name), config.name.span⟩

def faults (symbols : SymbolTable) (binding : Binding) (config : Config) : List Diagnostic :=
  faultsFrom symbols binding config [] config.properties ++ missingFaults binding config

end Config

end TriggerScript
