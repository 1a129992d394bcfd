import TriggerScript.Settings.Basic
import TriggerScript.Value.Encoding

/-!
Bindings.

A binding says which properties a kind of configuration has, with types in place of their names. A
property that stands for several is written out, one for each number. Settings that contradict
themselves are refused.
-/

namespace TriggerScript

inductive BindingFault where
  | notConfigType (group : String)
  | boundTwice (property : String)
  | unknownRequired (property required : String)
  | contentUnbound (property : String)
  | contentNotType (property : String)
  | unusableComponent (property component : String)
  | noComponents (property : String)
  | noSuchComponent (property : String) (component : Nat)
  | emptyNotBoolean (property : String)
  | numericNotInt (property : String)
  deriving DecidableEq

def BindingFault.message : BindingFault → String
  | notConfigType group => "'" ++ group ++ "' is not a config type"
  | boundTwice property => "Property '" ++ property ++ "' is bound twice"
  | unknownRequired property required =>
    "Property '" ++ property ++ "' requires unknown property '" ++ required ++ "'"
  | contentUnbound property => "Content type property '" ++ property ++ "' is not bound"
  | contentNotType property =>
    "Content type property '" ++ property ++ "' must take a single type"
  | unusableComponent property component =>
    "Property '" ++ property ++ "' has an unusable component type '" ++ component ++ "'"
  | noComponents property => "Property '" ++ property ++ "' has no components"
  | noSuchComponent property component =>
    "Property '" ++ property ++ "' has no component " ++ Nat.repr component
  | emptyNotBoolean property =>
    "Property '" ++ property ++ "' can only emit empty with a single boolean component"
  | numericNotInt property =>
    "Property '" ++ property ++ "' has a numeric rule on a non-int component"

/-- A property that a configuration may have. -/
structure BoundProperty where
  name : String
  opcode : UInt8
  components : List Prim
  required : Bool
  allowDuplicates : Bool
  rules : List ComponentRule
  requires : Option String
  deriving DecidableEq

def BoundProperty.rulesFor (property : BoundProperty) (component : Nat) : List Rule :=
  (property.rules.filter fun entry => entry.component = component).map ComponentRule.rule

/-- The value with which the property is written without its value. -/
def BoundProperty.emptyWhen? (property : BoundProperty) : Option Bool :=
  (property.rulesFor 0).findSome? fun
    | .emptyIfTrue => some true
    | .emptyIfFalse => some false
    | _ => none

structure Binding where
  group : Prim
  contentType : Option String
  properties : List BoundProperty

namespace Binding

def property? (properties : List BoundProperty) (name : String) : Option BoundProperty :=
  properties.find? fun property => property.name = name

def component (property name : String) : Except BindingFault Prim :=
  match Prim.ofName? name with
  | some prim =>
    if prim.encoding?.isSome then .ok prim else .error (.unusableComponent property name)
  | none => .error (.unusableComponent property name)

def checkRule (property : String) (components : List Prim) (entry : ComponentRule) :
    Except BindingFault Unit :=
  match components[entry.component]? with
  | none => .error (.noSuchComponent property entry.component)
  | some prim =>
    match entry.rule with
    | .emptyIfTrue | .emptyIfFalse =>
      if components = [.boolean] then .ok () else .error (.emptyNotBoolean property)
    | .range _ _ | .positive =>
      if prim.agrees .int then .ok () else .error (.numericNotInt property)

def resolve (settings : PropertySettings) : Except BindingFault (List BoundProperty) := do
  let components ← settings.components.mapM (component settings.name)
  if components.isEmpty then throw (.noComponents settings.name)
  settings.rules.forM (checkRule settings.name components)
  let named (name : String) : BoundProperty :=
    ⟨name, settings.opcode, components, settings.required, settings.allowDuplicates, settings.rules,
      settings.requires⟩
  match settings.copies with
  | none => return [named settings.name]
  | some count =>
    return (List.range count).map fun index => named (settings.name ++ Nat.repr (index + 1))

def bindProperty (properties : List BoundProperty) (property : BoundProperty) :
    Except BindingFault (List BoundProperty) :=
  if (property? properties property.name).isSome then .error (.boundTwice property.name)
  else .ok (properties ++ [property])

def bindAll (properties : List BoundProperty) (settings : PropertySettings) :
    Except BindingFault (List BoundProperty) := do
  (← resolve settings).foldlM bindProperty properties

def checkRequired (properties : List BoundProperty) (property : BoundProperty) :
    Except BindingFault Unit :=
  match property.requires with
  | none => .ok ()
  | some required =>
    if (property? properties required).isSome then .ok ()
    else .error (.unknownRequired property.name required)

/-- The property that names the type behind a configuration takes exactly that. -/
def checkContent (properties : List BoundProperty) : Option String → Except BindingFault Unit
  | none => .ok ()
  | some name =>
    match property? properties name with
    | none => .error (.contentUnbound name)
    | some property =>
      if property.components = [.type] then .ok () else .error (.contentNotType name)

def groupOf (name : String) : Except BindingFault Prim :=
  match Prim.ofName? name with
  | some prim => if prim.isConfig then .ok prim else .error (.notConfigType name)
  | none => .error (.notConfigType name)

def ofSettings (settings : BindingSettings) : Except BindingFault Binding := do
  let group ← groupOf settings.group
  let properties ← settings.properties.foldlM bindAll []
  properties.forM (checkRequired properties)
  checkContent properties settings.contentType
  return ⟨group, settings.contentType, properties⟩

end Binding

end TriggerScript
