import TriggerScript.Script.Tree

/-!
Syntax trees of configurations and constants.
-/

namespace TriggerScript

inductive ValueForm where
  | text (value : String)
  | int (value : Int32)
  | long (value : Int64)
  | bool (value : Bool)
  | type (prim : Prim)
  | coordgrid (value : Int32)
  | constant (name : Ident)
  /-- The name of another configuration. -/
  | reference (name : Ident)
  /-- Stands where a value could not be read. -/
  | error
  deriving DecidableEq

structure ConfigValue where
  form : ValueForm
  span : Span
  deriving DecidableEq

/-- `key=value,value` -/
structure Property where
  key : Ident
  values : List ConfigValue
  span : Span
  deriving DecidableEq

/-- `^name=value` -/
structure Constant where
  name : Ident
  value : ConfigValue
  span : Span
  deriving DecidableEq

/-- `[name]` and the properties behind it. -/
structure Config where
  name : Ident
  properties : List Property
  span : Span
  deriving DecidableEq

def Config.property? (config : Config) (key : String) : Option Property :=
  config.properties.find? fun property => property.key.text = key

end TriggerScript
