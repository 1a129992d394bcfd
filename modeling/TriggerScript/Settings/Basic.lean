import TriggerScript.Symbol
import TriggerScript.Trigger

/-!
Settings of the compiler.

Settings describe the runtime for which scripts are compiled: its triggers, commands, global
variables, kinds of configurations and opcode numbers. Types are given by name here and are resolved
when a compiler is made from the settings.
-/

namespace TriggerScript

structure CommandSettings where
  name : String
  opcode : UInt16
  args : List String
  returns : List String
  alternative : Bool
  deriving DecidableEq

structure GlobalSettings where
  name : String
  domain : Domain
  typeName : String
  id : Int32
  deriving DecidableEq

/-- A condition on a value of a property, or a way to write it. -/
inductive Rule where
  | range (least greatest : Int32)
  | positive
  /-- The property is written without its value if the value is true, and left out otherwise. -/
  | emptyIfTrue
  | emptyIfFalse
  deriving DecidableEq

/-- A rule for one of the values of a property. -/
structure ComponentRule where
  component : Nat
  rule : Rule
  deriving DecidableEq

structure PropertySettings where
  name : String
  opcode : UInt8
  /-- The type of each value. -/
  components : List String
  required : Bool
  allowDuplicates : Bool
  rules : List ComponentRule
  /-- A property that has to be present too. -/
  requires : Option String
  /-- How many numbered properties this one stands for. -/
  copies : Option Nat
  deriving DecidableEq

/-- The properties that one kind of configuration has. -/
structure BindingSettings where
  group : String
  /-- The property that names the type behind a configuration. -/
  contentType : Option String
  properties : List PropertySettings
  deriving DecidableEq

structure Settings where
  version : Nat
  supportsLong : Bool
  arrayCapacity : Nat
  optimize : Bool
  maxIterations : Nat
  scriptExtensions : List String
  constantExtension : String
  triggers : List TriggerSettings
  commands : List CommandSettings
  globals : List GlobalSettings
  /-- Kinds of configurations by the extension of their files. -/
  configs : List (String × BindingSettings)
  opcodes : List (String × UInt16)
  deriving DecidableEq

def PropertySettings.plain (name : String) (opcode : UInt8) (component : String) :
    PropertySettings where
  name
  opcode
  components := [component]
  required := false
  allowDuplicates := false
  rules := []
  requires := none
  copies := none

def BindingSettings.params : BindingSettings where
  group := "param"
  contentType := some "type"
  properties := [
    { PropertySettings.plain "type" 1 "type" with required := true },
    PropertySettings.plain "default_int" 2 "int",
    { PropertySettings.plain "autodisable" 4 "boolean" with rules := [⟨0, .emptyIfFalse⟩] },
    PropertySettings.plain "default_str" 5 "string"]

namespace Settings

def currentVersion : Nat := 1

def default : Settings where
  version := currentVersion
  supportsLong := true
  arrayCapacity := 5
  optimize := true
  maxIterations := 64
  scriptExtensions := ["rs2", "cs2"]
  constantExtension := "constant"
  triggers := []
  commands := []
  globals := []
  configs := [("param", BindingSettings.params)]
  opcodes := []

def isScriptExtension (settings : Settings) (extension : String) : Bool :=
  settings.scriptExtensions.contains extension

def binding? (settings : Settings) (extension : String) : Option BindingSettings :=
  settings.configs.lookup extension

end Settings

end TriggerScript
