import TriggerScript.Script.Tree
import TriggerScript.Value.Basic

/-!
Symbol tables.

A table is a stack of layers. A name is looked up from the innermost layer outwards and defined in
the innermost one, provided that no layer has it. Scripts are numbered in the order in which they
are defined, configurations likewise for each type; a new layer goes on counting where the one
around it stands.
-/

namespace TriggerScript

structure ConstantInfo where
  name : String
  prim : Prim
  value : Value
  deriving DecidableEq

structure CommandInfo where
  name : String
  opcode : UInt16
  args : List Prim
  returns : Ty
  /-- The command has a second form. -/
  alternative : Bool
  deriving DecidableEq

def CommandInfo.isHookArgument (command : CommandInfo) (index : Nat) : Bool :=
  command.args[index]? = some .hook

structure ScriptInfo where
  trigger : String
  name : String
  params : List Prim
  returns : Ty
  id : Nat
  deriving DecidableEq

def ScriptInfo.key (script : ScriptInfo) : String := scriptKey script.trigger script.name

structure ConfigInfo where
  name : String
  prim : Prim
  /-- The type of the values behind the configuration, once it is known. -/
  content : Option Prim
  id : Nat
  deriving DecidableEq

/-- Where the value of a global variable is kept. -/
inductive Domain where
  | player
  | playerBit
  | clientInt
  | clientString
  deriving DecidableEq

structure GlobalInfo where
  name : String
  domain : Domain
  prim : Prim
  id : Int32
  deriving DecidableEq

abbrev Counts := List (Prim × Nat)

def Counts.count (counts : Counts) (prim : Prim) : Nat := (counts.lookup prim).getD 0

def Counts.increment (counts : Counts) (prim : Prim) : Counts :=
  (prim, counts.count prim + 1) :: counts.filter fun entry => entry.1 ≠ prim

/-- The definitions of one layer and the next numbers to give. -/
structure Layer where
  constants : List ConstantInfo
  commands : List CommandInfo
  scripts : List ScriptInfo
  configs : List ConfigInfo
  globals : List GlobalInfo
  nextScript : Nat
  nextConfig : Counts

def Layer.empty : Layer := ⟨[], [], [], [], [], 0, []⟩

/-- A layer without definitions that counts on from another. -/
def Layer.inside (outer : Layer) : Layer :=
  { empty with nextScript := outer.nextScript, nextConfig := outer.nextConfig }

structure SymbolTable where
  top : Layer
  outer : List Layer

namespace SymbolTable

def empty : SymbolTable := ⟨Layer.empty, []⟩

def layers (table : SymbolTable) : List Layer := table.top :: table.outer

def enter (table : SymbolTable) : SymbolTable := ⟨table.top.inside, table.layers⟩

def leave? (table : SymbolTable) : Option SymbolTable :=
  match table.outer with
  | [] => none
  | top :: outer => some ⟨top, outer⟩

/-! ### Lookup -/

def constant? (table : SymbolTable) (name : String) : Option ConstantInfo :=
  table.layers.findSome? fun layer => layer.constants.find? fun info => info.name = name

def command? (table : SymbolTable) (name : String) : Option CommandInfo :=
  table.layers.findSome? fun layer => layer.commands.find? fun info => info.name = name

def scriptWithKey? (table : SymbolTable) (key : String) : Option ScriptInfo :=
  table.layers.findSome? fun layer => layer.scripts.find? fun info => info.key = key

def script? (table : SymbolTable) (trigger name : String) : Option ScriptInfo :=
  table.scriptWithKey? (scriptKey trigger name)

def config? (table : SymbolTable) (name : String) : Option ConfigInfo :=
  table.layers.findSome? fun layer => layer.configs.find? fun info => info.name = name

def global? (table : SymbolTable) (name : String) : Option GlobalInfo :=
  table.layers.findSome? fun layer => layer.globals.find? fun info => info.name = name

def isHookArgument (table : SymbolTable) (name : String) (index : Nat) : Bool :=
  (table.command? name).any fun info => info.isHookArgument index

/-! ### Definition

Each fails if the name is visible already. -/

def defineConstant (table : SymbolTable) (info : ConstantInfo) : Option SymbolTable :=
  if (table.constant? info.name).isSome then none
  else some { table with top := { table.top with constants := table.top.constants ++ [info] } }

def defineCommand (table : SymbolTable) (info : CommandInfo) : Option SymbolTable :=
  if (table.command? info.name).isSome then none
  else some { table with top := { table.top with commands := table.top.commands ++ [info] } }

def defineGlobal (table : SymbolTable) (info : GlobalInfo) : Option SymbolTable :=
  if (table.global? info.name).isSome then none
  else some { table with top := { table.top with globals := table.top.globals ++ [info] } }

def defineScript (table : SymbolTable) (trigger name : String) (params : List Prim) (returns : Ty) :
    Option (Nat × SymbolTable) :=
  if (table.script? trigger name).isSome then none
  else
    let id := table.top.nextScript
    some (id, { table with
      top := { table.top with
        scripts := table.top.scripts ++ [⟨trigger, name, params, returns, id⟩]
        nextScript := id + 1 } })

def defineConfig (table : SymbolTable) (name : String) (prim : Prim) (content : Option Prim) :
    Option (Nat × SymbolTable) :=
  if (table.config? name).isSome then none
  else
    let id := table.top.nextConfig.count prim
    some (id, { table with
      top := { table.top with
        configs := table.top.configs ++ [⟨name, prim, content, id⟩]
        nextConfig := table.top.nextConfig.increment prim } })

/-- Forget a script of the innermost layer. Its number is not given again. -/
def undefineScript (table : SymbolTable) (trigger name : String) :
    Option ScriptInfo × SymbolTable :=
  let key := scriptKey trigger name
  (table.top.scripts.find? fun info => info.key = key,
    { table with
      top := { table.top with scripts := table.top.scripts.filter fun info => info.key ≠ key } })

def setContent (table : SymbolTable) (name : String) (content : Prim) : SymbolTable :=
  { table with
    top := { table.top with
      configs := table.top.configs.map fun info =>
        if info.name = name then { info with content := some content } else info } }

end SymbolTable

end TriggerScript
