import TriggerScript.Code.Generation
import TriggerScript.Config.Binding
import TriggerScript.Script.Declaration

/-!
Compilers.

A compiler is made from settings once. The names of types are resolved then, and settings that
describe no possible runtime are refused. A compiler keeps nothing of the files it has compiled.
-/

namespace TriggerScript

inductive SettingsFault where
  | trigger (fault : TriggerFault)
  | unknownOpcodes (names : List String)
  | commandType (name typeName : String)
  | globalType (name typeName : String)
  | commandTwice (name : String)
  | globalTwice (name : String)
  | binding (extension : String) (fault : BindingFault)
  deriving DecidableEq

def SettingsFault.message : SettingsFault → String
  | trigger fault => fault.message
  | unknownOpcodes names => "Unknown opcodes: " ++ ", ".intercalate names
  | commandType name typeName => "command " ++ name ++ ": unknown type '" ++ typeName ++ "'"
  | globalType name typeName => "global " ++ name ++ ": unknown type '" ++ typeName ++ "'"
  | commandTwice name => "Duplicate command: " ++ name
  | globalTwice name => "Duplicate global: " ++ name
  | binding extension fault => "config binding '" ++ extension ++ "': " ++ fault.message

/-- The grammar of a script source: calls are known by the triggers, hooks by the commands. -/
def Grammar.ofTables (source : String) (triggers : Triggers) (symbols : SymbolTable) : Grammar where
  source
  vocabulary := Vocabulary.scripts
  callTrigger? kind := (triggers.withOperator? kind).map Trigger.name
  isHookArgument := symbols.isHookArgument

/-- What a batch of files is compiled against. -/
structure Compiler where
  settings : Settings
  triggers : Triggers
  numbering : Numbering
  /-- The commands and globals of the runtime. -/
  symbols : SymbolTable
  /-- Kinds of configurations by the extension of their files. -/
  bindings : List (String × Binding)

namespace Compiler

/-- The types with the given names, or the fault of the first name that is unknown. -/
def resolveTypes (fault : String → SettingsFault) (names : List String) :
    Except SettingsFault (List Prim) :=
  names.mapM fun name => (Prim.ofSource? name).elim (.error (fault name)) .ok

def addCommand (table : SymbolTable) (command : CommandSettings) :
    Except SettingsFault SymbolTable := do
  let args ← resolveTypes (.commandType command.name) command.args
  let returns ← resolveTypes (.commandType command.name) command.returns
  let info : CommandInfo :=
    ⟨command.name, command.opcode, args, Ty.ofList returns, command.alternative⟩
  (table.defineCommand info).elim (.error (.commandTwice command.name)) .ok

def addGlobal (table : SymbolTable) (entry : GlobalSettings) : Except SettingsFault SymbolTable :=
  match Prim.ofSource? entry.typeName with
  | none => .error (.globalType entry.name entry.typeName)
  | some prim =>
    (table.defineGlobal ⟨entry.name, entry.domain, prim, entry.id⟩).elim
      (.error (.globalTwice entry.name)) .ok

def resolveBinding (entry : String × BindingSettings) : Except SettingsFault (String × Binding) :=
  match Binding.ofSettings entry.2 with
  | .ok binding => .ok (entry.1, binding)
  | .error fault => .error (.binding entry.1 fault)

def resolveNumbering (changes : List (String × UInt16)) : Except SettingsFault Numbering :=
  match Numbering.ofNamed changes with
  | (numbering, []) => .ok numbering
  | (_, unknown) => .error (.unknownOpcodes unknown)

def ofSettings (settings : Settings) : Except SettingsFault Compiler := do
  let triggers ←
    (Triggers.ofSettings Vocabulary.scripts settings.triggers).mapError SettingsFault.trigger
  let numbering ← resolveNumbering settings.opcodes
  let withCommands ← settings.commands.foldlM addCommand SymbolTable.empty
  let symbols ← settings.globals.foldlM addGlobal withCommands
  let bindings ← settings.configs.mapM resolveBinding
  return { settings, triggers, numbering, symbols, bindings }

def binding? (compiler : Compiler) (extension : String) : Option Binding :=
  compiler.bindings.lookup extension

def accepts (compiler : Compiler) (extension : String) : Bool :=
  compiler.settings.isScriptExtension extension
    || extension = compiler.settings.constantExtension
    || (compiler.binding? extension).isSome

end Compiler

end TriggerScript
