import Mathlib
import TriggerScript.Symbol

/-!
What a table holds.

The layers of a table hold definitions of five kinds. Looking up a name finds the first definition
of that name from the innermost layer outwards. A definition adds one entry to the innermost layer,
if no entry of its name is there, and counts on the series of its kind, if it has a number. The key
of a script tells its trigger from its name if there is no comma in the trigger.
-/

namespace TriggerScript

open List

/-- What names a definition. Definitions of different kinds have different names. -/
inductive SymbolName where
  | constant (name : String)
  | command (name : String)
  | script (trigger name : String)
  | config (name : String)
  | global (name : String)
  deriving DecidableEq

namespace SymbolName

/-- There is no comma in the trigger of a script. -/
def Plain : SymbolName → Prop
  | .script trigger _ => ',' ∉ trigger.toList
  | _ => True

instance : (name : SymbolName) → Decidable name.Plain
  | .script trigger _ => inferInstanceAs (Decidable (',' ∉ trigger.toList))
  | .constant _ | .command _ | .config _ | .global _ => .isTrue trivial

end SymbolName

/-- What numbers are given from: one series for scripts, and one for the configurations of each
type. -/
inductive Series where
  | scripts
  | configs (prim : Prim)
  deriving DecidableEq

/-- A definition in a table, with its signature. -/
inductive SymbolEntry where
  | constant (info : ConstantInfo)
  | command (info : CommandInfo)
  | script (info : ScriptInfo)
  | config (info : ConfigInfo)
  | global (info : GlobalInfo)
  deriving DecidableEq

namespace SymbolEntry

def name : SymbolEntry → SymbolName
  | .constant info => .constant info.name
  | .command info => .command info.name
  | .script info => .script info.trigger info.name
  | .config info => .config info.name
  | .global info => .global info.name

/-- The number of a script or a configuration, in its series. -/
def number? : SymbolEntry → Option (Series × Nat)
  | .script info => some (.scripts, info.id)
  | .config info => some (.configs info.prim, info.id)
  | .constant _ | .command _ | .global _ => none

end SymbolEntry

namespace Layer

def entries (layer : Layer) : List SymbolEntry :=
  layer.constants.map .constant ++ layer.commands.map .command ++ layer.scripts.map .script ++
    layer.configs.map .config ++ layer.globals.map .global

/-- The next number of a series. -/
def next (layer : Layer) : Series → Nat
  | .scripts => layer.nextScript
  | .configs prim => layer.nextConfig.count prim

end Layer

namespace SymbolTable

def entries (table : SymbolTable) : List SymbolEntry := table.layers.flatMap Layer.entries

/-- Some layer of the table has a definition of the name. -/
def Visible (table : SymbolTable) (name : SymbolName) : Prop :=
  ∃ entry ∈ table.entries, entry.name = name

/-- Look up a name of any kind. -/
def find? (table : SymbolTable) : SymbolName → Option SymbolEntry
  | .constant name => (table.constant? name).map .constant
  | .command name => (table.command? name).map .command
  | .script trigger name => (table.script? trigger name).map .script
  | .config name => (table.config? name).map .config
  | .global name => (table.global? name).map .global

/-- No script of the table has a comma in its trigger. -/
def Plain (table : SymbolTable) : Prop := ∀ entry ∈ table.entries, entry.name.Plain

end SymbolTable

/-! ### Looking up -/

/-- Without that, two scripts may have the same key. -/
example : scriptKey "a,b" "c" = scriptKey "a" "b,c" := by decide

variable {table next : SymbolTable}

namespace SymbolTable

end SymbolTable

/-! ### Inserting -/

/-- The second list is the first with one entry more. -/
def Inserts {α : Type} (entry : α) (old new : List α) : Prop :=
  ∃ front back, old = front ++ back ∧ new = front ++ entry :: back

namespace Inserts

variable {α β : Type} {entry : α} {old new : List α}

theorem concat (wrap : α → β) (entries : List α) (entry : α) :
    Inserts (wrap entry) (entries.map wrap) ((entries ++ [entry]).map wrap) :=
  ⟨entries.map wrap, [], (append_nil _).symm, map_append⟩

theorem append_left (inserts : Inserts entry old new) (others : List α) :
    Inserts entry (others ++ old) (others ++ new) := by
  obtain ⟨front, back, rfl, rfl⟩ := inserts
  exact ⟨others ++ front, back, (append_assoc ..).symm, (append_assoc ..).symm⟩

theorem append_right (inserts : Inserts entry old new) (others : List α) :
    Inserts entry (old ++ others) (new ++ others) := by
  obtain ⟨front, back, rfl, rfl⟩ := inserts
  exact ⟨front, back ++ others, append_assoc .., append_assoc ..⟩

theorem perm (inserts : Inserts entry old new) : new.Perm (entry :: old) := by
  obtain ⟨front, back, rfl, rfl⟩ := inserts
  exact perm_middle

end Inserts

/-! ### Defining -/

/-- A definition to be made. Scripts and configurations get numbers. -/
inductive Definition where
  | constant (info : ConstantInfo)
  | command (info : CommandInfo)
  | script (trigger name : String) (params : List Prim) (returns : Ty)
  | config (name : String) (prim : Prim) (content : Option Prim)
  | global (info : GlobalInfo)

namespace Definition

def name : Definition → SymbolName
  | .constant info => .constant info.name
  | .command info => .command info.name
  | .script trigger name _ _ => .script trigger name
  | .config name _ _ => .config name
  | .global info => .global info.name

/-- The series from which the definition gets its number. -/
def series? : Definition → Option Series
  | .script .. => some .scripts
  | .config _ prim _ => some (.configs prim)
  | .constant _ | .command _ | .global _ => none

end Definition

namespace SymbolTable

/-- Make a definition in the innermost layer, if its name is not visible: what is defined, with the
number it is given, and the table with it. -/
def define? (table : SymbolTable) : Definition → Option (SymbolEntry × SymbolTable)
  | .constant info => (table.defineConstant info).map fun next => (.constant info, next)
  | .command info => (table.defineCommand info).map fun next => (.command info, next)
  | .script trigger name params returns =>
    (table.defineScript trigger name params returns).map fun (id, next) =>
      (.script ⟨trigger, name, params, returns, id⟩, next)
  | .config name prim content =>
    (table.defineConfig name prim content).map fun (id, next) =>
      (.config ⟨name, prim, content, id⟩, next)
  | .global info => (table.defineGlobal info).map fun next => (.global info, next)

/-- What a definition does: it puts one entry into the innermost layer, with the next number of its
series, and counts on that series. -/
structure Defines (table : SymbolTable) (definition : Definition) (entry : SymbolEntry)
    (next : SymbolTable) :
    Prop where
  name : entry.name = definition.name
  number : entry.number? = definition.series?.map fun series => (series, table.top.next series)
  outer : next.outer = table.outer
  entries : Inserts entry table.top.entries next.top.entries
  counters : ∀ series, next.top.next series =
    if definition.series? = some series then table.top.next series + 1 else table.top.next series

namespace Defines

variable {definition : Definition} {entry : SymbolEntry}

theorem inserts (defines : table.Defines definition entry next) :
    Inserts entry table.entries next.entries := by
  simp only [SymbolTable.entries, layers, defines.outer, flatMap_cons]
  exact defines.entries.append_right _

/-- The number that is given is the next one of its series, which counts on. -/
theorem given (defines : table.Defines definition entry next) {series : Series} {number : Nat}
    (numbered : entry.number? = some (series, number)) :
    number = table.top.next series ∧ next.top.next series = number + 1 := by
  rw [defines.number] at numbered
  obtain ⟨own, counted, same⟩ := Option.map_eq_some_iff.mp numbered
  cases same
  exact ⟨rfl, by rw [defines.counters, if_pos counted]⟩

theorem counters_mono (defines : table.Defines definition entry next) (series : Series) :
    table.top.next series ≤ next.top.next series := by
  rw [defines.counters]
  split
  · exact Nat.le_succ _
  · exact le_rfl

theorem plain (defines : table.Defines definition entry next) (plain : table.Plain)
    (here : definition.name.Plain) : next.Plain := by
  intro other member
  rcases mem_cons.mp (defines.inserts.perm.mem_iff.mp member) with rfl | old
  · rwa [defines.name]
  · exact plain other old

end Defines

end SymbolTable

end TriggerScript
