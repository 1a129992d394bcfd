import Mathlib
import TriggerScript.Compiler.Draft

/-!
Declarations of a batch.

The declarations of all drafts are entered into one table, one after the other. A declaration whose
name is new adds to the table what it says, and the only faults are those that it has on its own.
-/

namespace TriggerScript

open List

inductive Declaration where
  | script (script : Script)
  | constant (constant : Constant)
  | config (binding : Binding) (config : Config)

inductive DeclarationKind where
  | script
  | constant
  | config
  deriving DecidableEq

namespace Declaration

/-- The name of a declaration. Names are told apart within each kind. -/
def tag : Declaration → DeclarationKind × String
  | .script source => (.script, source.key)
  | .constant source => (.constant, source.name.text)
  | .config _ source => (.config, source.name.text)

def define (triggers : Triggers) (table : SymbolTable) : Declaration → SymbolTable × List Diagnostic
  | .script source => source.define triggers table
  | .constant source => source.define table
  | .config binding source => source.define binding table

def defineAll (triggers : Triggers) (table : SymbolTable) :
    List Declaration → SymbolTable × List Diagnostic
  | [] => (table, [])
  | declaration :: rest =>
    let (table, faults) := declaration.define triggers table
    let (table, others) := defineAll triggers table rest
    (table, faults ++ others)
def faults (triggers : Triggers) : Declaration → List Diagnostic
  | .script source =>
    match triggers.named? source.trigger.text with
    | none => [⟨.semantic (.unresolvedTrigger source.trigger.text), source.trigger.span⟩]
    | some trigger => source.signatureFaults trigger
  | .constant source =>
    match source.value.literal? with
    | none =>
      if source.value.form = .error then []
      else [⟨.semantic .constantNotLiteral, source.value.span⟩]
    | some _ => []
  | .config _ _ => []

/-- The table with what a declaration says, under the next number of its kind. -/
def enter (triggers : Triggers) (table : SymbolTable) : Declaration → SymbolTable
  | .constant source => source.value.literal?.elim table fun (prim, value) =>
    { table with top := { table.top with
        constants := table.top.constants ++ [⟨source.name.text, prim, value⟩] } }
  | .script source => (triggers.named? source.trigger.text).elim table fun _ =>
    { table with top := { table.top with
        scripts := table.top.scripts ++
          [⟨source.trigger.text, source.name.text, source.paramTypes, source.returns,
            table.top.nextScript⟩]
        nextScript := table.top.nextScript + 1 } }
  | .config binding source =>
    { table with top := { table.top with
        configs := table.top.configs ++
          [⟨source.name.text, binding.group, source.content? binding,
            table.top.nextConfig.count binding.group⟩]
        nextConfig := table.top.nextConfig.increment binding.group } }

end Declaration

/-- The name is taken. -/
def SymbolTable.Knows (table : SymbolTable) : DeclarationKind × String → Prop
  | (.script, key) => table.scriptWithKey? key ≠ none
  | (.constant, name) => table.constant? name ≠ none
  | (.config, name) => table.config? name ≠ none

namespace Declaration

variable {triggers : Triggers} {table : SymbolTable} {declaration : Declaration}

theorem define_of_new (new : ¬ table.Knows declaration.tag) :
    declaration.define triggers table =
      (declaration.enter triggers table, declaration.faults triggers) := by
  cases declaration with
  | constant source =>
    have missing : table.constant? source.name.text = none := not_not.mp new
    cases literal : source.value.literal? with
    | none =>
      simp only [define, Constant.define, enter, faults, literal, Option.elim]
      split <;> rfl
    | some typed =>
      simp [define, Constant.define, SymbolTable.defineConstant, enter, faults, literal, missing]
  | script source =>
    have missing : table.script? source.trigger.text source.name.text = none := not_not.mp new
    cases known : triggers.named? source.trigger.text <;>
      simp [define, Script.define, SymbolTable.defineScript, enter, faults, known, missing]
  | config binding source =>
    have missing : table.config? source.name.text = none := not_not.mp new
    simp [define, Config.define, SymbolTable.defineConfig, enter, faults, missing]

end Declaration

/-! ### Drafts -/

def Contents.declarations : Contents → List Declaration
  | .scripts declared => declared.map .script
  | .constants declared => declared.map .constant
  | .configs binding declared => declared.map (.config binding)
  | .unsupported => []

theorem Contents.define_eq (compiler : Compiler) (table : SymbolTable) (contents : Contents) :
    contents.define compiler table = Declaration.defineAll compiler.triggers table
      contents.declarations := by
  cases contents with
  | scripts declared | constants declared | configs binding declared =>
    rw [define, declarations]
    induction declared generalizing table with
    | nil => rfl
    | cons source rest ih =>
      simp only [Script.defineAll, Constant.defineAll, Config.defineAll, map_cons,
        Declaration.defineAll, ih]
      rfl
  | unsupported => rfl

def Draft.declarations (draft : Draft) : List Declaration := draft.contents.declarations

end TriggerScript
