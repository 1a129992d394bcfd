import TriggerScript.Compiler.Basic
import TriggerScript.Proofs.Data.Checked

/-!
Commands of the settings.

A compiler knows each command of its settings as it is described there. The name of the type of
hooks is not among the names that are looked up, so that a command with a hook argument is refused.
-/

namespace TriggerScript

open List

variable {settings : Settings} {commands : List CommandSettings} {table : SymbolTable}

/-- The name by which settings mark an argument that takes a hook. -/
def hookName : String := "hook"

namespace CommandSettings

/-- Settings may give these names to the types of a command. -/
def Typed (command : CommandSettings) : Prop :=
  (∀ name ∈ command.args, name = hookName ∨ (Prim.ofSource? name).isSome) ∧
    ∀ name ∈ command.returns, (Prim.ofSource? name).isSome

instance (command : CommandSettings) : Decidable command.Typed :=
  inferInstanceAs (Decidable (_ ∧ _))

/-- A command that is known as it is described. -/
def Describes (command : CommandSettings) (info : CommandInfo) : Prop :=
  info.name = command.name ∧ info.opcode = command.opcode ∧ info.alternative = command.alternative ∧
    info.args.map Prim.name? = command.args.map some ∧
    (∃ returns, info.returns = Ty.ofList returns ∧
      returns.map Prim.name? = command.returns.map some) ∧
    ∀ index, info.isHookArgument index = true ↔ command.args[index]? = some hookName

end CommandSettings

/-- Settings that describe commands and nothing else that is not there by default. -/
structure Settings.CommandsOnly (settings : Settings) : Prop where
  triggers : settings.triggers = []
  globals : settings.globals = []
  opcodes : settings.opcodes = []
  configs : settings.configs = [] ∨ settings.configs = Settings.default.configs

/-- A command that is new is found under its name, and all others as before. -/
theorem SymbolTable.command_define {info : CommandInfo} (new : table.command? info.name = none) :
    ∃ next, table.defineCommand info = some next ∧ next.command? info.name = some info ∧
      ∀ name ≠ info.name, next.command? name = table.command? name := by
  refine ⟨_, if_neg (by simp [new]), ?_, fun name other => ?_⟩
  · simp only [command?, layers, findSome?_cons] at new ⊢
    cases here : table.top.commands.find? fun entry => entry.name = info.name with
    | some entry => simp [here] at new
    | none => simp [find?_append, here]
  · simp [command?, layers, findSome?_cons, find?_append, Ne.symm other]

theorem Prim.name_of_source {name : String} {prim : Prim} (found : ofSource? name = some prim) :
    prim.name? = some name ∧ prim ≠ .hook := by
  have known := List.find?_some found
  simp only [Bool.and_eq_true, decide_eq_true_eq] at known
  exact ⟨known.2, fun hook => absurd known.1 (by rw [hook]; decide)⟩

namespace Compiler

theorem resolve_types_known {names : List String} (fault : String → SettingsFault)
    (known : ∀ name ∈ names, (Prim.ofSource? name).isSome) :
    ∃ prims, resolveTypes fault names = .ok prims ∧ prims.map Prim.name? = names.map some ∧
      .hook ∉ prims := by
  induction names with
  | nil => exact ⟨[], rfl, rfl, not_mem_nil⟩
  | cons name rest ih =>
    obtain ⟨here, later⟩ := forall_mem_cons.mp known
    obtain ⟨prim, found⟩ := Option.isSome_iff_exists.mp here
    obtain ⟨prims, resolved, named, unhooked⟩ := ih later
    obtain ⟨spelled, other⟩ := Prim.name_of_source found
    refine ⟨prim :: prims, ?_, by simp [spelled, named], by simp [other.symm, unhooked]⟩
    rw [resolveTypes, mapM_cons, found, ← resolveTypes, resolved]
    rfl

theorem resolve_types_hook {names : List String} (fault : String → SettingsFault)
    (known : ∀ name ∈ names, name = hookName ∨ (Prim.ofSource? name).isSome)
    (hook : hookName ∈ names) : resolveTypes fault names = .error (fault hookName) := by
  induction names with
  | nil => cases hook
  | cons name rest ih =>
    obtain ⟨here, later⟩ := forall_mem_cons.mp known
    rw [resolveTypes, mapM_cons]
    by_cases same : name = hookName
    · rw [same, show Prim.ofSource? hookName = none by decide]
      rfl
    · obtain ⟨prim, found⟩ := Option.isSome_iff_exists.mp (here.resolve_left same)
      rw [found, ← resolveTypes, ih later ((mem_cons.mp hook).resolve_left (Ne.symm same))]
      rfl

theorem add_command_hook {command : CommandSettings} (typed : command.Typed)
    (hook : hookName ∈ command.args) :
    addCommand table command = .error (.commandType command.name hookName) := by
  rw [addCommand, resolve_types_hook _ typed.1 hook]
  rfl

theorem add_command_plain {command : CommandSettings} (typed : command.Typed)
    (plain : hookName ∉ command.args) (new : table.command? command.name = none) :
    ∃ next info, addCommand table command = .ok next ∧
      next.command? command.name = some info ∧ command.Describes info ∧
      ∀ name ≠ command.name, next.command? name = table.command? name := by
  obtain ⟨args, resolved, named, unhooked⟩ :=
    resolve_types_known (.commandType command.name) fun name member =>
    (typed.1 name member).resolve_left fun same => plain (same ▸ member)
  obtain ⟨returns, resolved', named', -⟩ := resolve_types_known (.commandType command.name) typed.2
  let info : CommandInfo := ⟨command.name, command.opcode, args, Ty.ofList returns,
    command.alternative⟩
  obtain ⟨next, defined, found, others⟩ := @SymbolTable.command_define table info new
  refine ⟨next, info, ?_, found, ⟨rfl, rfl, rfl, named, ⟨returns, rfl, named'⟩, fun index => ?_⟩,
    others⟩
  · simp only [addCommand, resolved, resolved']
    exact congrArg (fun entered : Option SymbolTable => entered.elim _ _) defined
  · simp only [CommandInfo.isHookArgument, decide_eq_true_eq]
    exact ⟨fun there => absurd (mem_of_getElem? there) unhooked,
      fun there => absurd (mem_of_getElem? there) plain⟩

/-- The commands are entered one by one, up to the first one that takes a hook. -/
theorem add_commands (typed : ∀ command ∈ commands, command.Typed)
    (distinct : (commands.map CommandSettings.name).Nodup)
    (new : ∀ command ∈ commands, table.command? command.name = none) :
    (∃ final, commands.foldlM addCommand table = .ok final ∧
      (∀ command ∈ commands, hookName ∉ command.args ∧
        ∃ info, final.command? command.name = some info ∧ command.Describes info) ∧
        ∀ name ∉ commands.map CommandSettings.name, final.command? name = table.command? name) ∨
    ∃ command ∈ commands, hookName ∈ command.args ∧
      commands.foldlM addCommand table = .error (.commandType command.name hookName) := by
  induction commands generalizing table with
  | nil => exact .inl ⟨table, rfl, forall_mem_nil _, fun _ _ => rfl⟩
  | cons command rest ih =>
    obtain ⟨typed, others_typed⟩ := forall_mem_cons.mp typed
    obtain ⟨new, others_new⟩ := forall_mem_cons.mp new
    obtain ⟨apart, distinct⟩ := nodup_cons.mp distinct
    rw [foldlM_cons]
    by_cases hook : hookName ∈ command.args
    · rw [add_command_hook typed hook]
      exact .inr ⟨command, mem_cons_self, hook, rfl⟩
    obtain ⟨next, info, added, found, describes, others⟩ := add_command_plain typed hook new
    rw [added]
    rcases ih others_typed distinct fun other member =>
      (others _ fun same => apart (same ▸ mem_map_of_mem member)).trans
      (others_new other member) with ⟨final, entered, known, kept⟩ | ⟨other, member, takes, refused⟩
    · refine .inl ⟨final, entered, forall_mem_cons.mpr
        ⟨⟨hook, info, (kept _ apart).trans found, describes⟩, known⟩,
        fun name absent => ?_⟩
      rw [map_cons, mem_cons, not_or] at absent
      exact (kept name absent.2).trans (others name absent.1)
    · exact .inr ⟨other, mem_cons_of_mem _ member, takes, refused⟩

/-- Settings of commands make a compiler just if no command takes a hook, and it knows the commands
as they are described. Otherwise a command with a hook is reported. -/
theorem commands_of_settings (only : settings.CommandsOnly)
    (typed : ∀ command ∈ settings.commands, command.Typed)
    (distinct : (settings.commands.map CommandSettings.name).Nodup) :
    (∃ compiler, ofSettings settings = .ok compiler ∧
      ∀ command ∈ settings.commands, hookName ∉ command.args ∧
      ∃ info, compiler.symbols.command? command.name = some info ∧ command.Describes info) ∨
    ∃ command ∈ settings.commands, hookName ∈ command.args ∧
      ofSettings settings = .error (.commandType command.name hookName) := by
  have numbered : resolveNumbering settings.opcodes = .ok .usual := by rw [only.opcodes]; rfl
  obtain ⟨bindings, bound⟩ : ∃ bindings, settings.configs.mapM resolveBinding = .ok bindings := by
    rcases only.configs with none | standard
    · exact ⟨[], by rw [none]; rfl⟩
    · rw [standard]
      exact ⟨_, by rfl⟩
  simp only [ofSettings, only.triggers, only.globals, numbered, bound]
  rcases @add_commands _ .empty typed distinct fun _ _ =>
    rfl with ⟨final, entered, known, -⟩ | ⟨command, member, takes, refused⟩
  · exact .inl ⟨⟨settings, .builtin, .usual, final, bindings⟩, by rw [entered]; rfl, known⟩
  · exact .inr ⟨command, member, takes, by rw [refused]; rfl⟩

/-- Settings with one command and defaults. -/
def oneCommand (args : List String) : Settings :=
  { Settings.default with commands := [⟨"c", 7, args, ["string"], true⟩] }

theorem plain_command_known :
    ∃ compiler, ofSettings (oneCommand ["int", "obj"]) = .ok compiler ∧
    ∃ info, compiler.symbols.command? "c" = some info ∧
      info.args.map Prim.name? = [some "int", some "obj"] := by
  have only : (oneCommand ["int", "obj"]).CommandsOnly := ⟨rfl, rfl, rfl, .inr rfl⟩
  obtain ⟨compiler, made, known⟩ | ⟨command, member, takes, -⟩ :=
    commands_of_settings only (by decide) (by decide)
  · obtain ⟨-, info, found, describes⟩ := known _ mem_cons_self
    exact ⟨compiler, made, info, found, describes.2.2.2.1⟩
  · rw [mem_singleton.mp member] at takes
    exact absurd takes (by decide)

/-- A command with a hook is refused, although its settings are as they should be. -/
theorem hook_command_refused : (oneCommand [hookName]).CommandsOnly ∧
    (∀ command ∈ (oneCommand [hookName]).commands, command.Typed) ∧
    ofSettings (oneCommand [hookName]) = .error (.commandType "c" "hook") :=
  ⟨⟨rfl, rfl, rfl, .inr rfl⟩, by decide, by rfl⟩

end Compiler

end TriggerScript
