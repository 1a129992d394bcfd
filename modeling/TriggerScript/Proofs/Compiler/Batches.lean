import TriggerScript.Compiler.Batch
import TriggerScript.Proofs.Compiler.Bindings
import TriggerScript.Proofs.Config.Meaning
import TriggerScript.Proofs.Parsing.Trees

/-!
Tables of batches.

In the table that the files of a batch share, constants stand for literals, configurations are of
types of configurations, since a binding gives them no other, and the types of everything else are
known.
-/

namespace TriggerScript

open List

variable {table next : SymbolTable} {compiler : Compiler}

/-- Scripts are as they are read, and configurations can be written. -/
def Contents.Readable : Contents → Prop
  | .scripts declared => ∀ script ∈ declared, script.Read (fun _ => True) True True
  | .configs binding _ => binding.Usable
  | .constants _ | .unsupported => True

theorem Contents.read_readable (made : Compiler.ofSettings settings = .ok compiler)
    (extension source : String) : (Contents.read compiler extension source).1.Readable := by
  unfold Contents.read
  split
  · intro script member
    refine Grammar.scripts_read ⟨fun _ => Vocabulary.scripts_plain, fun _ _ _ => trivial,
      fun _ _ _ => trivial⟩
      member (.inl trivial)
  · split
    · trivial
    · split
      · exact Compiler.usable_of_settings made ‹_›
      · trivial

/-- What commands, scripts and globals give is of known types. -/
structure Layer.Known (layer : Layer) : Prop where
  commands : ∀ info ∈ layer.commands, info.returns.isUndefined = false
  scripts : ∀ info ∈ layer.scripts, info.returns.isUndefined = false
  globals : ∀ info ∈ layer.globals, info.prim ≠ .undefined

theorem Layer.Known.inside (layer : Layer) : layer.inside.Known :=
  ⟨forall_mem_nil _, forall_mem_nil _, forall_mem_nil _⟩

namespace SymbolTable

/-- Every configuration is of a type of configurations. -/
def Grouped (table : SymbolTable) : Prop :=
  ∀ layer ∈ table.layers, ∀ info ∈ layer.configs, info.prim.isConfig = true

theorem Grouped.config {name : String} {info : ConfigInfo} (grouped : table.Grouped)
    (found : table.config? name = some info) : info.prim.isConfig = true := by
  obtain ⟨layer, member, inside⟩ := exists_of_findSome?_eq_some found
  exact grouped layer member info (mem_of_find?_eq_some inside)

/-- What is known of the table of a batch. -/
structure Batched (table : SymbolTable) : Prop where
  literal : table.Literal
  grouped : table.Grouped

/-- The table of a batch, in which all types are known. -/
structure Definite (table : SymbolTable) : Prop extends table.Batched where
  known : ∀ layer ∈ table.layers, layer.Known

namespace Definite

theorem command_known (definite : table.Definite) (found : table.command? name = some info) :
    info.returns.isUndefined = false := by
  obtain ⟨layer, member, inside⟩ := exists_of_findSome?_eq_some found
  exact (definite.known layer member).commands info (mem_of_find?_eq_some inside)

theorem script_known (definite : table.Definite) (found : table.script? trigger name = some info) :
    info.returns.isUndefined = false := by
  obtain ⟨layer, member, inside⟩ := exists_of_findSome?_eq_some found
  exact (definite.known layer member).scripts info (mem_of_find?_eq_some inside)

theorem global_known (definite : table.Definite) (found : table.global? name = some info) :
    info.prim ≠ .undefined := by
  obtain ⟨layer, member, inside⟩ := exists_of_findSome?_eq_some found
  exact (definite.known layer member).globals info (mem_of_find?_eq_some inside)

theorem empty : SymbolTable.empty.Definite :=
  ⟨⟨forall_mem_singleton.mpr (forall_mem_nil _), forall_mem_singleton.mpr (forall_mem_nil _)⟩,
    forall_mem_singleton.mpr (.inside Layer.empty)⟩

theorem enter (definite : table.Definite) : table.enter.Definite :=
  ⟨⟨forall_mem_cons.mpr ⟨forall_mem_nil _, definite.literal⟩,
    forall_mem_cons.mpr ⟨forall_mem_nil _, definite.grouped⟩⟩,
    forall_mem_cons.mpr ⟨.inside _, definite.known⟩⟩

/-- Only the innermost layer of a table changes. -/
theorem of_top (definite : table.Definite) (literal : next.Literal)
    (outer : next.outer = table.outer)
    (configs : ∀ info ∈ next.top.configs, info.prim.isConfig = true ∨ info ∈ table.top.configs)
    (known : table.top.Known → next.top.Known) : next.Definite := by
  obtain ⟨here, behind⟩ := forall_mem_cons.mp definite.grouped
  obtain ⟨known_here, known_behind⟩ := forall_mem_cons.mp definite.known
  refine ⟨⟨literal, forall_mem_cons.mpr ⟨fun info member => ?_, outer ▸ behind⟩⟩,
    forall_mem_cons.mpr ⟨known known_here, outer ▸ known_behind⟩⟩
  exact (configs info member).elim id (here info)

theorem add_command {command : CommandSettings} (definite : table.Definite)
    (added : Compiler.addCommand table command = .ok next) : next.Definite := by
  simp only [Compiler.addCommand, bind_eq_ok] at added
  obtain ⟨_, _, returns, resolved, added⟩ := added
  unfold defineCommand at added
  split at added <;> cases added
  refine definite.of_top (literal_of_constants definite.literal rfl rfl) rfl (fun _ => .inr)
    fun known => ?_
  refine ⟨forall_mem_append.mpr ⟨known.commands, forall_mem_singleton.mpr ?_⟩, known.scripts,
    known.globals⟩
  refine Ty.known_of_list fun prim member => ?_
  obtain ⟨name, _, named⟩ := exists_of_mem_mapM resolved member
  cases found : Prim.ofSource? name with
  | none =>
    rw [found] at named
    cases named
  | some prim =>
    rw [found] at named
    cases named
    exact Prim.known_of_source found

theorem add_global {entry : GlobalSettings} (definite : table.Definite)
    (added : Compiler.addGlobal table entry = .ok next) : next.Definite := by
  unfold Compiler.addGlobal at added
  split at added
  case h_1 => cases added
  case h_2 found =>
    unfold defineGlobal at added
    split at added <;> cases added
    refine definite.of_top (literal_of_constants definite.literal rfl rfl) rfl (fun _ => .inr)
      fun known => ?_
    exact ⟨known.commands, known.scripts,
      forall_mem_append.mpr ⟨known.globals, forall_mem_singleton.mpr (Prim.known_of_source found)⟩⟩

theorem of_settings {settings : Settings} (made : Compiler.ofSettings settings = .ok compiler) :
    compiler.symbols.Definite := by
  simp only [Compiler.ofSettings, bind_eq_ok] at made
  obtain ⟨_, _, _, _, withCommands, commands, symbols, globals, _, _, made⟩ := made
  cases made
  have definite : withCommands.Definite := holds_of_foldlM _ commands empty fun _ _ _ _ =>
    add_command
  exact holds_of_foldlM _ globals definite fun _ _ _ _ => add_global

theorem define_script {triggers : Triggers} {script : Script} (definite : table.Definite)
    (typed : script.returns.isUndefined = false) : (script.define triggers table).1.Definite := by
  unfold Script.define
  split
  · exact definite
  · dsimp only
    split
    case h_1 defined =>
      unfold defineScript at defined
      split at defined <;> cases defined
      refine definite.of_top (literal_of_constants definite.literal rfl rfl) rfl (fun _ => .inr)
        fun known => ?_
      exact ⟨known.commands, forall_mem_append.mpr ⟨known.scripts, forall_mem_singleton.mpr typed⟩,
        known.globals⟩
    case h_2 => exact definite

theorem define_constant {constant : Constant} (definite : table.Definite) :
    (constant.define table).1.Definite := by
  have literal : (constant.define table).1.Literal := literal_define_constant definite.literal
  revert literal
  unfold Constant.define
  split
  · exact fun _ => by split <;> exact definite
  · split
    case h_1 defined =>
      unfold defineConstant at defined
      split at defined <;> cases defined
      exact fun literal => definite.of_top literal rfl (fun _ => .inr) fun known =>
        ⟨known.commands, known.scripts, known.globals⟩
    case h_2 => exact fun _ => definite

theorem define_config {binding : Binding} {config : Config} (usable : binding.Usable)
    (definite : table.Definite) : (config.define binding table).1.Definite := by
  unfold Config.define
  split
  case h_1 defined =>
    unfold defineConfig at defined
    split at defined <;> cases defined
    refine definite.of_top (literal_of_constants definite.literal rfl rfl) rfl
      (fun info member => ?_) fun known =>
      ⟨known.commands, known.scripts, known.globals⟩
    rcases mem_append.mp member with old | new
    · exact .inr old
    · cases mem_singleton.mp new
      exact .inl usable.group
  case h_2 => exact definite

theorem define {contents : Contents} (definite : table.Definite) (readable : contents.Readable) :
    (contents.define compiler table).1.Definite := by
  cases contents with
  | scripts declared =>
    rw [Contents.define]
    induction declared generalizing table with
    | nil => exact definite
    | cons script rest ih =>
      obtain ⟨read, others⟩ := forall_mem_cons.mp readable
      exact ih (definite.define_script read.returns) others
  | constants declared =>
    rw [Contents.define]
    induction declared generalizing table with
    | nil => exact definite
    | cons constant rest ih => exact ih definite.define_constant trivial
  | configs binding declared =>
    rw [Contents.define]
    induction declared generalizing table with
    | nil => exact definite
    | cons config rest ih => exact ih (definite.define_config readable) readable
  | unsupported => exact definite

theorem define_all {drafts : List Draft} (definite : table.Definite)
    (readable : ∀ draft ∈ drafts, draft.contents.Readable) :
    (Draft.defineAll compiler table drafts).1.Definite := by
  induction drafts generalizing table with
  | nil => exact definite
  | cons draft rest ih =>
    rw [forall_mem_cons] at readable
    exact ih (definite.define readable.1) readable.2

end Definite

end SymbolTable

/-- The table that the files of a batch share. -/
def Compiler.symbolsOf (compiler : Compiler) (files : List SourceFile) : SymbolTable :=
  (Draft.defineAll compiler compiler.symbols.enter (files.map (Draft.read compiler))).1

theorem Compiler.symbols_definite {settings : Settings} (made : ofSettings settings = .ok compiler)
    (files : List SourceFile) : (compiler.symbolsOf files).Definite :=
  (SymbolTable.Definite.of_settings made).enter.define_all
    (forall_mem_map.mpr fun _ _ => Contents.read_readable made _ _)

end TriggerScript
