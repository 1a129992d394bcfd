import TriggerScript.Compiler.Batch
import TriggerScript.Proofs.Compiler.Bindings
import TriggerScript.Proofs.Compiler.Declarations
import TriggerScript.Proofs.Data.Checked

/-!
Names of results.

The result of a script is kept under the names of its trigger and of the script, that of a
configuration under the extension of its file and its name, with an underscore between them. Two
results of a batch without faults are kept under one name only if one is a script whose trigger is
the extension of the other, or if the underscore can be found in two places.
-/

namespace TriggerScript

open List Declaration SymbolTable

namespace SymbolTable

/-- A table has what another one has, and perhaps more in its innermost layer. -/
structure Grows (table grown : SymbolTable) : Prop where
  outer : grown.outer = table.outer
  constants : table.top.constants <+: grown.top.constants
  scripts : table.top.scripts <+: grown.top.scripts
  configs : table.top.configs <+: grown.top.configs

namespace Grows

variable {table grown : SymbolTable}

theorem refl (table : SymbolTable) : table.Grows table :=
  ⟨rfl, prefix_rfl, prefix_rfl, prefix_rfl⟩

theorem find {α : Type} {entries : Layer → List α} (grows : table.Grows grown)
    (kept : entries table.top <+: entries grown.top) {wanted : α → Bool}
    (known : table.layers.findSome? (fun layer => (entries layer).find? wanted) ≠ none) :
    grown.layers.findSome? (fun layer => (entries layer).find? wanted) ≠ none := by
  intro missing
  refine known (findSome?_eq_none_iff.mpr fun layer member => ?_)
  rw [layers, grows.outer, findSome?_eq_none_iff, forall_mem_cons] at missing
  rcases mem_cons.mp member with rfl | outer
  · exact find?_eq_none.mpr fun info listed => find?_eq_none.mp missing.1 info (kept.subset listed)
  · exact missing.2 layer outer

theorem knows (grows : table.Grows grown) {tag : DeclarationKind × String}
    (known : table.Knows tag) :
    grown.Knows tag := by
  obtain ⟨kind, name⟩ := tag
  cases kind with
  | script => exact grows.find grows.scripts known
  | constant => exact grows.find grows.constants known
  | config => exact grows.find grows.configs known

end Grows

theorem find_of_mem {α : Type} {entries : Layer → List α} {table : SymbolTable} {info : α}
    {wanted : α → Bool} (member : info ∈ entries table.top) (here : wanted info = true) :
    table.layers.findSome? (fun layer => (entries layer).find? wanted) ≠ none := by
  intro missing
  rw [layers, findSome?_eq_none_iff, forall_mem_cons] at missing
  exact find?_eq_none.mp missing.1 info member here

end SymbolTable

/-- Something that is made and kept: its kind, the trigger or the extension that it belongs to, and
its name. -/
@[ext] structure Result where
  kind : DeclarationKind
  owner : String
  name : String
  deriving DecidableEq

namespace Result

/-- The name that a declaration of the result enters into a table. -/
def tag (result : Result) : DeclarationKind × String :=
  match result.kind with
  | .script => (.script, scriptKey result.owner result.name)
  | kind => (kind, result.name)

/-- The name under which the result is kept. -/
def fileName (result : Result) : String := artifactName result.owner result.name

/-- The underscore behind the owner of one result stands inside the owner of the other, and what is
behind it there is the start of the name here. -/
def Overlaps (first second : Result) : Prop :=
  ∃ middle, second.owner = first.owner ++ "_" ++ middle ∧ first.name = middle ++ "_" ++ second.name

theorem Overlaps.ne {first : Result} (overlaps : first.Overlaps second) : first ≠ second := by
  rintro rfl
  obtain ⟨middle, owner, -⟩ := overlaps
  have longer := congrArg String.length owner
  simp only [String.length_append] at longer
  have mark : "_".length = 1 := rfl
  omega

theorem overlaps_of_split {first second : Result}
    (owner : second.owner.toList = first.owner.toList ++ middle)
    (name : '_' :: first.name.toList = middle ++ '_' :: second.name.toList) :
    (first.owner = second.owner ∧ first.name = second.name) ∨ first.Overlaps second := by
  cases middle with
  | nil =>
    rw [append_nil] at owner
    rw [nil_append, List.cons.injEq] at name
    exact .inl ⟨(String.toList_inj.mp owner).symm, String.toList_inj.mp name.2⟩
  | cons mark middle =>
    rw [cons_append, List.cons.injEq] at name
    obtain ⟨rfl, name⟩ := name
    refine .inr ⟨String.ofList middle, String.toList_inj.mp ?_, String.toList_inj.mp ?_⟩
    · simp [owner]
    · simp [name]

/-- Two results are kept under one name if they have the same owner and name, or overlap. -/
theorem file_name_eq_iff (first second : Result) :
    first.fileName = second.fileName ↔
    (first.owner = second.owner ∧ first.name = second.name) ∨ first.Overlaps second ∨
      second.Overlaps first := by
  constructor
  · intro same
    have joined : first.owner.toList ++ '_' :: first.name.toList =
      second.owner.toList ++ '_' :: second.name.toList := by
      have spelled := congrArg String.toList same
      simp only [fileName, artifactName, String.toList_append] at spelled
      simpa using append_cancel_right spelled
    rcases append_eq_append_iff.mp joined with ⟨middle, owner, name⟩ | ⟨middle, owner, name⟩
    · exact (overlaps_of_split owner name).imp_right .inl
    · exact (overlaps_of_split owner name).imp (fun equal => ⟨equal.1.symm, equal.2.symm⟩) .inr
  · rintro (⟨owner, name⟩ | ⟨middle, owner, name⟩ | ⟨middle, owner, name⟩)
    · rw [fileName, fileName, owner, name]
    · simp only [fileName, artifactName, owner, name, String.append_assoc]
    · simp only [fileName, artifactName, owner, name, String.append_assoc]

end Result

namespace Declaration

variable {triggers : Triggers} {table : SymbolTable} {declaration : Declaration}

/-- The declarations for which a result is kept. -/
def yields : Declaration → Bool
  | .script _ | .config _ _ => true
  | .constant _ => false

theorem define_of_known (known : table.Knows declaration.tag) :
    (declaration.define triggers table).1 = table ∧
    (declaration.yields = true → (declaration.define triggers table).2 ≠ []) := by
  cases declaration with
  | script source =>
    obtain ⟨info, taken⟩ : ∃ info, table.script? source.trigger.text source.name.text = some info :=
      Option.ne_none_iff_exists'.mp known
    cases named : triggers.named? source.trigger.text <;>
      simp [define, Script.define, named, defineScript, taken]
  | constant source =>
    obtain ⟨info, taken⟩ : ∃ info, table.constant? source.name.text = some info :=
      Option.ne_none_iff_exists'.mp known
    refine ⟨?_, by simp [yields]⟩
    simp only [define, Constant.define, defineConstant, taken]
    split
    · split <;> rfl
    · rfl
  | config binding source =>
    obtain ⟨info, taken⟩ : ∃ info, table.config? source.name.text = some info :=
      Option.ne_none_iff_exists'.mp known
    simp [define, Config.define, defineConfig, taken]

theorem grows_define (declaration : Declaration) :
    table.Grows (declaration.define triggers table).1 := by
  by_cases known : table.Knows declaration.tag
  · rw [(define_of_known known).1]
    exact .refl table
  · rw [define_of_new known]
    cases declaration with
    | script source =>
      rw [enter]
      cases triggers.named? source.trigger.text with
      | none => exact .refl table
      | some trigger => exact ⟨rfl, prefix_rfl, prefix_append .., prefix_rfl⟩
    | constant source =>
      rw [enter]
      cases source.value.literal? with
      | none => exact .refl table
      | some typed => exact ⟨rfl, prefix_append .., prefix_rfl, prefix_rfl⟩
    | config => exact ⟨rfl, prefix_rfl, prefix_rfl, prefix_append ..⟩

/-- Whatever is entered without a fault was new. -/
theorem new_of_clean (clean : (declaration.define triggers table).2 = [])
    (made : declaration.yields = true) :
    ¬ table.Knows declaration.tag ∧ (declaration.define triggers table).1.Knows
      declaration.tag := by
  have new : ¬ table.Knows declaration.tag := fun known => (define_of_known known).2 made clean
  refine ⟨new, ?_⟩
  rw [define_of_new new] at clean ⊢
  cases declaration with
  | script source =>
    rw [enter]
    cases named : triggers.named? source.trigger.text with
    | none => simp [faults, named] at clean
    | some trigger =>
      exact find_of_mem (mem_append_right _ (mem_singleton_self _)) (decide_eq_true rfl)
  | constant => cases made
  | config => exact find_of_mem (mem_append_right _ (mem_singleton_self _)) (decide_eq_true rfl)

/-- Scripts and configurations that are entered without a fault have different names. -/
theorem distinct_of_clean (clean : (defineAll triggers table declarations).2 = []) :
    ((declarations.filter yields).map tag).Nodup ∧
      ∀ declaration ∈ declarations.filter yields, ¬ table.Knows declaration.tag := by
  induction declarations generalizing table with
  | nil => exact ⟨nodup_nil, forall_mem_nil _⟩
  | cons declaration rest ih =>
    obtain ⟨here, later⟩ := append_eq_nil_iff.mp clean
    obtain ⟨distinct, unknown⟩ := ih later
    have unknown_before : ∀ other ∈ rest.filter yields, ¬ table.Knows other.tag :=
      fun other member known =>
      unknown other member ((grows_define declaration).knows known)
    by_cases made : declaration.yields = true
    · obtain ⟨new, known⟩ := new_of_clean here made
      rw [filter_cons_of_pos made, map_cons, nodup_cons]
      refine ⟨⟨fun member => ?_, distinct⟩, forall_mem_cons.mpr ⟨new, unknown_before⟩⟩
      obtain ⟨other, listed, same⟩ := mem_map.mp member
      exact unknown other listed (same ▸ known)
    · rw [filter_cons_of_neg made]
      exact ⟨distinct, unknown_before⟩

theorem named_of_clean (clean : (defineAll triggers table declarations).2 = [])
    (member : .script source ∈ declarations) :
    source.trigger.text ∈ triggers.entries.map Trigger.name := by
  induction declarations generalizing table with
  | nil => cases member
  | cons declaration rest ih =>
    obtain ⟨here, later⟩ := append_eq_nil_iff.mp clean
    rcases mem_cons.mp member with rfl | listed
    · cases known : triggers.named? source.trigger.text with
      | none => simp [Script.define, known] at here
      | some trigger =>
        refine mem_map.mpr ⟨trigger, mem_of_find?_eq_some known, ?_⟩
        simpa using find?_some known
    · exact ih later listed

theorem define_all_append (first second : List Declaration) :
    (defineAll triggers table (first ++ second)).2 = (defineAll triggers table first).2 ++
      (defineAll triggers (defineAll triggers table first).1 second).2 := by
  induction first generalizing table with
  | nil => rfl
  | cons declaration rest ih => simp only [cons_append, defineAll, ih, append_assoc]

/-- The result of a declaration in a file of an extension. -/
def result? (extension : String) : Declaration → Option Result
  | .script source => some ⟨.script, source.trigger.text, source.name.text⟩
  | .constant _ => none
  | .config _ source => some ⟨.config, extension, source.name.text⟩

end Declaration

namespace Draft

variable {compiler : Compiler} {table : SymbolTable} {draft : Draft}

/-- The results that a draft can have. -/
def results (draft : Draft) : List Result :=
  draft.declarations.filterMap (Declaration.result? draft.file.extension)

theorem results_tags :
    draft.results.map Result.tag = (draft.declarations.filter yields).map tag := by
  rw [results]
  induction draft.declarations with
  | nil => rfl
  | cons declaration rest ih =>
    cases declaration with
    | script | config => exact congrArg (_ :: ·) ih
    | constant => exact ih

theorem results_check (compiler : Compiler) (table : SymbolTable) :
    (check compiler table draft).results = draft.results := by
  obtain ⟨file, source, contents, faults⟩ := draft
  cases contents with
  | scripts declared =>
    simp only [results, declarations, Contents.declarations, check, Contents.check, map_map,
      filterMap_map]
    rfl
  | configs | constants | unsupported => rfl

theorem results_define_all (compiler : Compiler) (table : SymbolTable) :
    (defineAll compiler table drafts).2.flatMap results = drafts.flatMap results := by
  induction drafts generalizing table with
  | nil => rfl
  | cons draft rest ih => rw [defineAll, flatMap_cons, flatMap_cons, ih]; rfl

theorem define_of_clean (clean : ∀ draft ∈ (defineAll compiler table drafts).2, draft.faults = []) :
    (Declaration.defineAll compiler.triggers table (drafts.flatMap declarations)).2 = [] := by
  induction drafts generalizing table with
  | nil => rfl
  | cons draft rest ih =>
    rw [defineAll] at clean
    obtain ⟨here, later⟩ := forall_mem_cons.mp clean
    rw [flatMap_cons, define_all_append, declarations, ← Contents.define_eq, ih later,
      (append_eq_nil_iff.mp here).2]
    rfl

theorem results_nodup (clean : ∀ draft ∈ (defineAll compiler table drafts).2, draft.faults = []) :
    (drafts.flatMap results).Nodup := by
  refine Nodup.of_map Result.tag ?_
  have tags : (drafts.flatMap results).map Result.tag =
    ((drafts.flatMap declarations).filter yields).map tag := by
    simp only [map_flatMap, filter_flatMap, results_tags]
  rw [tags]
  exact (Declaration.distinct_of_clean (define_of_clean clean)).1

end Draft

/-! ### Compiled files -/

def CompiledFile.results (compiled : CompiledFile) : List Result :=
  (compiled.scripts.filterMap fun script => script.code.map fun _ =>
      ⟨.script, script.tree.trigger.text, script.tree.name.text⟩)
    ++ (compiled.configs.filterMap fun config => config.record.map fun _ =>
      ⟨.config, compiled.file.extension, config.tree.name.text⟩)

theorem CompiledFile.artifact_names (compiled : CompiledFile) :
    compiled.artifacts.map Prod.fst = compiled.results.map Result.fileName := by
  simp only [artifacts, results, map_append, map_filterMap, Option.map_map]
  rfl

namespace Compilation

def results (compilation : Compilation) : List Result :=
  compilation.files.flatMap CompiledFile.results

theorem artifact_names (compilation : Compilation) :
    compilation.artifacts.map Prod.fst = compilation.results.map Result.fileName := by
  simp only [artifacts, results, map_flatMap, CompiledFile.artifact_names]

theorem clean_of_fault_count {compilation : Compilation} (clean : compilation.faultCount = 0) :
    ∀ file ∈ compilation.files, file.faults = [] := by
  rw [faultCount] at clean
  generalize compilation.files = files at clean
  induction files with
  | nil => exact forall_mem_nil _
  | cons file rest ih =>
    obtain ⟨here, later⟩ := Nat.add_eq_zero_iff.mp clean
    exact forall_mem_cons.mpr ⟨length_eq_zero_iff.mp here, ih later⟩

end Compilation

namespace Compiler

variable {compiler : Compiler} {table : SymbolTable}

section

variable {α β γ : Type}

theorem generate_all_declared (wanted : Bool) (generate : α → Except Diagnostic β)
    (declared : List α) : (generateAll wanted generate declared).1.map Prod.fst = declared := by
  rw [generateAll]
  split <;> simp [Function.comp_def]

theorem made_sublist (label : α → γ) (results : List (α × Option β)) :
    (results.filterMap fun (declaration, result) => result.map fun _ => label declaration).Sublist
      ((results.map Prod.fst).map label) := by
  induction results with
  | nil => exact .slnil
  | cons entry rest ih =>
    obtain ⟨declaration, result⟩ := entry
    cases result with
    | none => exact ih.cons _
    | some result => exact ih.cons_cons _

end

theorem results_finish : (compiler.finish table generates draft).results.Sublist draft.results := by
  obtain ⟨file, source, contents, faults⟩ := draft
  cases contents with
  | scripts declared =>
    have made :=
      made_sublist (fun script : Script => Result.mk .script script.trigger.text script.name.text)
      (generateAll (generates && faults.isEmpty) (compiler.generateScript table) declared).1
    rw [generate_all_declared] at made
    simpa [finish, CompiledFile.results, Draft.results, Draft.declarations, Contents.declarations,
      result?, Function.comp_def, filterMap_map] using made
  | configs binding declared =>
    have made :=
      made_sublist (fun config : Config => Result.mk .config file.extension config.name.text)
      (generateAll (generates && faults.isEmpty) (generateConfig table binding) declared).1
    rw [generate_all_declared] at made
    simpa [finish, CompiledFile.results, Draft.results, Draft.declarations, Contents.declarations,
      result?, Function.comp_def, filterMap_map] using made
  | constants | unsupported => exact nil_sublist _

/-! ### Owners -/

end Compiler

namespace Settings

def triggerNames (settings : Settings) : List String :=
  Triggers.builtin.entries.map Trigger.name ++ settings.triggers.map TriggerSettings.name

def configExtensions (settings : Settings) : List String := settings.configs.map Prod.fst

/-- No trigger is also an extension, and no owner, with an underscore behind it, is the start of
another. -/
structure OwnersApart (settings : Settings) : Prop where
  kinds : ∀ owner ∈ settings.triggerNames, owner ∉ settings.configExtensions
  starts : ∀ first ∈ settings.triggerNames ++ settings.configExtensions,
    ∀ second ∈ settings.triggerNames ++ settings.configExtensions,
    ¬ first.toList ++ ['_'] <+: second.toList

/-- The owner of a result is a trigger or an extension, as its kind says. -/
def Owns (settings : Settings) (result : Result) : Prop :=
  (result.kind = .script ∧ result.owner ∈ settings.triggerNames) ∨
    (result.kind = .config ∧ result.owner ∈ settings.configExtensions)

variable {settings : Settings}

theorem Owns.mem (owns : settings.Owns first) :
    first.owner ∈ settings.triggerNames ++ settings.configExtensions := by
  rcases owns with ⟨_, trigger⟩ | ⟨_, extension⟩
  · exact mem_append_left _ trigger
  · exact mem_append_right _ extension

theorem OwnersApart.not_overlaps (apart : settings.OwnersApart) (owns : settings.Owns first)
    (other : settings.Owns second) : ¬ first.Overlaps second := by
  rintro ⟨middle, owner, -⟩
  refine apart.starts _ owns.mem _ other.mem ?_
  rw [owner, String.toList_append, String.toList_append]
  exact prefix_append ..

theorem OwnersApart.kind_eq (apart : settings.OwnersApart) (owns : settings.Owns first)
    (other : settings.Owns second) (owner : first.owner = second.owner) :
    first.kind = second.kind := by
  rcases owns with ⟨kind, trigger⟩ | ⟨kind, extension⟩ <;>
    rcases other with ⟨kind', trigger'⟩ | ⟨kind', extension'⟩
  · rw [kind, kind']
  · exact absurd (owner ▸ extension') (apart.kinds _ trigger)
  · exact absurd (owner ▸ extension) (apart.kinds _ trigger')
  · rw [kind, kind']

end Settings

theorem Triggers.names_register {triggers : Triggers}
    (member : name ∈ (triggers.register trigger).entries.map Trigger.name) :
    name ∈ triggers.entries.map Trigger.name ∨ name = trigger.name := by
  obtain ⟨entry, listed, rfl⟩ := mem_map.mp member
  rw [register] at listed
  split at listed
  · obtain ⟨former, held, rfl⟩ := mem_map.mp listed
    split
    · exact .inr rfl
    · exact .inl (mem_map_of_mem held)
  · rcases mem_append.mp listed with held | last
    · exact .inl (mem_map_of_mem held)
    · exact .inr (congrArg Trigger.name (mem_singleton.mp last))

theorem Triggers.names_of_settings (made : ofSettings vocabulary settings = .ok triggers)
    (member : name ∈ triggers.entries.map Trigger.name) :
    name ∈ builtin.entries.map Trigger.name ++ settings.map TriggerSettings.name := by
  rw [ofSettings] at made
  refine holds_of_foldlM (fun known => ∀ name ∈ known.entries.map Trigger.name,
    name ∈ builtin.entries.map Trigger.name ++ settings.map TriggerSettings.name) made
    (fun name known => mem_append_left _ known) (fun trigger listed known next held added => ?_)
    name member
  simp only [add, bind_eq_ok] at added
  obtain ⟨operator, _, added⟩ := added
  split at added
  · cases added
  · cases added
    intro name member
    rcases names_register member with former | rfl
    · exact held name former
    · exact mem_append_right _ (mem_map_of_mem listed)

theorem Contents.binding_of_read {config : Config}
    (member : .config binding config ∈ (read compiler extension source).1.declarations) :
    compiler.binding? extension = some binding := by
  rw [read] at member
  split at member
  · simp [declarations] at member
  · split at member
    · simp [declarations] at member
    · split at member
      · rename_i found
        obtain ⟨_, _, same⟩ := mem_map.mp member
        cases same
        exact found
      · simp [declarations] at member

namespace Compiler

variable {settings : Settings} {compiler : Compiler} {batch : Batch}

theorem compile_results : (compiler.compile batch).results.Sublist
    ((batch.files.map (Draft.read compiler)).flatMap Draft.results) := by
  rw [compile]
  split
  · exact nil_sublist _
  · rw [← Draft.results_define_all compiler compiler.symbols.enter]
    simp only [Compilation.results, flatMap_map]
    refine Sublist.flatMap_right _ fun draft _ => ?_
    rw [← Draft.results_check compiler]
    exact results_finish

/-- A batch without faults has no fault in its declarations, unless it was called off. -/
theorem define_of_clean (clean : (compiler.compile batch).faultCount = 0)
    (wanted : batch.cancelled = false) :
    ∀ draft ∈ (Draft.defineAll compiler compiler.symbols.enter
      (batch.files.map (Draft.read compiler))).2,
      draft.faults = [] := by
  intro draft member
  have files := Compilation.clean_of_fault_count clean
  simp only [compile, wanted, Bool.false_eq_true, if_false, forall_mem_map] at files
  have finished := files draft member
  rw [finish] at finished
  split at finished
  · exact (append_eq_nil_iff.mp (append_eq_nil_iff.mp finished).1).1
  · exact (append_eq_nil_iff.mp (append_eq_nil_iff.mp finished).1).1
  · exact (append_eq_nil_iff.mp finished).1
  · exact (append_eq_nil_iff.mp finished).1

theorem results_of_cancelled (cancelled : batch.cancelled = true) :
    (compiler.compile batch).results = [] := by
  rw [compile, if_pos cancelled]
  rfl

theorem compile_results_nodup (clean : (compiler.compile batch).faultCount = 0) :
    (compiler.compile batch).results.Nodup := by
  cases cancelled : batch.cancelled with
  | true =>
    rw [results_of_cancelled cancelled]
    exact nodup_nil
  | false => exact (Draft.results_nodup (define_of_clean clean cancelled)).sublist compile_results

/-- The results of a batch without faults belong to known triggers and extensions. -/
theorem compile_results_owned (made : ofSettings settings = .ok compiler)
    (clean : (compiler.compile batch).faultCount = 0)
    (member : result ∈ (compiler.compile batch).results) : settings.Owns result := by
  cases cancelled : batch.cancelled with
  | true => simp [results_of_cancelled cancelled] at member
  | false =>
    have defined := Draft.define_of_clean (define_of_clean clean cancelled)
    obtain ⟨draft, read, possible⟩ := mem_flatMap.mp (compile_results.subset member)
    obtain ⟨declaration, listed, yields⟩ := mem_filterMap.mp possible
    cases declaration with
    | script source =>
      cases yields
      have entered : .script source ∈ (batch.files.map (Draft.read compiler)).flatMap
        Draft.declarations :=
        mem_flatMap.mpr ⟨draft, read, listed⟩
      exact .inl ⟨rfl, Triggers.names_of_settings (triggers_made made)
        (named_of_clean defined entered)⟩
    | constant => cases yields
    | config binding source =>
      cases yields
      obtain ⟨file, _, rfl⟩ := mem_map.mp read
      exact .inr ⟨rfl, (binding_made made (Contents.binding_of_read listed)).1⟩

/-- Of a batch without faults, no result is kept under the name of another exactly if no script
belongs to a trigger that is the extension of a configuration of the same name, and no two results
overlap. Neither can happen with settings that keep the owners apart. -/
theorem artifacts_distinct_iff (made : ofSettings settings = .ok compiler) (batch : Batch)
    (clean : (compiler.compile batch).faultCount = 0) :
    (((compiler.compile batch).artifacts.map Prod.fst).Nodup ↔
      ∀ first ∈ (compiler.compile batch).results, ∀ second ∈ (compiler.compile batch).results,
        (first.owner = second.owner → first.name = second.name → first.kind = second.kind) ∧
        ¬ first.Overlaps second) ∧
    (settings.OwnersApart → ((compiler.compile batch).artifacts.map Prod.fst).Nodup) := by
  have exactly : ((compiler.compile batch).artifacts.map Prod.fst).Nodup ↔
      ∀ first ∈ (compiler.compile batch).results, ∀ second ∈ (compiler.compile batch).results,
        (first.owner = second.owner → first.name = second.name → first.kind = second.kind) ∧
          ¬ first.Overlaps second := by
    rw [Compilation.artifact_names, List.nodup_map_iff_inj_on (compile_results_nodup clean)]
    constructor
    · intro injective first member second member'
      have same := injective first member second member'
      rw [Result.file_name_eq_iff] at same
      refine ⟨fun owner name => congrArg Result.kind (same (.inl ⟨owner, name⟩)),
        fun overlaps => ?_⟩
      exact overlaps.ne (same (.inr (.inl overlaps)))
    · intro apart first member second member' same
      rcases (Result.file_name_eq_iff first second).mp same with ⟨owner, name⟩ | overlaps | overlaps
      · exact Result.ext ((apart first member second member').1 owner name) owner name
      · exact absurd overlaps (apart first member second member').2
      · exact absurd overlaps (apart second member' first member).2
  refine ⟨exactly, fun apart => exactly.mpr fun first member second member' => ?_⟩
  have owns := compile_results_owned made clean member
  have owns' := compile_results_owned made clean member'
  exact ⟨fun owner _ => apart.kind_eq owns owns' owner, apart.not_overlaps owns owns'⟩

/-- The compiler for the settings finds no fault in the files, and the names of their results are as
asked. -/
def compilesTo (settings : Settings) (files : List SourceFile) (asked : List String → Bool) :
    Bool :=
  (ofSettings settings).toOption.any fun compiler =>
    (compiler.compile ⟨files, true, false⟩).faultCount = 0 &&
      asked ((compiler.compile ⟨files, true, false⟩).artifacts.map Prod.fst)

theorem exists_of_compiles_to (settings : Settings) (files : List SourceFile)
    (asked : List String → Bool) (compiles : compilesTo settings files asked = true) :
    ∃ compiler, ofSettings settings = .ok compiler ∧
      (compiler.compile ⟨files, true, false⟩).faultCount = 0 ∧
      asked ((compiler.compile ⟨files, true, false⟩).artifacts.map Prod.fst) = true := by
  rw [compilesTo] at compiles
  cases made : ofSettings settings with
  | error => simp [made, Except.toOption] at compiles
  | ok compiler =>
    simp only [made, Except.toOption, Option.any_some, Bool.and_eq_true,
      decide_eq_true_eq] at compiles
    exact ⟨compiler, rfl, compiles⟩

/-- Three scripts and a configuration whose names hold underscores and those of others. -/
def underscoredFiles : List SourceFile := [
  .ofPath ⟨"a.cs2"⟩ (utf8 "[proc,x]() [proc,x_x]() [label,x_x]()"),
  .ofPath ⟨"b.param"⟩ (utf8 "[x_x]\ntype=int\n")]

theorem default_owners_apart : Settings.default.OwnersApart := ⟨by decide, by decide⟩

/-- The triggers that always exist and the extension of parameters are told apart. -/
theorem artifacts_of_underscored_files :
    ∃ compiler, ofSettings .default = .ok compiler ∧ Settings.default.OwnersApart ∧
      (compiler.compile ⟨underscoredFiles, true, false⟩).faultCount = 0 ∧
      (compiler.compile ⟨underscoredFiles, true, false⟩).artifacts.map Prod.fst =
        ["proc_x.bin", "proc_x_x.bin", "label_x_x.bin", "param_x_x.bin"] ∧
      ((compiler.compile ⟨underscoredFiles, true, false⟩).artifacts.map Prod.fst).Nodup := by
  obtain ⟨compiler, made, clean, names⟩ := exists_of_compiles_to .default underscoredFiles
    (· = ["proc_x.bin", "proc_x_x.bin", "label_x_x.bin", "param_x_x.bin"]) (by decide +kernel)
  exact ⟨compiler, made, default_owners_apart, clean, of_decide_eq_true names,
    (artifacts_distinct_iff made _ clean).2 default_owners_apart⟩

/-- Triggers of which one, with an underscore behind it, is the start of the other. -/
def overlappingSettings : Settings :=
  { Settings.default with
    triggers := [⟨"a", none, none, false, false⟩, ⟨"a_b", none, none, false, false⟩] }

/-- Two scripts of a batch without faults are kept under one name. -/
theorem artifacts_overwritten :
    ∃ compiler, ofSettings overlappingSettings = .ok compiler ∧
      (compiler.compile ⟨[.ofPath ⟨"x.cs2"⟩ (utf8 "[a,b_c]() [a_b,c]()")], true,
        false⟩).faultCount = 0 ∧
      ¬ ((compiler.compile ⟨[.ofPath ⟨"x.cs2"⟩ (utf8 "[a,b_c]() [a_b,c]()")], true,
        false⟩).artifacts.map
        Prod.fst).Nodup := by
  obtain ⟨compiler, made, clean, names⟩ := exists_of_compiles_to overlappingSettings
    [.ofPath ⟨"x.cs2"⟩ (utf8 "[a,b_c]() [a_b,c]()")] (· = ["a_b_c.bin", "a_b_c.bin"])
    (by decide +kernel)
  refine ⟨compiler, made, clean, ?_⟩
  rw [of_decide_eq_true names]
  decide

end Compiler

end TriggerScript
