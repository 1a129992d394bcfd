import TriggerScript.Proofs.Compiler.Triggers
import TriggerScript.Proofs.Generation.Levels

/-!
Checked scripts have safe code.

A path through the items of a routine is cut at the labels into walks through its blocks. The labels
of a routine are distinct, so the heights along the path give each block one height to start at.
-/

namespace TriggerScript

open List

variable {symbols : SymbolTable} {tables : List SwitchTable} {returns : List Prim}
  {stands : Nat → Heights → Prop}

/-! ### From paths to blocks -/

/-- Through the instructions of a block a path is a walk, and behind them it goes on where that came
to, unless the flow has ended. -/
theorem Item.Path.walk {instructions : List Instruction}
    (path : Path ⟨symbols, tables, returns⟩ stands here (instructions.map .op ++ rest) marks last)
    (tidy : Tidy (instructions.map .op)) :
    ∃ middle next, Instruction.Walk symbols tables returns stands here instructions middle ∧
      Path ⟨symbols, tables, returns⟩ stands next rest marks last ∧
      (instructions.getLast?.any Instruction.endsFlow = false → next = middle) := by
  induction instructions generalizing here with
  | nil => exact ⟨here, here, .nil, path, fun _ => rfl⟩
  | cons instruction others ih =>
    cases path with
    | op moves later =>
      obtain ⟨middle, next, walk, behind, same⟩ := ih later tidy.of_cons
      refine ⟨middle, next, .cons moves walk, behind, fun open_end => ?_⟩
      cases others with
      | nil =>
        cases walk
        exact same rfl
      | cons => exact same (by rwa [getLast?_cons_cons] at open_end)
    | leap ends moves later =>
      -- Nothing stands behind the end of the flow.
      cases others with
      | nil =>
        refine ⟨_, _, .cons moves .nil, later, fun open_end => ?_⟩
        simp [ends] at open_end
      | cons next others =>
        have follows : instruction.endsFlow = false := (isChain_cons_cons.mp tidy).1
        rw [ends] at follows
        cases follows

/-- The heights are those at which a path comes to its labels. -/
def Places.Agree (marks : Places) (height : Nat → Heights) : Prop :=
  ∀ place ∈ marks, height place.1 = place.2

/-- A path through blocks walks through each of them, from the heights of its label to those of the
label behind it. -/
theorem Item.Path.walks {before after : List Block} {block : Block} {marks : Places}
    {here last : Heights} {height : Nat → Heights}
    (path : Path ⟨symbols, tables, returns⟩ stands here
      ((before ++ block :: after).flatMap Block.items) marks last)
    (tidy : Tidy ((before ++ block :: after).flatMap Block.items)) (agree : marks.Agree height) :
    ∃ middle, Instruction.Walk symbols tables returns stands (height block.label.id)
      block.instructions middle ∧
      (block.endsFlow = false → ∀ next rest, after = next :: rest →
        height next.label.id = middle) := by
  induction before generalizing here marks with
  | nil =>
    rw [nil_append, flatMap_cons, Block.items, cons_append] at path tidy
    cases path with
    | mark later =>
      obtain ⟨first, agree⟩ := forall_mem_cons.mp agree
      obtain ⟨middle, next, walk, behind, same⟩ := later.walk (isChain_append.mp tidy.of_cons).1
      refine ⟨middle, (show height block.label.id = here from first) ▸ walk, ?_⟩
      rintro goes_on other rest rfl
      rw [flatMap_cons, Block.items, cons_append] at behind
      cases behind with
      | mark => exact ((forall_mem_cons.mp agree).1).trans (same goes_on)
  | cons first before ih =>
    rw [cons_append, flatMap_cons, Block.items, cons_append] at path tidy
    have split := isChain_append.mp tidy.of_cons
    cases path with
    | mark later =>
      obtain ⟨middle, next, walk, behind, -⟩ := later.walk split.1
      exact ih behind split.2.1 (forall_mem_cons.mp agree).2

/-- The heights of distinct labels. -/
def Places.height (marks : Places) (id : Nat) : Heights := (marks.lookup id).getD 0

theorem Places.agree_height {marks : Places} (distinct : (marks.map Prod.fst).Nodup) :
    marks.Agree marks.height := by
  intro place member
  induction marks with
  | nil => cases member
  | cons first rest ih =>
    obtain ⟨id, heights⟩ := first
    rw [map_cons, nodup_cons] at distinct
    rcases mem_cons.mp member with rfl | later
    · simp [height]
    · have other : (place.1 == id) = false :=
        beq_eq_false_iff_ne.mpr fun same => distinct.1 (mem_map.mpr ⟨place, later, same⟩)
      rw [height, lookup_cons, other]
      exact ih distinct.2 later

namespace Routine

variable {routine : Routine}

theorem safe_of_levels {marks : TriggerScript.Places} {last : Heights}
    (levels : Item.Levels ⟨symbols, routine.tables, returns⟩ [] 0 routine.items marks last)
    (tidy : Item.Tidy routine.items) (distinct : routine.LabelsDistinct)
    (ends : ∃ block, routine.blocks.getLast? = some block ∧ block.endsFlow = true) :
    routine.StackSafe symbols returns := by
  have ids := (levels (fun _ _ => True) (fun _ _ => trivial) fun _ _ => trivial).ids_eq
  have agree : marks.Agree marks.height :=
    Places.agree_height (ids ▸ labels_distinct_iff.mp distinct)
  have stand : ∀ place ∈ marks, routine.StandsAt marks.height place.1 place.2 := by
    intro place member
    have bound : place.1 ∈ Item.ids routine.items := ids ▸ mem_map_of_mem member
    rw [items, Block.ids_items] at bound
    exact ⟨mem_map.mp bound, agree place member⟩
  have path := levels (routine.StandsAt marks.height) (forall_mem_nil _) stand
  refine ⟨marks.height, ?_, fun before block after split => ?_⟩
  · cases all : routine.blocks with
    | nil => simp [all] at ends
    | cons first rest =>
      rw [items, all, flatMap_cons, Block.items, cons_append] at path
      cases path with
      | mark => exact ⟨first, rest, rfl, agree _ mem_cons_self⟩
  · rw [items, split] at path tidy
    obtain ⟨last, walk, next⟩ := path.walks tidy agree
    refine ⟨last, walk, fun goes_on => ?_⟩
    cases after with
    | nil =>
      obtain ⟨final, found, closes⟩ := ends
      obtain rfl : block = final := by simpa [split] using found
      rw [goes_on] at closes
      cases closes
    | cons other rest => exact ⟨other, rest, rfl, next goes_on other rest rfl⟩

theorem unsafe_of_number (code : routine.blocks.map Block.instructions =
      [[.core .pushIntConstant (.int value), .core .returnFlow (.int operand)]]) :
    ¬ routine.StackSafe symbols [.string] := by
  rintro ⟨height, leveled⟩
  obtain ⟨block, rest, all, start⟩ := leveled.entry
  obtain ⟨last, walk, -⟩ := leveled.blocks [] block rest all
  rw [all, map_cons, List.cons.injEq] at code
  rw [code.1, start] at walk
  cases walk with
  | cons pushed later =>
    cases later with
    | cons returned _ =>
      obtain ⟨shift, bottom, known, before, behind⟩ := pushed.shifts
      obtain rfl := Option.some.inj known
      have due : bottom + .one .int = Heights.of [.string] := behind ▸ returned.leaves rfl
      have none_below : bottom = 0 := before.symm
      have absurd_height := congrFun due .string
      rw [none_below] at absurd_height
      cases absurd_height

end Routine

namespace Script

variable {script : Script} {routine : Routine}

theorem Compiled.safe (compiled : script.Compiled linkage routine)
    (typed : script.Every (Stmt.Typed script.returns.flatten) (Expr.Typed linkage.symbols False))
    (sound : linkage.symbols.SoundWith False) :
    routine.StackSafe linkage.symbols script.returns.flatten := by
  obtain ⟨mid, high, code, tail, all, coded, closing⟩ := compiled.coded
  obtain ⟨marks, body⟩ := coded.leveled typed sound
  suffices levels : ∃ last, Item.Leads ⟨linkage.symbols, routine.tables,
    script.returns.flatten⟩ [] 0
      routine.items last by
    obtain ⟨last, marks, levels⟩ := levels
    exact Routine.safe_of_levels levels compiled.tidy compiled.labels_distinct compiled.ends
  rw [all]
  cases closing with
  | ended =>
    rw [append_nil]
    exact ⟨_, _, .mark _ body⟩
  | defaults starts placed =>
    have returned : Item.Path ⟨linkage.symbols, routine.tables, script.returns.flatten⟩
        (fun id heights => (id, heights) ∈ ([] : Places)) (0 + .of script.returns.flatten)
        [.op (.core .returnFlow (.int 0))] [] 0 :=
      .leap rfl (Instruction.moves_return (zero_add _)) .nil
    have path := defaults_path starts returned
    rw [← map_singleton, ← map_append] at path
    obtain ⟨others, last⟩ := placed.levels path
    exact ⟨_, _, .mark _ (body.append last)⟩

theorem Elaborates.returns_eq (elaborated : Elaborates symbols capacity source script) :
    script.returns = source.returns := by
  rw [elaborated.same]

theorem Elaborates.typed (elaborated : Elaborates symbols capacity source script)
    (read : source.Read callable hooked False) (sound : symbols.SoundWith hooked)
    (declarable : ∀ prim ∈ source.returns.flatten, prim.isDeclarable = true)
    (kept : script.Every Stmt.Discardable Expr.Sized) :
    script.Every (Stmt.Typed script.returns.flatten) (Expr.Typed symbols hooked) := by
  obtain ⟨names, last, legal, body, -⟩ := elaborated.begins read.params
  rw [elaborated.returns_eq]
  intro stmt member
  exact body.each legal (fun source held _ _ _ legal elaborated =>
    elaborated.every_typed legal sound declarable (read.body source held)) stmt member
    (kept stmt member)

end Script

/-! ### Scripts that were read -/

theorem SymbolTable.Sound.no_hooks (sound : symbols.Sound)
    (hook : symbols.isHookArgument name index = true) : False := by
  rw [SymbolTable.isHookArgument, Option.any_eq_true] at hook
  obtain ⟨info, found, hook⟩ := hook
  have member : Prim.hook ∈ info.args := mem_of_getElem? (of_decide_eq_true hook)
  cases sound.commands found .hook (mem_append_left _ member)

/-- A table that knows one configuration and nothing else. -/
def SymbolTable.ofConfig (info : ConfigInfo) : SymbolTable :=
  { SymbolTable.empty with top := { Layer.empty with configs := [info] } }

theorem SymbolTable.sound_of_config {info : ConfigInfo}
    (numbered : info.prim.isConfig = true ∨ info.prim.stack? = some .int) :
    (ofConfig info).Sound := by
  constructor
  case configs =>
    intro name found known
    have same : found = info := by
      simp only [config?, ofConfig, empty, layers, findSome?_cons, findSome?_nil] at known
      grind
    exact same ▸ numbered
  all_goals
    intros
    contradiction

namespace Script

/-- A script that was read and then checked gets code if the values that it forgets live on stacks
and words can count the parts of its texts, and all code of it is safe. -/
theorem generate_stack_safe {text : String} {triggers : Triggers} {known symbols : SymbolTable}
    {capacity : Nat} {source script : Script} (sound : symbols.Sound) (callable : triggers.Callable)
    (commands : ∀ name, known.command? name = symbols.command? name)
    (parsed : source ∈ (Grammar.ofTables text triggers known).scripts.1) (intact : source.Intact)
    (declarable : ∀ prim ∈ source.returns.flatten, prim.isDeclarable = true)
    (checked : source.check symbols capacity = (script, [])) :
    (script.Every Stmt.Discardable Expr.Sized →
        ∃ routine, script.generate ⟨symbols, triggers⟩ = .ok routine) ∧
      ∀ routine, script.generate ⟨symbols, triggers⟩ = .ok routine →
        routine.StackSafe symbols script.returns.flatten := by
  have hooks : ∀ name index, known.isHookArgument name index = true → False := by
    intro name index hook
    rw [SymbolTable.isHookArgument, commands] at hook
    exact sound.no_hooks hook
  have read : source.Read (Linkage.Calls ⟨symbols, triggers⟩) False False :=
    (Grammar.scripts_read (Grammar.admits_of_tables callable hooks) parsed (.inl trivial)).strict
      intact
  have elaborated := check_elaborates checked
  constructor
  · intro kept
    exact (generate_ok_iff read checked).mpr ⟨kept, .inr (elaborated.returns_eq ▸ declarable)⟩
  · intro routine generated
    have compiled := generate_compiled generated
    exact compiled.safe (elaborated.typed read sound.soundWith declarable compiled.realizable.body)
      sound.soundWith

/-- A script of a text that is read and checked without a fault, if there is one whose code is as
asked. -/
theorem exists_checked (symbols : SymbolTable) (text : String) (returns : List Prim)
    (asked : Option Routine → Bool)
    (found : ((Grammar.ofTables text .builtin symbols).scripts.2.isEmpty &&
      (Grammar.ofTables text .builtin symbols).scripts.1.any fun source =>
        source.returns.flatten = returns && (source.check symbols 5).2.isEmpty && asked
          ((source.check symbols 5).1.generate ⟨symbols, .builtin⟩).toOption) = true) :
    (Grammar.ofTables text .builtin symbols).scripts.2 = [] ∧
      ∃ source ∈ (Grammar.ofTables text .builtin symbols).scripts.1,
      source.returns.flatten = returns ∧
        (source.check symbols 5).2 = [] ∧
        asked ((source.check symbols 5).1.generate ⟨symbols, .builtin⟩).toOption = true := by
  simp only [Bool.and_eq_true, any_eq_true, decide_eq_true_eq, List.isEmpty_iff] at found
  obtain ⟨clean, source, parsed, ⟨returned, unfaulted⟩, holds⟩ := found
  exact ⟨clean, source, parsed, returned, unfaulted, holds⟩

/-- A loop, an assignment and two values that are returned. -/
theorem generate_loop_stack_safe : let symbols := SymbolTable.ofConfig ⟨"sword", .obj, none, 0⟩
    let text :=
      "[proc,f](int $a)(int, obj) while ($a < 3) \x7b $a = calc($a + 1); \x7d return($a, sword);"
    ∃ source ∈ (Grammar.ofTables text .builtin symbols).scripts.1, ∃ routine,
      (source.check symbols 5).1.generate ⟨symbols, .builtin⟩ = .ok routine ∧
        routine.StackSafe symbols [.int, .obj] := by
  intro symbols text
  have sound : symbols.Sound := SymbolTable.sound_of_config (.inl rfl)
  obtain ⟨clean, source, parsed, returned, unfaulted, generates⟩ :=
    exists_checked symbols text [.int, .obj] Option.isSome (by decide +kernel)
  have checked : source.check symbols 5 = ((source.check symbols 5).1, []) := Prod.ext rfl unfaulted
  have read : source.Read (Linkage.Calls ⟨symbols, .builtin⟩) False False :=
    Grammar.scripts_read (Grammar.admits_of_tables Triggers.callable_builtin fun _ _ =>
      sound.no_hooks)
      parsed (.inr clean)
  cases generated : (source.check symbols 5).1.generate ⟨symbols, .builtin⟩ with
  | error => simp [generated, Except.toOption] at generates
  | ok routine =>
    have safe := (generate_stack_safe sound Triggers.callable_builtin (fun _ => rfl) parsed
      read.intact (returned ▸ by decide) checked).2 routine generated
    rw [(check_elaborates checked).returns_eq, returned] at safe
    exact ⟨source, parsed, routine, generated, safe⟩

/-- Checking asks nothing of the types of configurations. A value that lives on no stack can be
forgotten, and then there is no code. A configuration that passes for a text is a number to its
code, which then returns a number where a text is due. -/
theorem checked_config_unsafe : (let symbols := SymbolTable.ofConfig ⟨"p", .param, none, 0⟩
      let read := (Grammar.ofTables "[proc,f]() p;" .builtin symbols).scripts
      read.2 = [] ∧ ∃ source ∈ read.1, source.returns.flatten = [] ∧
      (source.check symbols 5).2 = [] ∧
        ∀ routine, (source.check symbols 5).1.generate ⟨symbols, .builtin⟩ ≠ .ok routine) ∧
      (let symbols := SymbolTable.ofConfig ⟨"s", .string, none, 0⟩
        let read := (Grammar.ofTables "[proc,f]()(string) return(s);" .builtin symbols).scripts
        read.2 = [] ∧ ∃ source ∈ read.1, source.returns.flatten = [.string] ∧
          (source.check symbols 5).2 = [] ∧
          ∃ routine, (source.check symbols 5).1.generate ⟨symbols, .builtin⟩ = .ok routine ∧
            ¬ routine.StackSafe symbols [.string]) := by
  constructor
  · intro symbols read
    obtain ⟨clean, source, parsed, returned, unfaulted, fails⟩ :=
      exists_checked symbols "[proc,f]() p;" [] Option.isNone (by decide +kernel)
    refine ⟨clean, source, parsed, returned, unfaulted, fun routine generated => ?_⟩
    simp [generated, Except.toOption] at fails
  · intro symbols read
    obtain ⟨clean, source, parsed, returned, unfaulted, holds⟩ :=
      exists_checked symbols "[proc,f]()(string) return(s);" [.string] (Option.any fun routine =>
        routine.blocks.map Block.instructions =
          [[.core .pushIntConstant (.int 0), .core .returnFlow (.int 0)]])
        (by decide +kernel)
    refine ⟨clean, source, parsed, returned, unfaulted, ?_⟩
    cases generated : (source.check symbols 5).1.generate ⟨symbols, .builtin⟩ with
    | error => simp [generated, Except.toOption] at holds
    | ok routine =>
      rw [generated] at holds
      exact ⟨routine, rfl, Routine.unsafe_of_number (of_decide_eq_true holds)⟩

end Script

end TriggerScript
