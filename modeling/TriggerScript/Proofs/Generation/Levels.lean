import TriggerScript.Proofs.Generation.Closed
import TriggerScript.Proofs.Generation.Typed

/-!
Heights along generated code.

The code of an expression leaves on the stacks what its type says, that of a decision comes to both
of its labels at the heights it started with, and that of a statement starts and ends with empty
stacks. What the code of a phrase needs of the labels that it is given is said before it is known at
what heights its own labels stand.
-/

namespace TriggerScript

open List TriggerScript.Expr Heights Instruction Item

variable {instruction : Instruction} {here last : Heights} {marks : Places}
  {instructions : List Instruction}
  {low high : Nat} {code : List Item} {target : Label} {operator : Operator}

/-- Labels and the heights at which they stand. -/
abbrev Places := List (Nat × Heights)

/-- What the moves of instructions depend on. -/
structure Ground where
  symbols : SymbolTable
  tables : List SwitchTable
  returns : List Prim

/-- The instruction moves on this ground. -/
abbrev Ground.Moves (ground : Ground) (instruction : Instruction) (stands : Nat → Heights → Prop)
    (here behind : Heights) : Prop :=
  instruction.Moves ground.symbols ground.tables ground.returns stands here behind

section

variable (ground : Ground)

/-- Code leads from some heights to others, past labels of its own. Behind the end of the flow the
heights are arbitrary. -/
inductive Item.Path (stands : Nat → Heights → Prop) :
    Heights → List Item → Places → Heights → Prop where
  | nil {here : Heights} : Path stands here [] [] here
  | mark {marks : Places} {here last : Heights} (rest : Path stands here items marks last) :
      Path stands here (.mark label :: items) ((label.id, here) :: marks) last
  | op {instruction : Instruction} {marks : Places} {here middle last : Heights}
      (moves : ground.Moves instruction stands here middle)
      (rest : Path stands middle items marks last) :
      Path stands here (.op instruction :: items) marks last
  | leap {instruction : Instruction} {marks : Places} {here middle last : Heights}
      (ends : instruction.endsFlow = true)
      (moves : ground.Moves instruction stands here middle)
      (rest : Path stands elsewhere items marks last) :
      Path stands here (.op instruction :: items) marks last

/-- Code leads from some heights to others wherever the labels that it needs and its own ones stand
as listed. -/
def Item.Levels (needs : Places) (here : Heights) (code : List Item) (marks : Places)
    (last : Heights) : Prop :=
  ∀ stands : Nat → Heights → Prop, (∀ place ∈ needs, stands place.1 place.2) →
    (∀ place ∈ marks, stands place.1 place.2) → Path ground stands here code marks last

/-- Code leads from some heights to others, wherever the labels that it needs stand as listed. -/
def Item.Leads (needs : Places) (here : Heights) (code : List Item) (last : Heights) : Prop :=
  ∃ marks, Levels ground needs here code marks last

end

variable {ground : Ground} {symbols : SymbolTable} {tables : List SwitchTable} {returns : List Prim}
  {stands stands' : Nat → Heights → Prop}

theorem Instruction.Moves.mono (moves : ground.Moves instruction stands here behind)
    (more : ∀ id heights, stands id heights → stands' id heights) :
    ground.Moves instruction stands' here behind := by
  obtain ⟨targets, listed, stand⟩ := moves.jumps
  exact ⟨moves.shifts, ⟨targets, listed, fun target member => more _ _ (stand target member)⟩,
    moves.leaves⟩

namespace Item

theorem Path.mono (path : Path ground stands here items marks last)
    (more : ∀ id heights, stands id heights → stands' id heights) :
    Path ground stands' here items marks last := by
  induction path with
  | nil => exact .nil
  | mark _ ih => exact .mark ih
  | op moves _ ih => exact .op (moves.mono more) ih
  | leap ends moves _ ih => exact .leap ends (moves.mono more) ih

theorem Path.append (left : Path ground stands here first marks middle)
    (right : Path ground stands middle second others last) :
    Path ground stands here (first ++ second) (marks ++ others) last := by
  induction left with
  | nil => exact right
  | mark _ ih => exact .mark (ih right)
  | op moves _ ih => exact .op moves (ih right)
  | leap ends moves _ ih => exact .leap ends moves (ih right)

theorem Path.ids_eq (path : Path ground stands here items marks last) :
    marks.map Prod.fst = ids items := by
  induction path with
  | nil => rfl
  | mark _ ih => exact congrArg (List.cons _) ih
  | op _ _ ih => exact ih
  | leap _ _ _ ih => exact ih

namespace Levels

variable {needs : Places} {here middle last : Heights} {code tail : List Item}
  {marks others : Places}

theorem nil : Levels ground needs here [] [] here := fun _ _ _ => .nil

theorem mark (label : Label) (levels : Levels ground needs here code marks last) :
    Levels ground needs here (.mark label :: code) ((label.id, here) :: marks) last := by
  intro stands given own
  exact .mark (levels stands given (forall_mem_cons.mp own).2)

theorem append (left : Levels ground needs here code marks middle)
    (right : Levels ground needs middle tail others last) :
    Levels ground needs here (code ++ tail) (marks ++ others) last := by
  intro stands given own
  rw [forall_mem_append] at own
  exact (left stands given own.1).append (right stands given own.2)

theorem mono (levels : Levels ground needs here code marks last) (sub : needs ⊆ more) :
    Levels ground more here code marks last :=
  fun stands given own => levels stands (fun place member => given place (sub member)) own

theorem closes (inner : Places) (levels : Levels ground (inner ++ needs) here code marks last)
    (sub : inner ⊆ marks) : Leads ground needs here code last := by
  refine ⟨marks, fun stands given own => levels stands ?_ own⟩
  exact forall_mem_append.mpr ⟨fun place member => own place (sub member), given⟩

end Levels

theorem Leads.append {tail : List Item} {middle : Heights} (left : Leads ground [] here code middle)
    (right : Leads ground needs middle tail last) :
    Leads ground needs here (code ++ tail) last := by
  obtain ⟨marks, left⟩ := left
  obtain ⟨others, right⟩ := right
  exact ⟨_, (left.mono (nil_subset _)).append right⟩

end Item

/-- Instructions keep their heights when one has to stand in a block of its own. -/
theorem Laid.levels (laid : Laid instructions low high code)
    (path : Item.Path ground (fun id heights => (id, heights) ∈ needs) here (instructions.map .op)
      [] last) :
    Leads ground needs here code last := by
  suffices placed : ∃ marks,
      Item.Path ground (fun id heights => (id, heights) ∈ needs) here code marks last by
    obtain ⟨marks, path⟩ := placed
    exact ⟨marks, fun stands given _ => path.mono fun id heights member => given _ member⟩
  induction laid generalizing here with
  | nil => exact ⟨[], path⟩
  | here _ ih | apart _ ih =>
    cases path with
    | op moves rest =>
      obtain ⟨marks, later⟩ := ih rest
      first | exact ⟨marks, .op moves later⟩ | exact ⟨_, .mark (.op moves later)⟩
    | leap ends moves rest =>
      obtain ⟨marks, later⟩ := ih rest
      first | exact ⟨marks, .leap ends moves later⟩ | exact ⟨_, .mark (.leap ends moves later)⟩

/-! ### Instructions -/

/-- The instruction only goes on, and does this to the heights. -/
structure Instruction.Shifts (symbols : SymbolTable) (tables : List SwitchTable)
    (instruction : Instruction) (shift : Shift) : Prop where
  shifts : instruction.shift? symbols = some shift
  onward : instruction.targets? tables = some []
  stays : instruction.isOpcode .returnFlow = false

namespace Instruction

/-- An instruction that does not return, where its targets stand. -/
theorem moves_of {shift : Shift} (rest : Heights)
    (shifts : instruction.shift? ground.symbols = some shift)
    (listed : instruction.targets? ground.tables = some targets)
    (stays : instruction.isOpcode .returnFlow = false)
    (stand : ∀ target ∈ targets, stands target.id (rest + shift.gives)) :
    ground.Moves instruction stands (rest + shift.takes) (rest + shift.gives) where
  shifts := ⟨shift, rest, shifts, rfl, rfl⟩
  jumps := ⟨targets, listed, stand⟩
  leaves returned := by cases stays.symm.trans returned

theorem Shifts.moves (shifts : instruction.Shifts symbols tables shift) (rest : Heights) :
    Ground.Moves ⟨symbols, tables, returns⟩ instruction stands (rest + shift.takes)
    (rest + shift.gives) :=
  moves_of rest shifts.shifts shifts.onward shifts.stays (forall_mem_nil _)

theorem shifts_value (value : Value) :
    value.instruction.Shifts symbols tables (.push value.stack) := by
  cases value <;> exact ⟨rfl, rfl, rfl⟩

theorem shifts_store (stack : Stack) (target : Local) :
    (core (.popLocal stack) (.localVar target)).Shifts symbols tables (.pop stack) := by
  cases stack <;> exact ⟨rfl, rfl, rfl⟩

theorem shifts_discard (stack : Stack) :
    (core (.discard stack) (.int 0)).Shifts symbols tables (.pop stack) := by
  cases stack <;> exact ⟨rfl, rfl, rfl⟩

theorem moves_branch (stand : stands target.id here) :
    ground.Moves (core .branch (.label target)) stands here here :=
  @moves_of _ _ _ _ ⟨0, 0⟩ here rfl rfl rfl (forall_mem_singleton.mpr stand)

theorem moves_test (stand : stands target.id here) :
    ground.Moves (core .branchIfTrue (.label target)) stands (here + .one .int) here :=
  @moves_of _ _ _ _ (.pop .int) here rfl rfl rfl (forall_mem_singleton.mpr stand)

theorem moves_compare (operator : Operator) (long : Bool)
    (same : stack = if long then .long else .int) (stand : stands target.id here) :
    ground.Moves (core (operator.branchOpcode long) (.label target)) stands
      (here + (.one stack + .one stack))
      here := by
  refine @moves_of _ _ _ [target] ⟨.one stack + .one stack, 0⟩ here ?_ ?_ ?_
    (forall_mem_singleton.mpr stand)
  · rw [same]
    cases operator <;> cases long <;> rfl
  · cases operator <;> cases long <;> rfl
  · cases operator <;> cases long <;> rfl

theorem moves_switch (found : ground.tables[index]? = some table)
    (stand : ∀ entry ∈ table.cases, stands entry.label.id here) :
    ground.Moves (core .switch (.switch index)) stands (here + .one .int) here :=
  @moves_of _ _ _ _ (.pop .int) here rfl (congrArg (Option.map _) found) rfl
    (forall_mem_map.mpr stand)

theorem moves_return (same : here = .of ground.returns) :
    ground.Moves (core .returnFlow (.int 0)) stands here here where
  shifts := ⟨⟨0, 0⟩, here, rfl, rfl, rfl⟩
  jumps := ⟨[], rfl, fun _ member => nomatch member⟩
  leaves _ := same

end Instruction

/-! ### Expressions -/

theorem Prim.stack_of_default {prim : Prim} (starts : prim.default? = some value) :
    prim.stack? = some value.stack := by
  unfold default? at starts
  split at starts
  · cases starts
  · cases starts
    assumption
  · cases starts
    assumption
  · rename_i lives
    rw [lives]
    split at starts <;> cases starts <;> rfl

namespace Expr

variable {linkage : Linkage} {expr : Expr}

theorem height_of_flat (flat : expr.ty.flatten = [prim]) (lives : prim.stack? = some stack) :
    of expr.ty.flatten = .one stack := by
  rw [flat, of_singleton lives]

theorem height_of_texts {parts : List Expr} (texts : ∀ part ∈ parts, part.ty.flatten = [.string]) :
    of (leaves parts) = .many parts.length .string := by
  rw [leaves_texts texts]
  exact of_replicate rfl _

/-- The instruction of an expression takes what its parts leave and gives what the expression
leaves. -/
theorem Applies.shifts (applies : expr.Applies linkage args instruction)
    (typed : expr.Typed linkage.symbols False) (sound : linkage.symbols.SoundWith False) :
    instruction.Shifts linkage.symbols tables (.of (leaves args) expr.ty.flatten) := by
  -- An expression of one type leaves one value.
  have gives : ∀ {instruction : Instruction} {prim : Prim} {stack : Stack},
      expr.ty.flatten = [prim] → prim.stack? = some stack →
      instruction.Shifts linkage.symbols tables ⟨.of (leaves args), .one stack⟩ →
      instruction.Shifts linkage.symbols tables (.of (leaves args) expr.ty.flatten) := by
    intro instruction prim stack flat lives shifts
    rwa [Shift.of, height_of_flat flat lives]
  cases applies with
  | int | coordgrid | bool | long | text => exact gives typed rfl (shifts_value _)
  | @null prim stack note same lives =>
    obtain ⟨other, flat, declarable⟩ := typed
    obtain ⟨span, ty⟩ := note
    cases ty <;> cases same
    refine gives (Ty.flatten_single (.inl (Option.isSome_of_eq_some lives))) lives ?_
    cases stack <;> exact shifts_value _
  | @localVar stack name target note lives =>
    obtain ⟨_, ⟨⟩, flat, -⟩ := typed
    refine gives flat lives ?_
    cases stack <;> exact ⟨rfl, rfl, rfl⟩
  | arrayElement =>
    obtain ⟨index, prim, flat, lives⟩ := typed
    refine gives flat lives ?_
    rw [leaves_singleton, height_of_flat index rfl]
    exact ⟨rfl, rfl, rfl⟩
  | @global info _ _ found =>
    obtain ⟨known, same, flat⟩ := typed
    obtain rfl := Option.some.inj (found.symm.trans same)
    refine gives flat (sound.globals found) ?_
    cases info.domain <;> exact ⟨rfl, rfl, rfl⟩
  | constant found =>
    obtain ⟨info, known, flat, declarable⟩ := typed
    obtain rfl := Option.some.inj (found.symm.trans known)
    obtain ⟨stack, lives⟩ := Option.isSome_iff_exists.mp declarable
    refine gives flat lives ?_
    rw [← sound.constants found lives]
    exact shifts_value _
  | config =>
    obtain ⟨prim, flat, lives⟩ := typed
    exact gives flat lives (shifts_value (.int _))
  | bare found | command found =>
    obtain ⟨info, known, given, same⟩ := typed
    obtain rfl := Option.some.inj (found.symm.trans known)
    refine ⟨?_, rfl, rfl⟩
    have again : linkage.symbols.command? _ = some _ := SymbolTable.command_name found ▸ found
    refine (congrArg (Option.map _) again).trans ?_
    rw [Option.map_some, given, ← same]
    rfl
  | @call _ _ kind _ _ _ found callable =>
    obtain ⟨info, known, given, same⟩ := typed
    obtain rfl := Option.some.inj (found.symm.trans known)
    have shifted :=
      congrArg (Option.map fun info : ScriptInfo => Shift.of info.params info.returns.flatten) found
    rw [Option.map_some, ← given, ← same] at shifted
    cases kind <;> exact ⟨shifted, rfl, rfl⟩
  | emptyHook => exact typed.1.elim
  | concat fits =>
    obtain ⟨flat, texts⟩ := typed
    refine gives flat rfl ?_
    rw [height_of_texts texts, ← to_nat_of_part_count fits]
    exact ⟨rfl, rfl, rfl⟩
  | @arithmetic operator _ _ _ computes =>
    rw [Typed, if_pos computes] at typed
    obtain ⟨flat, left, right⟩ := typed
    refine gives flat rfl ?_
    rw [leaves_cons, of_append, leaves_singleton, height_of_flat left rfl, height_of_flat right rfl]
    cases operator <;> exact ⟨rfl, rfl, rfl⟩

theorem Stores.shifts (stores : expr.Stores linkage instruction)
    (typed : expr.Typed linkage.symbols False) (sound : linkage.symbols.SoundWith False) :
    instruction.Shifts linkage.symbols tables ⟨.of expr.ty.flatten, 0⟩ := by
  have takes : ∀ {instruction : Instruction} {prim : Prim} {stack : Stack},
      expr.ty.flatten = [prim] → prim.stack? = some stack →
      instruction.Shifts linkage.symbols tables (.pop stack) →
      instruction.Shifts linkage.symbols tables ⟨.of expr.ty.flatten, 0⟩ := by
    intro instruction prim stack flat lives shifts
    rwa [height_of_flat flat lives]
  cases stores with
  | localVar lives =>
    obtain ⟨_, ⟨⟩, flat, -⟩ := typed
    exact takes flat lives (shifts_store _ _)
  | @global info _ _ found =>
    obtain ⟨known, same, flat⟩ := typed
    obtain rfl := Option.some.inj (found.symm.trans same)
    refine takes flat (sound.globals found) ?_
    cases info.domain <;> exact ⟨rfl, rfl, rfl⟩

theorem of_leaves_reverse (exprs : List Expr) : of (leaves exprs.reverse) = of (leaves exprs) := by
  induction exprs with
  | nil => rfl
  | cons expr rest ih =>
    rw [reverse_cons, leaves, flatMap_append, of_append, ← leaves, ih, ← leaves,
      leaves_singleton, leaves_cons, of_append, add_comm]

theorem stores_path (stores : Forall₂ (Stores linkage) targets instructions)
    (typed : ∀ target ∈ targets, target.Typed linkage.symbols False)
    (sound : linkage.symbols.SoundWith False) (here : Heights) :
    Item.Path ⟨linkage.symbols, tables, returns⟩ stands (here + .of (leaves targets))
    (instructions.map .op) []
      here := by
  induction stores with
  | nil => exact .nil
  | @cons target instruction rest _ stored _ ih =>
    rw [forall_mem_cons] at typed
    rw [leaves_cons, of_append, add_comm (of _), ← add_assoc]
    exact .op ((stored.shifts typed.1 sound).moves _) (ih typed.2)

end Expr

theorem discards_path (lives : Forall₂ (fun prim stack => prim.stack? = some stack) prims homes)
    (here : Heights) :
    Item.Path ground stands (here + .of prims)
      ((homes.map fun stack => core (.discard stack) (.int 0)).map .op) [] here := by
  induction lives with
  | nil => exact .nil
  | @cons prim stack rest _ home _ ih =>
    rw [of_cons, of_singleton home, ← add_assoc]
    exact .op ((shifts_discard stack).moves _) ih

theorem defaults_path {values : List Value}
    (starts : Forall₂ (fun prim value => prim.default? = some value) prims values)
    {tail : List Item} (rest : Item.Path ground stands (here + .of prims) tail marks last) :
    Item.Path ground stands here ((values.map Value.instruction).map .op ++ tail) marks last := by
  induction starts generalizing here with
  | nil => exact rest
  | @cons prim value _ _ start _ ih =>
    rw [of_cons, of_singleton (Prim.stack_of_default start), add_comm (of _), ← add_assoc] at rest
    exact .op ((shifts_value value).moves _) (ih rest)

/-! ### Phrases -/

/-- The labels of a loop around stand where nothing is on the stacks. -/
def LoopTargets.places (loop : Option LoopTargets) : Places := (ids loop).map fun id => (id, 0)

/-- The labels of cases stand at some heights. -/
def SwitchCase.places (cases : List SwitchCase) (here : Heights) : Places :=
  cases.map fun entry => (entry.label.id, here)

/-- The phrase is typed throughout. -/
def Phrase.Typed (symbols : SymbolTable) (returns : List Prim) : Phrase → Prop
  | .value expr => expr.Every (Expr.Typed symbols False)
  | .values exprs => ∀ expr ∈ exprs, expr.Every (Expr.Typed symbols False)
  | .truth expr _ _ => expr.Every (Expr.Typed symbols False) ∧ expr.ty.flatten = [.boolean]
  | .stmt statement _ => statement.Every (Stmt.Typed returns) (Expr.Typed symbols False)
  | .stmts body _ =>
    ∀ statement ∈ body, statement.Every (Stmt.Typed returns) (Expr.Typed symbols False)
  | .arms choices _ _ _ => ∀ arm ∈ choices, ∀ statement ∈ arm.body,
    statement.Every (Stmt.Typed returns) (Expr.Typed symbols False)

/-- The heights to which the code of a phrase leads. A decision leaves nothing at either of its
labels, and a statement starts and ends with nothing on the stacks. -/
def Phrase.Leveled (ground : Ground) (code : List Item) : Phrase → Prop
  | .value expr => ∀ here, Leads ground [] here code (here + .of expr.ty.flatten)
  | .values exprs => ∀ here, Leads ground [] here code (here + .of (Expr.leaves exprs))
  | .truth _ ifTrue ifFalse =>
    ∀ here last, Leads ground [(ifTrue.id, here), (ifFalse.id, here)] here code last
  | .stmt _ loop | .stmts _ loop => Leads ground (LoopTargets.places loop) 0 code 0
  | .arms _ loop done cases =>
    ∃ marks, Item.Levels ground ((done.id, 0) :: LoopTargets.places loop) 0 code marks 0 ∧
      ∀ entry ∈ cases, (entry.label.id, 0) ∈ marks

namespace Item.Levels

variable {needs : Places} {here last : Heights}

theorem leaving {target : Label} (code : List Item) (stand : (target.id, here) ∈ needs) :
    Levels ground needs here (leaving target code) [] here := by
  intro stands given _
  unfold TriggerScript.leaving
  split
  · exact .nil
  · exact .leap rfl (moves_branch (given _ stand)) .nil

theorem jumps {ifTrue : Label} (laid : Laid [first, .core .branch (.label ifFalse)] low high code)
    (moves : ∀ stands : Nat → Heights → Prop, stands ifTrue.id here →
      ground.Moves first stands before here) :
    Leads ground [(ifTrue.id, here), (ifFalse.id, here)] before code last := by
  refine laid.levels (.op (moves _ mem_cons_self) (.leap rfl (moves_branch ?_) .nil))
  exact mem_cons_of_mem _ mem_cons_self

theorem outcome (low : Nat) (first second third : String) (here : Heights) :
    Levels ground needs here
      [.mark ⟨low, first⟩, .op (Value.int 1).instruction,
        .op (.core .branch (.label ⟨low + 2, third⟩)), .mark ⟨low + 1, second⟩,
        .op (Value.int 0).instruction, .mark ⟨low + 2, third⟩]
      [(low, here), (low + 1, here), (low + 2, here + .one .int)] (here + .one .int) := by
  intro stands _ own
  have done : stands (low + 2) (here + .one .int) := own (low + 2, here + .one .int) (by simp)
  exact .mark (.op ((shifts_value _).moves here) (.leap rfl (moves_branch done)
    (.mark (.op ((shifts_value _).moves here) (.mark .nil)))))

/-- One instruction that only goes on. -/
theorem shift {instruction : Instruction} {shift : Shift} (laid : Laid [instruction] low high code)
    (shifts : instruction.Shifts symbols tables shift) (rest : Heights) :
    Leads ⟨symbols, tables, returns⟩ needs (rest + shift.takes) code (rest + shift.gives) :=
  laid.levels (.op (shifts.moves rest) .nil)

theorem jump (laid : Laid [.core .branch (.label target)] low high code) :
    Leads ground [(target.id, here)] here code last :=
  laid.levels (.leap rfl (moves_branch (mem_singleton_self _)) .nil)

theorem choose (laid : Laid [.core .switch (.switch index)] low high code)
    (found : ground.tables[index]? = some ⟨cases⟩) :
    Leads ground (SwitchCase.places cases here) (here + .one .int) code here := by
  refine laid.levels (.op (moves_switch found fun entry member => ?_) .nil)
  exact mem_map.mpr ⟨entry, member, rfl⟩

end Item.Levels

/-- A value selects one of several bodies, or what is skipped to. Behind the bodies the labels are
bound that are not bound in them. -/
theorem Item.Leads.select {done : Nat} {value choice skip bodies tail : List Item}
    {cases chosen : List SwitchCase} (part : Leads ground [] 0 value (0 + .one .int))
    (chooses : Leads ground (SwitchCase.places chosen 0) (0 + .one .int) choice 0)
    (skips : Leads ground [(target.id, 0)] 0 skip 0)
    (inside : ∃ marks, Levels ground ((done, 0) :: needs) 0 bodies marks 0 ∧
      ∀ entry ∈ cases, (entry.label.id, 0) ∈ marks)
    (rest : ∃ marks, Levels ground needs 0 tail marks 0 ∧ (done, 0) ∈ marks ∧
      (target.id, 0) ∈ marks ∧ ∀ entry ∈ chosen, entry ∈ cases ∨ (entry.label.id, 0) ∈ marks) :
    Leads ground needs 0 (value ++ (choice ++ (skip ++ (bodies ++ tail)))) 0 := by
  refine part.append ?_
  obtain ⟨_, choice⟩ := chooses
  obtain ⟨_, skip⟩ := skips
  obtain ⟨_, bodies, bound⟩ := inside
  obtain ⟨_, tail, finish, other, listed⟩ := rest
  refine Levels.closes ((done, 0) :: (target.id, 0) :: SwitchCase.places chosen 0)
    ((choice.mono ?_).append ((skip.mono (by simp)).append
      ((bodies.mono ?_).append (tail.mono ?_)))) ?_
  · exact fun _ member => by simp [member]
  · exact cons_subset.mpr ⟨mem_cons_self, subset_append_right ..⟩
  · exact subset_append_right ..
  · refine cons_subset.mpr
      ⟨by simp [finish], cons_subset.mpr ⟨by simp [other], fun place member => ?_⟩⟩
    obtain ⟨entry, among, rfl⟩ := mem_map.mp member
    rcases listed entry among with held | later
    · simp [bound entry held]
    · simp [later]

theorem Operator.not_logical_of_compares
    (compares : (operator.isEquality || operator.isRelational) = true) :
    operator.isArithmetic = false ∧ operator.isLogical = false := by
  cases operator <;> first | exact ⟨rfl, rfl⟩ | cases compares

/-- Both sides of a comparison leave one value on the stack where they are compared. -/
theorem Expr.Typed.compared_stack {note : Note}
    (typed : Typed symbols False (.binary note operator left right))
    (compares : (operator.isEquality || operator.isRelational) = true) :
    ∃ stack : Stack, (stack = if left.isLong then .long else .int) ∧
      of (leaves [left, right]) = .one stack + .one stack := by
  obtain ⟨computes, joins⟩ := Operator.not_logical_of_compares compares
  rw [Typed, if_neg (by simp [computes]), if_neg (by simp [joins])] at typed
  obtain ⟨-, prim, stack, first, second, lives, no_text⟩ := typed
  have flat := Ty.flatten_single (.inl (Option.isSome_of_eq_some lives))
  refine ⟨stack, stack_of_compared first lives no_text, ?_⟩
  rw [leaves_cons, of_append, leaves_singleton, first, second, flat, of_singleton lives]

theorem Expr.Typed.decided_flat {expr : Expr} (typed : expr.Typed symbols False)
    (decides : expr.isDecision = true) : expr.ty.flatten = [.boolean] := by
  cases expr with
  | binary note operator left right =>
    rw [Typed, if_neg (by simpa [isDecision] using decides)] at typed
    split at typed
    · exact typed.1
    · exact typed.1
  | _ => cases decides

theorem Expr.Every.joined {note : Note} {left right : Expr}
    (typed : Every (Typed symbols False) (.binary note operator left right))
    (computes : operator.isArithmetic = false) (joins : operator.isLogical = true) :
    (left.Every (Typed symbols False) ∧ left.ty.flatten = [.boolean]) ∧
      right.Every (Typed symbols False) ∧ right.ty.flatten = [.boolean] := by
  have here := typed.here
  rw [Typed, if_neg (by simp [computes]), if_pos joins] at here
  obtain ⟨first, second⟩ := forall_mem_cons.mp typed.within
  exact ⟨⟨first, here.2.1⟩, forall_mem_singleton.mp second, here.2.2⟩

variable {linkage : Linkage} {locals : LocalMap}

theorem Coded.leveled (coded : Coded linkage tables locals phrase low high code)
    (typed : phrase.Typed linkage.symbols returns) (sound : linkage.symbols.SoundWith False) :
    phrase.Leveled ⟨linkage.symbols, tables, returns⟩ code := by
  induction coded with
  | apply applies _ laid ih =>
    intro here
    have within := typed.within
    rw [applies.parts_eq] at within
    exact (ih within here).append (Levels.shift laid (applies.shifts typed.here sound) here)
  | calculation _ ih =>
    intro here
    have part := ih (typed.within _ (mem_singleton_self _)) here
    obtain ⟨outer, inner⟩ := typed.here
    rw [inner] at part
    exact outer ▸ part
  | hook => exact typed.here.1.elim
  | @decided _ low _ _ decides _ ih =>
    intro here
    have flat := typed.here.decided_flat decides
    obtain ⟨marks, test⟩ := ih ⟨typed, flat⟩ here here
    rw [height_of_flat flat rfl]
    exact Levels.closes [(low, here), (low + 1, here)] (test.append (.outcome low _ _ _ here))
      (by simp)
  | noValues => exact fun here => ⟨[], .nil⟩
  | someValues _ _ ih ih' =>
    intro here
    rw [Phrase.Typed, forall_mem_cons] at typed
    rw [leaves_cons, of_append, ← add_assoc]
    exact (ih typed.1 here).append (ih' typed.2 (here + .of _))
  | tested _ _ laid ih =>
    intro here last
    have value := ih typed.1 here
    rw [height_of_flat typed.2 rfl] at value
    exact value.append (Levels.jumps laid fun _ stand => moves_test stand)
  | @either _ ifTrue low _ _ _ ifFalse _ _ _ _ _ ih ih'
  | @both _ low ifFalse _ _ _ ifTrue _ _ _ _ _ ih ih' =>
    intro here last
    obtain ⟨left, right⟩ := typed.1.joined rfl rfl
    obtain ⟨marks, first⟩ := ih left here here
    obtain ⟨others, second⟩ := ih' right here last
    exact Levels.closes [(low, here)] ((first.mono (by simp)).append
      ((second.mono (by simp)).mark _)) (by simp)
  | compared compares _ laid ih =>
    intro here last
    have values := ih typed.1.within here
    obtain ⟨stack, same, height⟩ := typed.1.here.compared_stack compares
    rw [height] at values
    exact values.append (Levels.jumps laid fun _ stand => moves_compare _ _ same stand)
  | noStmts => exact ⟨[], .nil⟩
  | someStmts _ _ ih ih' =>
    rw [Phrase.Typed, forall_mem_cons] at typed
    obtain ⟨marks, first⟩ := ih typed.1
    obtain ⟨others, rest⟩ := ih' typed.2
    exact ⟨_, first.append rest⟩
  | block _ ih => exact ih typed.within
  | @ifThen _ low _ _ _ _ _ _ _ _ _ ih ih' =>
    obtain ⟨flat, condition⟩ := typed.here
    obtain ⟨marks, test⟩ := ih ⟨forall_mem_singleton.mp condition, flat⟩ 0 0
    obtain ⟨others, body⟩ := ih' (typed.within _ (mem_singleton_self _))
    exact Levels.closes [(low, 0), (low + 1, 0)] ((test.mono (by simp)).append
      (.mark _ ((body.mono (subset_append_right ..)).append (.mark _ .nil)))) (by simp)
  | @ifElse _ low _ _ _ _ _ _ _ _ _ _ _ _ _ ih ih' ih'' =>
    obtain ⟨flat, condition⟩ := typed.here
    obtain ⟨body, otherwise⟩ := forall_mem_cons.mp typed.within
    obtain ⟨marks, test⟩ := ih ⟨forall_mem_singleton.mp condition, flat⟩ 0 0
    obtain ⟨inside, body⟩ := ih' body
    obtain ⟨beside, otherwise⟩ := ih'' (otherwise _ (mem_singleton_self _))
    exact Levels.closes [(low, 0), (low + 1, 0), (low + 2, 0)] ((test.mono (by simp)).append
      (.mark _ (((body.mono (subset_append_right ..)).append (.leaving _ (by simp))).append
        (.mark _ ((otherwise.mono (subset_append_right ..)).append (.mark _ .nil)))))) (by simp)
  | @whileLoop _ low _ _ _ _ _ loop _ _ _ ih ih' =>
    obtain ⟨flat, condition⟩ := typed.here
    obtain ⟨marks, test⟩ := ih ⟨forall_mem_singleton.mp condition, flat⟩ 0 0
    obtain ⟨others, body⟩ := ih' (typed.within _ (mem_singleton_self _))
    exact Levels.closes [(low, 0), (low + 1, 0), (low + 2, 0)]
      (.mark _ ((test.mono (by simp)).append
        (.mark _ (((body.mono (by simp [LoopTargets.places, LoopTargets.ids])).append
          (.leaving _ (by simp))).append (.mark _ .nil))))) (by simp)
  | continueLoop laid | breakLoop laid =>
    obtain ⟨marks, jump⟩ := Levels.jump laid
    exact ⟨marks, jump.mono (by simp [LoopTargets.places, LoopTargets.ids])⟩
  | «return» _ laid ih =>
    obtain ⟨same, values⟩ := typed.here
    have parts := ih values 0
    rw [zero_add, show leaves _ = returns from same] at parts
    exact parts.append (laid.levels (.leap rfl (moves_return rfl) .nil))
  | declare lives _ _ laid ih =>
    obtain ⟨⟨-, flat⟩, init⟩ := typed.here
    have part := ih (init _ (mem_singleton_self _)) 0
    rw [height_of_flat (flat _ rfl) lives] at part
    exact part.append (Levels.shift laid (shifts_store _ _) 0)
  | declareDefault lives _ starts laid =>
    have home := Option.some.inj (lives.symm.trans (Prim.stack_of_default starts))
    refine laid.levels (.op ((shifts_value _).moves 0) (.op ?_ .nil))
    rw [home]
    exact (shifts_store _ _).moves 0
  | declareArray _ laid ih =>
    obtain ⟨flat, size⟩ := typed.here
    have part := ih (size _ (mem_singleton_self _)) 0
    rw [height_of_flat flat rfl] at part
    exact part.append (Levels.shift laid ⟨rfl, rfl, rfl⟩ 0)
  | @assignElement _ values _ _ _ _ _ _ _ _ _ _ _ laid ih =>
    obtain ⟨⟨same, -⟩, exprs⟩ := typed.here
    obtain ⟨target, given⟩ := forall_mem_cons.mp exprs
    obtain ⟨index, prim, flat, lives⟩ := target.here
    have height : of (leaves values) = .one .int := by
      rw [same, leaves_singleton]
      exact height_of_flat flat lives
    have place := target.within _ (mem_singleton_self _)
    have parts := ih (forall_mem_cons.mpr ⟨place, given⟩) 0
    rw [leaves_cons, of_append, height_of_flat index rfl, height] at parts
    exact parts.append (Levels.shift laid ⟨rfl, rfl, rfl⟩ 0)
  | assign _ stores laid ih =>
    obtain ⟨⟨same, -⟩, exprs⟩ := typed.here
    obtain ⟨targets, values⟩ := forall_mem_append.mp exprs
    have parts := ih values 0
    rw [same, ← of_leaves_reverse] at parts
    exact parts.append (laid.levels (stores_path stores
      (fun target member => (targets target (mem_reverse.mp member)).here) sound 0))
  | discarded _ lives laid ih =>
    have part := ih (typed.here.2 _ (mem_singleton_self _)) 0
    rw [← of_reverse] at part
    exact part.append (laid.levels (discards_path lives 0))
  | switch _ chooses skips _ table ih ih' =>
    obtain ⟨⟨flat, lives⟩, condition⟩ := typed.here
    have part := ih (condition _ (mem_singleton_self _)) 0
    rw [height_of_flat flat lives] at part
    have bodies := ih' fun arm member statement held =>
      typed.within statement (mem_flatMap.mpr ⟨arm, mem_append_left _ member, held⟩)
    exact part.select (Levels.choose chooses table) (Levels.jump skips) bodies
      ⟨_, .mark _ .nil, mem_cons_self, mem_cons_self, fun _ listed => .inl listed⟩
  | switchDefault _ chooses skips _ _ table ih ih' ih'' =>
    obtain ⟨⟨flat, lives⟩, condition⟩ := typed.here
    have part := ih (condition _ (mem_singleton_self _)) 0
    rw [height_of_flat flat lives] at part
    have bodies := ih' fun arm member statement held =>
      typed.within statement (mem_flatMap.mpr ⟨arm, mem_append_left _ member, held⟩)
    obtain ⟨beside, fallback⟩ := ih'' fun statement held =>
      typed.within statement (mem_flatMap.mpr ⟨_, mem_append_right _ (mem_singleton_self _), held⟩)
    refine part.select (Levels.choose chooses table) (Levels.jump skips) bodies
      ⟨_, .mark _ (fallback.append (.mark _ .nil)), by simp, mem_cons_self, fun entry listed => ?_⟩
    exact (mem_append.mp listed).imp_right fun last => by simp [mem_singleton.mp last]
  | noArms => exact ⟨[], .nil, forall_mem_nil _⟩
  | someArms _ _ ih ih' =>
    rw [Phrase.Typed, forall_mem_cons] at typed
    obtain ⟨marks, body⟩ := ih typed.1
    obtain ⟨others, rest, bound⟩ := ih' typed.2
    refine ⟨_,
      .mark _ (((body.mono (subset_cons_self ..)).append (.leaving _ mem_cons_self)).append rest),
      ?_⟩
    refine forall_mem_cons.mpr ⟨mem_cons_self, fun entry member => ?_⟩
    simp [bound entry member]

end TriggerScript
