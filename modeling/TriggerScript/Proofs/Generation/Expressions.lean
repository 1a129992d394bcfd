import TriggerScript.Proofs.Execution.Progress
import TriggerScript.Proofs.Generation.Shape
import TriggerScript.Proofs.Generation.Slots

/-!
Code of expressions.

The code of an expression leaves what the expression means on the stacks, or jumps to one of two
labels by its truth. It faults where the expression has no meaning. The variables in scope are in
their slots and stay there.
-/

namespace TriggerScript

open List TriggerScript.Expr Meaning TriggerScript.Runtime

variable {ρ : Type} {linkage : Linkage} {runtime : Runtime ρ} {instruction : Instruction}
  {operator : Operator} {low high : Nat}

namespace Runtime

variable (runtime)

/-- The instruction does to the stacks and the state outside what a function says, and nothing to
the variables. -/
def Performs (locals : LocalMap) (frame : Frame) (instruction : Instruction)
    (effect : World ρ → Option (World ρ)) : Prop :=
  ∀ world, (runtime.machine locals).judge instruction ⟨world, frame⟩ =
    Semantics.goOn ⟨world, frame⟩ ((effect world).map (⟨·, frame⟩))

variable {runtime} {locals : LocalMap} {frame : Frame}

theorem performs_value (value : Value) :
    runtime.Performs locals frame value.instruction fun world => some (world.pushValue value) := by
  intro world
  cases value <;> rfl

theorem performs_load {stack : Stack} {source : Local} {slot : Nat}
    (placed : locals.slot? source = some slot) :
    runtime.Performs locals frame (.core (.pushLocal stack) (.localVar source))
      fun world => some (world.push stack (frame stack slot)) := by
  intro world
  have loads : runtime.apply locals ⟨world, frame⟩ (.load stack source) =
      some ⟨world.push stack (frame stack slot), frame⟩ := by
    simp only [apply, placed]
    rfl
  cases stack <;> exact congrArg (Semantics.goOn _) loads

theorem performs_act {action : Action}
    (judged : ∀ memory, (runtime.machine locals).judge instruction memory = Semantics.goOn memory
      (runtime.apply locals memory (.act action))) :
    runtime.Performs locals frame instruction (runtime.act action) := by
  intro world
  rw [judged]
  congr 1
  simp only [apply]
  cases runtime.act action world <;> rfl

theorem performs_read (info : GlobalInfo) :
    runtime.Performs locals frame (.core info.domain.pushOpcode (.int info.id))
      (runtime.act (.readGlobal info.domain info.id)) := by
  apply performs_act
  intro memory
  cases info.domain <;> rfl

theorem performs_command (info : CommandInfo) (alternative : Bool) : runtime.Performs locals frame
      ⟨.command info.name info.opcode, .int (Value.ofBool alternative)⟩
      (runtime.act (.command info.name info.opcode alternative)) := by
  apply performs_act
  intro memory
  cases alternative <;> rfl

theorem performs_call (kind : CallKind) (trigger name : String) (id : Int32) :
    runtime.Performs locals frame (.core kind.opcode (.script trigger name id))
      (runtime.act (.call kind trigger name id)) := by
  apply performs_act
  intro memory
  cases kind <;> rfl

theorem performs_join {parts : List Expr} {count : Int32} (fits : partCount? parts = some count) :
    runtime.Performs locals frame (.core .joinString (.int count)) fun world =>
      world.join parts.length := by
  intro world
  have joins : runtime.apply locals ⟨world, frame⟩ (.join count) = (world.join parts.length).map
    (⟨·, frame⟩) := by
    simp only [apply, to_nat_of_part_count fits]
    cases world.join parts.length <;> rfl
  exact congrArg (Semantics.goOn _) joins

theorem performs_arithmetic (computes : operator.isArithmetic = true) :
    runtime.Performs locals frame (.core operator.arithmeticOpcode (.int 0)) fun world =>
      world.calculate operator := by
  have same : ∀ left right, operator.arithmeticOpcode.arithmetic? left right =
    operator.calculate? left right := by
    intro left right
    cases operator <;> first | rfl | cases computes
  have computed : ∀ memory : Memory ρ, (runtime.machine locals).judge
      (.core operator.arithmeticOpcode (.int 0)) memory =
        Semantics.goOn memory ((runtime.machine locals).compute operator.arithmeticOpcode
          memory) := by
    intro memory
    cases operator <;> rfl
  intro world
  rw [computed]
  congr 1
  unfold Semantics.compute World.calculate
  simp only [same, machine]
  cases world.pop .int with
  | none => rfl
  | some first =>
    obtain ⟨right, below⟩ := first
    simp only [Option.map_some, Option.bind_eq_bind, Option.bind_some]
    cases below.pop .int with
    | none => rfl
    | some second =>
      obtain ⟨left, rest⟩ := second
      simp only [Option.map_some, Option.bind_some]
      cases operator.calculate? left right <;> rfl

/-- The instruction jumps or goes on as a function of the stacks and the state outside says. -/
def Tests (runtime : Runtime ρ) (locals : LocalMap) (frame : Frame) (instruction : Instruction)
    (truth : World ρ → Option (Bool × World ρ)) : Prop :=
  ∀ world, (runtime.machine locals).judge instruction ⟨world, frame⟩ =
    match truth world with
    | some (taken, behind) => .go (if taken then .jump else .onward) ⟨behind, frame⟩
    | none => .stop .faulted ⟨world, frame⟩

theorem judge_conditional {σ : Type} {semantics : Semantics σ} {opcode : Opcode}
    (conditional : opcode.isBranch = true) (decides : opcode ≠ .branch) (operand : Operand)
    (state : σ) :
    semantics.judge (.core opcode operand) state = match semantics.test opcode state with
      | some (taken, behind) => .go (if taken then .jump else .onward) behind
      | none => .stop .faulted state := by
  cases opcode <;> first | rfl | exact absurd rfl decides | cases conditional

theorem tests_conditional {opcode : Opcode} (conditional : opcode.isBranch = true)
    (decides : opcode ≠ .branch) (operand : Operand) :
    runtime.Tests locals frame (.core opcode operand) (runtime.test opcode) := by
  intro world
  rw [judge_conditional conditional decides]
  simp only [machine]
  cases runtime.test opcode world <;> rfl

theorem tests_true (operand : Operand) :
    runtime.Tests locals frame (.core .branchIfTrue operand) runtime.popTruth := by
  have tested : runtime.test .branchIfTrue = runtime.popTruth := by
    funext world
    simp only [test, popTruth]
    cases world.pop .int <;> rfl
  rw [← tested]
  exact tests_conditional rfl (by decide) operand

theorem tests_comparison (long : Bool) (operand : Operand)
    (compares : (operator.isEquality || operator.isRelational) = true) :
    runtime.Tests locals frame (.core (operator.branchOpcode long) operand)
    (World.compare long operator) := by
  have tested : runtime.test (operator.branchOpcode long) = World.compare long operator := by
    funext world
    cases operator <;> cases long <;> first | rfl | cases compares
  rw [← tested]
  apply tests_conditional
  · cases operator <;> cases long <;> rfl
  · cases operator <;> cases long <;> exact fun same => nomatch same

end Runtime

namespace Expr

variable {names : Names} {bindings : Bindings} {frame : Frame} {locals : LocalMap}
  {source expr : Expr}
  {args : List Expr} {instruction : Instruction} {note : Note} {left right : Expr}

theorem values_singleton (expr : Expr) (world : World ρ) :
    values linkage runtime bindings [expr] world =
      (expr.meaning linkage runtime bindings).value world := by
  simp only [values, Option.bind_eq_bind]
  cases (expr.meaning linkage runtime bindings).value world <;> rfl

/-- A variable that is read has its value in its slot. -/
def Kept (locals : LocalMap) (frame : Frame) (bindings : Bindings) : Expr → Prop
  | .localVar _ _ (some target) => ∀ stack, target.prim.stack? = some stack →
    ∃ slot, locals.slot? target = some slot ∧ bindings stack target.id = some (frame stack slot)
  | _ => True

theorem Elaborates.kept (elaborated : Elaborates names source expr)
    (holds : frame.Holds locals names.scope bindings) :
    expr.Every (Kept locals frame bindings) := by
  induction source using of_parts generalizing expr with
  | step source ih =>
    refine .intro ?_ (each_of_elaborates elaborated.parts fun part held _ inner =>
      ih part held inner)
    cases elaborated with
    | localVar found =>
      intro stack lives
      obtain ⟨home, slot, lives', placed, bound⟩ := holds _ (Scope.mem_of_lookup found)
      obtain rfl := Option.some.inj (lives.symm.trans lives')
      exact ⟨slot, placed, bound⟩
    | _ => trivial

theorem each_kept (elaborate : Forall₂ (Elaborates names) sources exprs)
    (holds : frame.Holds locals names.scope bindings) :
    ∀ expr ∈ exprs, expr.Every (Kept locals frame bindings) :=
  each_of_elaborates elaborate fun _ _ _ elaborated => elaborated.kept holds

/-- The instruction makes the meaning of an expression from the values of its parts. -/
theorem Applies.performs (runtime : Runtime ρ) (applies : expr.Applies linkage args instruction)
    (kept : expr.Kept locals frame bindings) :
    ∃ effect, runtime.Performs locals frame instruction effect ∧
      ∀ world, (expr.meaning linkage runtime bindings).value world =
        (values linkage runtime bindings args world).bind effect := by
  cases applies with
  | int | coordgrid | bool | long | text | config | emptyHook =>
    exact ⟨_, performs_value _, fun world => by simp only [meaning, values]; rfl⟩
  | null typed lives =>
    rename_i prim stack note
    refine ⟨_, performs_value _, fun world => ?_⟩
    simp only [meaning, values, ofValue, typed, lives, Option.bind_some]
    cases stack <;> rfl
  | localVar lives =>
    obtain ⟨slot, placed, bound⟩ := kept _ lives
    refine ⟨_, performs_load placed, fun world => ?_⟩
    simp only [meaning, values, ofValue, Option.bind_eq_bind, Option.bind_some, lives, bound]
    rfl
  | arrayElement =>
    refine ⟨_, performs_act fun _ => rfl, fun world => ?_⟩
    rw [values_singleton]
    simp only [meaning, ofValue]
    rfl
  | global found =>
    refine ⟨_, performs_read _, fun world => ?_⟩
    simp only [meaning, values, ofValue, found]
    rfl
  | constant found =>
    refine ⟨_, performs_value _, fun world => ?_⟩
    simp only [meaning, values, ofValue, found]
    rfl
  | bare found =>
    refine ⟨_, performs_command _ false, fun world => ?_⟩
    simp only [meaning, values, ofValue, found]
    rfl
  | command found =>
    refine ⟨_, performs_command _ _, fun world => ?_⟩
    simp only [meaning, ofValue, found]
    rfl
  | call found callable =>
    refine ⟨_, performs_call _ _ _ _, fun world => ?_⟩
    simp only [meaning, ofValue, found, callable]
    rfl
  | concat fits =>
    refine ⟨_, performs_join fits, fun world => ?_⟩
    simp only [meaning, ofValue]
    rfl
  | arithmetic computes =>
    refine ⟨_, performs_arithmetic computes, fun world => ?_⟩
    simp only [meaning, computes, if_true, ofValue, values, Option.bind_eq_bind, Option.bind_assoc,
      Option.bind_some]

theorem truth_comparison (compares : (operator.isEquality || operator.isRelational) = true) :
    ((binary note operator left right).meaning linkage runtime bindings).truth = fun world =>
      (values linkage runtime bindings [left, right] world).bind
        (World.compare left.isLong operator) := by
  funext world
  cases operator with
  | equals | notEquals | lessThan | greaterThan | lessThanOrEqual | greaterThanOrEqual =>
    simp only [meaning, values, Option.bind_eq_bind, Option.bind_assoc, Option.bind_some]
    rfl
  | _ => cases compares

theorem value_of_decision (decides : expr.isDecision = true) (world : World ρ) :
    (expr.meaning linkage runtime bindings).value world =
      ((expr.meaning linkage runtime bindings).truth world).bind fun (decision, world) =>
        some (world.pushValue (.int (Value.ofBool decision))) := by
  cases expr with
  | binary note operator left right =>
    have jumps : operator.isArithmetic = false := by simpa [isDecision] using decides
    simp only [meaning, jumps, Bool.false_eq_true, if_false, ofTruth]
    rfl
  | _ => cases decides

theorem truth_of_value (plain : expr.isDecision = false) (world : World ρ) :
    (expr.meaning linkage runtime bindings).truth world =
      ((expr.meaning linkage runtime bindings).value world).bind runtime.popTruth := by
  have by_value : ∀ value : World ρ → Option (World ρ),
      (ofValue runtime value).truth world = (value world).bind runtime.popTruth := by
    intro value
    simp only [ofValue, Option.bind_eq_bind]
    congr 1
    funext behind
    simp only [popTruth]
    cases behind.pop .int <;> rfl
  cases expr with
  | binary note operator left right =>
    have computes : operator.isArithmetic = true := by simpa [isDecision] using plain
    simp only [meaning, computes, if_true]
    exact by_value _
  | bare note name config => cases config <;> exact by_value _
  | _ => exact by_value _

end Expr

namespace Routine

variable (routine : Routine) (runtime : Runtime ρ) (frame : Frame)
  {truth first second : World ρ → Option (Bool × World ρ)} {ifTrue ifFalse : Label}

/-- The code does to the stacks and the state outside what a function says. -/
def Evaluates (code rest : List Item) (effect : World ρ → Option (World ρ)) : Prop :=
  ∀ world, routine.Yields (runtime.machine routine.locals) 0 (.facing (code ++ rest) ⟨world, frame⟩)
    (effect world) fun world => .facing rest ⟨world, frame⟩

/-- The code jumps to one of two labels as a function of the stacks and the state outside says. -/
def Decides (code rest : List Item) (ifTrue ifFalse : Label)
    (truth : World ρ → Option (Bool × World ρ)) : Prop :=
  ∀ world, routine.Yields (runtime.machine routine.locals) 1 (.facing (code ++ rest) ⟨world, frame⟩)
    (truth world) fun (decision, world) =>
      .resume (routine.enter? (if decision then ifTrue else ifFalse)) ⟨world, frame⟩

variable {routine runtime frame} {code tail rest : List Item}

theorem Evaluates.append {first second : World ρ → Option (World ρ)}
    (left : routine.Evaluates runtime frame code (tail ++ rest) first)
    (right : routine.Evaluates runtime frame tail rest second) :
    routine.Evaluates runtime frame (code ++ tail) rest fun world => (first world).bind second := by
  intro world
  rw [append_assoc]
  exact (left world).bind right

theorem Evaluates.decides {first : World ρ → Option (World ρ)}
    (left : routine.Evaluates runtime frame code (tail ++ rest) first)
    (right : routine.Decides runtime frame tail rest ifTrue ifFalse truth) :
    routine.Decides runtime frame (code ++ tail) rest ifTrue ifFalse fun world =>
      (first world).bind truth := by
  intro world
  rw [append_assoc]
  exact (left world).before right

theorem reaches_laid (routine : Routine) {σ : Type} (semantics : Semantics σ)
    {others : List Instruction} (laid : Laid (instruction :: others) low high code) :
    ∃ mid tail, Laid others mid high tail ∧ ∀ rest state,
      routine.Reaches semantics 0 (.facing (code ++ rest) state)
        (.facing (.op instruction :: (tail ++ rest)) state) := by
  cases laid with
  | here later => exact ⟨_, _, later, fun _ _ => .refl _⟩
  | apart later => exact ⟨_, _, later, fun _ _ => reaches_mark.weaken (Nat.zero_le 1)⟩

theorem evaluates_laid {effect : World ρ → Option (World ρ)}
    (laid : Laid [instruction] low high code)
    (performs : runtime.Performs routine.locals frame instruction effect) :
    routine.Evaluates runtime frame code rest effect := by
  intro world
  obtain ⟨_, tail, last, here⟩ := routine.reaches_laid (runtime.machine routine.locals) laid
  cases last
  have performed := (here rest ⟨world, frame⟩).yields (yields_op (performs world))
  cases done : effect world with
  | some behind =>
    rw [done] at performed
    exact Reaches.weaken performed (Nat.zero_le _)
  | none =>
    rw [done] at performed
    exact performed

theorem decides_laid (laid : Laid [instruction, .core .branch (.label ifFalse)] low high code)
    (aimed : instruction.target? = some ifTrue)
    (tests : runtime.Tests routine.locals frame instruction truth) :
    routine.Decides runtime frame code rest ifTrue ifFalse truth := by
  intro world
  obtain ⟨_, tail, later, here⟩ := routine.reaches_laid (runtime.machine routine.locals) laid
  obtain ⟨_, _, last, behind⟩ := routine.reaches_laid (runtime.machine routine.locals) later
  cases last
  have judged := tests world
  cases decided : truth world with
  | none =>
    rw [decided] at judged
    exact ⟨_, ((here rest _).trans (reaches_stop judged)).weaken (Nat.zero_le _)⟩
  | some result =>
    obtain ⟨decision, world'⟩ := result
    rw [decided] at judged
    cases decision with
    | true => exact (here rest _).trans (reaches_jump judged aimed)
    | false =>
      exact (here rest _).trans ((reaches_onward judged).trans
        ((behind rest _).trans reaches_branch))
        |>.weaken (by omega)

/-- Code that goes to the right operand only where the left one does not decide. -/
theorem Decides.onward (wanted : Bool) {next : Label}
    (left : routine.Decides runtime frame code (.mark next :: (tail ++ rest))
      (if wanted then next else ifTrue) (if wanted then ifFalse else next) first)
    (right : routine.Decides runtime frame tail rest ifTrue ifFalse second)
    (distinct : routine.LabelsDistinct) (stands : .mark next :: (tail ++ rest) <:+ routine.items) :
    routine.Decides runtime frame (code ++ .mark next :: tail) rest ifTrue ifFalse fun world =>
      (first world).bind fun (decision, world) =>
        if decision = wanted then second world else some (decision, world) := by
  intro world
  rw [append_assoc]
  refine (left world).bind fun (decision, world) => ?_
  have later := (right world).weaken (Nat.zero_le 1)
  rw [← routine.resume_label distinct stands] at later
  cases decision <;> cases wanted <;> first | exact later | exact .refl _

theorem reaches_push {value : Value} {world : World ρ} :
    routine.Reaches (runtime.machine routine.locals) 1
      (.facing (.op value.instruction :: rest) ⟨world, frame⟩)
        (.facing rest ⟨world.pushValue value, frame⟩) :=
  reaches_onward (performs_value value world)

theorem Decides.pushes {done : Label}
    (tail_eq : tail = [.mark ifTrue, .op (Value.int 1).instruction,
      .op (.core .branch (.label done)), .mark ifFalse, .op (Value.int 0).instruction, .mark done])
    (decides : routine.Decides runtime frame code (tail ++ rest) ifTrue ifFalse truth)
    (distinct : routine.LabelsDistinct) (stands : tail ++ rest <:+ routine.items) :
    routine.Evaluates runtime frame (code ++ tail) rest fun world =>
      (truth world).bind fun (decision, world) =>
        some (world.pushValue (.int (Value.ofBool decision))) := by
  subst tail_eq
  have at_false := (suffix_append [_, _, _] _).trans stands
  have at_done := (suffix_append [_, _] _).trans at_false
  intro world
  rw [append_assoc]
  refine ((decides world).weaken (Nat.zero_le 1)).bind fun (decision, world) => ?_
  cases decision with
  | true =>
    have jumps : routine.Reaches (runtime.machine routine.locals) 0
      (.resume (routine.enter? ifTrue) ⟨world, frame⟩)
        (.resume (routine.enter? done) ⟨world.pushValue (.int 1), frame⟩) := by
      rw [resume_label distinct stands]
      exact (reaches_push.trans reaches_branch).weaken (Nat.zero_le _)
    rw [resume_label distinct at_done] at jumps
    exact jumps
  | false =>
    have falls : routine.Reaches (runtime.machine routine.locals) 0
      (.resume (routine.enter? ifFalse) ⟨world, frame⟩)
        (.facing rest ⟨world.pushValue (.int 0), frame⟩) := by
      rw [resume_label distinct at_false]
      exact (reaches_push.trans reaches_mark).weaken (Nat.zero_le _)
    exact falls

end Routine

/-- The code of an expression does what the expression means, if the variables that it reads are
kept. -/
def Phrase.Evaluated (linkage : Linkage) (runtime : Runtime ρ) (routine : Routine)
    (bindings : Bindings) (frame : Frame) (code rest : List Item) : Phrase → Prop
  | .value expr => expr.Every (Expr.Kept routine.locals frame bindings) →
    routine.Evaluates runtime frame code rest (expr.meaning linkage runtime bindings).value
  | .values exprs => (∀ expr ∈ exprs, expr.Every (Expr.Kept routine.locals frame bindings)) →
    routine.Evaluates runtime frame code rest (Expr.values linkage runtime bindings exprs)
  | .truth expr ifTrue ifFalse => expr.Every (Expr.Kept routine.locals frame bindings) →
    routine.Decides runtime frame code rest ifTrue ifFalse
      (expr.meaning linkage runtime bindings).truth
  | _ => True

theorem Coded.evaluated (runtime : Runtime ρ) {routine : Routine} {phrase : Phrase}
    {code : List Item} (coded : Coded linkage routine.tables routine.locals phrase low high code)
    (distinct : routine.LabelsDistinct) {bindings : Bindings} {frame : Frame} (rest : List Item)
    (stands : code ++ rest <:+ routine.items) :
    phrase.Evaluated linkage runtime routine bindings frame code rest := by
  induction coded generalizing rest with
    first | exact True.intro | (intro kept; try simp only [append_assoc] at stands)
  | apply applies _ placed ih =>
    have within := kept.within
    rw [applies.parts_eq] at within
    obtain ⟨effect, performs, means⟩ := applies.performs runtime kept.here
    have made := (ih _ stands within).append (Routine.evaluates_laid placed performs)
    rwa [funext means]
  | calculation _ ih =>
    have made := ih rest stands (kept.within _ (mem_singleton_self _))
    simpa only [meaning, ofValue] using made
  | hook found number _ placed ih =>
    rename_i info _ _ head args _ code _ tail _ _ _
    have made := ih (tail ++ rest) ((suffix_append _ _).trans stands) kept.within
    have numbered : routine.Evaluates runtime frame head (code ++ (tail ++ rest)) fun world =>
        some (world.pushValue (.int (Int32.ofNat info.id))) :=
      Routine.evaluates_laid number (performs_value _)
    have signed : routine.Evaluates runtime frame tail rest fun world =>
        some (world.pushValue (.text (hookSignature args))) :=
      Routine.evaluates_laid placed (performs_value _)
    simp only [meaning, ofValue, found]
    exact (numbered.append made).append signed
  | decided decides _ ih =>
    have decided := ih _ stands kept
    rw [funext (value_of_decision decides)]
    exact decided.pushes rfl distinct ((suffix_append _ _).trans stands)
  | noValues =>
    intro world
    exact .refl _
  | someValues _ _ ih ih' =>
    obtain ⟨head, others⟩ := forall_mem_cons.mp kept
    exact (ih _ stands head).append (ih' rest ((suffix_append _ _).trans stands) others)
  | tested plain _ placed ih =>
    have made := (ih _ stands kept).decides (Routine.decides_laid placed rfl (tests_true _))
    rwa [funext (truth_of_value plain)]
  | either _ _ ih ih' | both _ _ ih ih' =>
    obtain ⟨first, second⟩ := forall_mem_cons.mp kept.within
    have behind := (suffix_append _ _).trans stands
    have left := ih _ stands first
    have right := ih' rest ((suffix_cons _ _).trans behind) (forall_mem_singleton.mp second)
    first
    | rw [truth_or]
      exact .onward false left right distinct behind
    | rw [truth_and]
      exact .onward true left right distinct behind
  | compared compares _ placed ih =>
    rw [truth_comparison compares]
    exact Routine.Evaluates.decides (ih _ stands kept.within)
      (Routine.decides_laid placed rfl (tests_comparison _ _ compares))

end TriggerScript
