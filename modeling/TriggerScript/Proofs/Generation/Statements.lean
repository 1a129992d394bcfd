import TriggerScript.Proofs.Generation.Courses

/-!
Code of statements.

The code of a statement that was checked follows the course of the statement, wherever it stands in
a routine and whatever stands behind it.
-/

namespace TriggerScript

open List Routine Stmt

variable {ρ : Type} {linkage : Linkage} {runtime : Runtime ρ} {limit : Nat} {prim : Prim}
  {names : Names}
  {low high : Nat} {world : World ρ} {next : Memory ρ → Machine (Memory ρ)}

/-! ### Keys -/

theorem Prim.widened_of_declarable (declarable : prim.isDeclarable = true) :
    prim.widened = prim := by
  cases prim <;> first | rfl | cases declarable

theorem Ty.flatten_of_declarable (declarable : prim.isDeclarable = true) :
    (Ty.single prim).flatten = [prim] := by
  cases prim <;> first | rfl | cases declarable

/-- Types of variables agree only if they are the same. -/
theorem Ty.eq_of_agrees {left right : Prim} (declarable : left.isDeclarable = true)
    (declarable' : right.isDeclarable = true)
    (agrees : (Ty.single left).agrees (.single right) = true) : left = right := by
  rw [Ty.agrees, flatten_of_declarable declarable, flatten_of_declarable declarable'] at agrees
  simpa [listAgrees, Prim.agrees, Prim.widened_of_declarable declarable,
    Prim.widened_of_declarable declarable'] using agrees

namespace Expr

variable {names : Names} {bindings : Bindings} {source expr : Expr} {prim : Prim} {value : Int32}

theorem value_of_constant (elaborated : Elaborates names source expr)
    (lives : prim.stack? = some .int) (accepted : (Ty.single prim).accepts expr.ty = true)
    (denotes : expr.constant? linkage.symbols = some value) (world : World ρ) :
    (expr.meaning linkage runtime bindings).value world = some (world.push .int value) := by
  cases elaborated with
  | int | coordgrid | bool | config =>
    obtain rfl := Option.some.inj denotes
    simp only [meaning, Meaning.ofValue]
  | null declarable =>
    obtain rfl := Option.some.inj denotes
    have agrees := (Bool.and_eq_true_iff.mp accepted).2
    obtain rfl := Ty.eq_of_agrees (by simp [Prim.isDeclarable, lives]) declarable agrees
    simp only [meaning, Meaning.ofValue, Ty.prim?, Option.bind_some, lives]
    rfl
  | constant =>
    simp only [constant?, Option.bind_eq_bind, Option.bind_eq_some_iff] at denotes
    obtain ⟨info, found, number⟩ := denotes
    simp only [meaning, Meaning.ofValue, found]
    cases held : info.value with
    | int | bool =>
      rw [held] at number
      obtain rfl := Option.some.inj number
      exact congrArg (fun value => some (world.pushValue value)) held
    | long | text | type =>
      rw [held] at number
      cases number
  | @bare _ _ given =>
    cases given with
    | none => cases denotes
    | some id =>
      obtain rfl := Option.some.inj denotes
      simp only [meaning, Meaning.ofValue]
  | _ => cases denotes

theorem is_key_of_constant (elaborated : Elaborates names source expr)
    (lives : prim.stack? = some .int) (accepted : (Ty.single prim).accepts expr.ty = true)
    (denotes : expr.constant? linkage.symbols = some value) (key : Int32) (world : World ρ) :
    expr.isKey linkage runtime bindings key world = decide (value = key) := by
  have known : expr.ty.isUndefined = false := by
    simp only [Ty.accepts, Bool.and_eq_true, Bool.not_eq_true'] at accepted
    exact accepted.1.2
  rw [isKey, value_of_constant elaborated lives accepted denotes, known]
  simp [World.pop_push]

end Expr

theorem Arm.Keys.any_is_key {keys : List Expr} (known : Arm.Keys names prim keys keys' values)
    (lives : prim.stack? = some .int) (same : names.symbols = linkage.symbols) (bindings : Bindings)
    (key : Int32) (world : World ρ) :
    (keys'.any fun expr => expr.isKey linkage runtime bindings key world) =
      values.contains key := by
  induction known with
  | nil => rfl
  | known part accepted denotes _ ih =>
    rw [same] at denotes
    rw [any_cons, contains_cons, ih, Expr.is_key_of_constant part lives accepted denotes key world]
    congr 1
    rw [Bool.eq_iff_iff, decide_eq_true_iff, beq_iff_eq, eq_comm]
  | unknown _ undefined _ ih =>
    rw [any_cons, ih, Expr.isKey, undefined]
    rfl

/-! ### Simple statements -/

theorem Course.after_bind {α β : Type} (result : Option α) (next : α → Option β)
    (rest : β → Course ρ) :
    after (result.bind next) rest = after result fun value => after (next value) rest := by
  cases result <;> rfl

theorem Course.after_and_then (result : Option (Store ρ)) (next : Store ρ → Course ρ) :
    (after result (ends .next)).andThen next = after result next := by
  cases result <;> rfl

theorem Laid.split (first : List Instruction) (laid : Laid (first ++ second) low high code) :
    ∃ mid head tail, code = head ++ tail ∧ Laid first low mid head ∧ Laid second mid high tail := by
  induction first generalizing low code with
  | nil => exact ⟨low, [], code, rfl, .nil, laid⟩
  | cons instruction others ih =>
    cases laid with
    | here later =>
      obtain ⟨mid, head, tail, rfl, placed, behind⟩ := ih later
      exact ⟨mid, _, tail, rfl, .here placed, behind⟩
    | apart later =>
      obtain ⟨mid, head, tail, rfl, placed, behind⟩ := ih later
      exact ⟨mid, _, tail, rfl, .apart placed, behind⟩

namespace Routine

variable {routine : Routine} {frame : Frame} {code tail rest : List Item} {scope inner : Scope}
  {loop : Option LoopTargets} {store : Store ρ} {slot : Nat} {instructions : List Instruction}

theorem Evaluates.follows (evaluates : routine.Evaluates runtime frame code rest effect)
    (holds : frame.Holds routine.locals scope store.bindings) :
    routine.Follows runtime limit (.facing (code ++ rest) ⟨store.world, frame⟩)
      (routine.ways scope scope loop (.facing rest))
      (.after (effect store.world) fun world => .ends .next { store with world }) := by
  apply (evaluates store.world).follows
  intro world
  exact ⟨_, frame, rfl, holds, .refl _⟩

theorem yields_pop (laid : Laid [.core (.popLocal stack) (.localVar target)] low high code)
    (placed : routine.locals.slot? target = some slot) :
    routine.Yields (runtime.machine routine.locals) 0 (.facing (code ++ rest) ⟨world, frame⟩)
      (world.pop stack) fun (word, world) => .facing rest ⟨world, frame.set stack slot word⟩ := by
  obtain ⟨_, _, last, here⟩ := routine.reaches_laid (runtime.machine routine.locals) laid
  cases last
  have stores : runtime.apply routine.locals ⟨world, frame⟩ (.store stack target) =
      (world.pop stack).map fun (word, world) => ⟨world, frame.set stack slot word⟩ := by
    simp only [Runtime.apply, placed]
    cases world.pop stack <;> rfl
  have judged : (runtime.machine routine.locals).judge (.core (.popLocal stack) (.localVar target))
      ⟨world, frame⟩ = Semantics.goOn ⟨world, frame⟩
        ((world.pop stack).map fun (word, world) => ⟨world, frame.set stack slot word⟩) := by
    rw [← stores]
    cases stack <;> rfl
  have popped := (here rest ⟨world, frame⟩).yields (yields_op judged)
  cases found : world.pop stack with
  | some result =>
    rw [found] at popped
    exact Reaches.weaken popped (Nat.zero_le _)
  | none =>
    rw [found] at popped
    exact popped

theorem follows_declare (evaluates : routine.Evaluates runtime frame code (tail ++ rest) init)
    (laid : Laid [.core (.popLocal stack) (.localVar target)] low high tail)
    (lives : target.prim.stack? = some stack) (placed : routine.locals.slot? target = some slot)
    (opened : scope.declare target = some inner)
    (holds : frame.Holds routine.locals scope store.bindings) :
    routine.Follows runtime limit (.facing (code ++ tail ++ rest) ⟨store.world, frame⟩)
      (routine.ways scope inner loop (.facing rest))
      (.after (init store.world) fun world => .after (world.pop stack) fun (word, world) =>
        .ends .next ⟨store.bindings.set stack target.id word, world⟩) := by
  rw [append_assoc]
  apply (evaluates store.world).follows
  intro world
  apply (yields_pop laid placed).follows
  intro (word, world)
  exact ⟨_, _, rfl, holds.declare opened lives placed word, .refl _⟩

theorem follows_store {target : Expr} (stores : target.Stores linkage instruction)
    (laid : Laid [instruction] low high code) (elaborated : Expr.Elaborates names source target)
    (holds : frame.Holds routine.locals names.scope store.bindings) :
    routine.Follows runtime limit (.facing (code ++ rest) ⟨store.world, frame⟩)
      (routine.ways names.scope names.scope loop (.facing rest))
      (.after (store.take linkage runtime target) (.ends .next)) := by
  cases stores with
  | localVar lives =>
    cases elaborated with
    | localVar found =>
      obtain ⟨stack', slot, lives', placed, -⟩ := holds _ (Scope.mem_of_lookup found)
      obtain rfl := Option.some.inj (lives.symm.trans lives')
      simp only [Store.take, Option.bind_eq_bind, Option.bind_some, lives]
      rw [Course.after_bind]
      apply (yields_pop laid placed).follows
      intro (word, world)
      exact ⟨_, _, rfl, holds.assign lives placed word, .refl _⟩
  | @global info name note found =>
    have taken : store.take linkage runtime (.global note name) =
        (runtime.act (.writeGlobal info.domain info.id) store.world).bind fun world =>
          some { store with world } := by
      simp only [Store.take, found]
      rfl
    have performs : runtime.Performs routine.locals frame
      (.core info.domain.popOpcode (.int info.id))
        (runtime.act (.writeGlobal info.domain info.id)) := by
      apply Runtime.performs_act
      intro memory
      cases info.domain <;> rfl
    rw [taken, Course.after_bind]
    exact (evaluates_laid laid performs).follows holds

theorem follows_stores {targets : List Expr}
    (stores : Forall₂ (Expr.Stores linkage) targets instructions)
    (laid : Laid instructions low high code)
    (elaborated : Forall₂ (Expr.Elaborates names) sources targets)
    (holds : frame.Holds routine.locals names.scope store.bindings) :
    routine.Follows runtime limit (.facing (code ++ rest) ⟨store.world, frame⟩)
      (routine.ways names.scope names.scope loop (.facing rest))
      (.after (store.takeAll linkage runtime targets) (.ends .next)) := by
  induction stores generalizing low code sources store frame with
  | nil =>
    cases laid
    exact ⟨_, frame, rfl, holds, .refl _⟩
  | cons stored _ ih =>
    obtain ⟨mid, head, tail, rfl, here, later⟩ := Laid.split [_] laid
    cases elaborated with
    | cons first others =>
      rw [Store.takeAll, Option.bind_eq_bind, Course.after_bind, append_assoc,
        ← Course.after_and_then]
      exact (follows_store stored here first holds).andThen fun store frame _ holds =>
        ih later others holds

theorem after_assign_element {name : Ident} :
    Course.after (store.assign linkage runtime [.arrayElement note name index (some slot)] values)
    (.ends .next) =
      .after ((Expr.values linkage runtime store.bindings (index :: values) store.world).bind
        (runtime.act (.writeArray (Int32.ofNat slot)))) fun world =>
          .ends .next { store with world } := by
  simp only [Store.assign, Expr.values, Option.bind_eq_bind, Option.bind_some, Course.after_bind]
  rfl

theorem assign_of_stores {targets : List Expr}
    (stores : Forall₂ (Expr.Stores linkage) targets.reverse instructions) :
    store.assign linkage runtime targets values =
      (Expr.values linkage runtime store.bindings values store.world).bind fun world =>
        Store.takeAll linkage runtime { store with world } targets.reverse := by
  unfold Store.assign
  split
  · cases stores with
    | cons stored _ => cases stored
  · rfl

theorem evaluates_discards
    (lives : Forall₂ (fun prim stack => prim.stack? = some stack) prims homes)
    (laid : Laid (homes.map fun stack => .core (.discard stack) (.int 0)) low high code) :
    routine.Evaluates runtime frame code rest fun world => world.discard prims := by
  induction lives generalizing low code with
  | nil =>
    cases laid
    exact fun world => .refl _
  | @cons prim stack prims homes here _ ih =>
    obtain ⟨mid, head, tail, rfl, first, later⟩ := Laid.split [_] laid
    have performs : runtime.Performs routine.locals frame (.core (.discard stack) (.int 0))
        fun world => (world.pop stack).map Prod.snd := by
      intro world
      have popped : runtime.apply routine.locals ⟨world, frame⟩ (.discard stack) =
          ((world.pop stack).map Prod.snd).map (⟨·, frame⟩) := by
        simp only [Runtime.apply]
        cases world.pop stack <;> rfl
      rw [← popped]
      cases stack <;> rfl
    have discards : (fun world : World ρ => world.discard (prim :: prims)) = fun world =>
        ((world.pop stack).map Prod.snd).bind fun world => world.discard prims := by
      funext world
      simp only [World.discard, here, Option.bind_eq_bind, Option.bind_some]
      cases world.pop stack <;> rfl
    rw [discards]
    exact (evaluates_laid first performs).append (ih later)

theorem evaluates_defaults
    (starts : Forall₂ (fun prim value => prim.default? = some value) prims values)
    (laid : Laid (values.map Value.instruction) low high code) :
    routine.Evaluates runtime frame code rest fun world => world.pushDefaults prims := by
  induction starts generalizing low code with
  | nil =>
    cases laid
    exact fun world => .refl _
  | @cons prim value prims values here _ ih =>
    obtain ⟨mid, head, tail, rfl, first, later⟩ := Laid.split [_] laid
    have pushes : (fun world : World ρ => world.pushDefaults (prim :: prims)) = fun world =>
        (some (world.pushValue value)).bind fun world => world.pushDefaults prims := by
      funext world
      simp only [World.pushDefaults, here]
      rfl
    rw [pushes]
    exact (evaluates_laid first (Runtime.performs_value value)).append (ih later)

theorem judge_switch {σ : Type} (semantics : Semantics σ) (operand : Operand) (state : σ) :
    semantics.judge (.core .switch operand) state = match semantics.pop state with
      | some (key, behind) => .go (.select key) behind
      | none => .stop .faulted state := rfl

theorem yields_select (laid : Laid [.core .switch (.switch index)] low high code)
    (known : routine.tables[index]? = some table) :
    routine.Yields (runtime.machine routine.locals) 0 (.facing (code ++ rest) ⟨world, frame⟩)
      (world.pop .int) fun (key, world) => match table.case? key with
        | some entry => .resume (routine.enter? entry.label) ⟨world, frame⟩
        | none => .facing rest ⟨world, frame⟩ := by
  obtain ⟨_, _, last, here⟩ := routine.reaches_laid (runtime.machine routine.locals) laid
  cases last
  cases found : world.pop .int with
  | none =>
    have popped : (runtime.machine routine.locals).pop ⟨world, frame⟩ = none :=
      congrArg (Option.map _) found
    have judged := judge_switch (runtime.machine routine.locals) (.switch index) ⟨world, frame⟩
    rw [popped] at judged
    exact ⟨_, ((here rest _).trans (reaches_stop judged)).weaken (Nat.zero_le _)⟩
  | some result =>
    obtain ⟨key, behind⟩ := result
    have popped : (runtime.machine routine.locals).pop ⟨world, frame⟩ =
        some (key, ⟨behind, frame⟩) := congrArg (Option.map _) found
    have judged := judge_switch (runtime.machine routine.locals) (.switch index) ⟨world, frame⟩
    rw [popped] at judged
    have stepped : routine.step (runtime.machine routine.locals)
        (.facing (.op (.core .switch (.switch index)) :: rest) ⟨world, frame⟩) =
          .resume (routine.follow (.core .switch (.switch index)) (.ofItems rest) (.select key))
            ⟨behind, frame⟩ := by
      rw [Machine.facing, step_op, judged]
    have goes := ((here rest ⟨world, frame⟩).trans (Reaches.one stepped)).weaken (Nat.zero_le _)
    simp only [follow, Instruction.core, known, Option.bind_some] at goes
    simp only [Yields]
    cases chosen : table.case? key with
    | some entry =>
      rw [chosen] at goes
      exact goes
    | none =>
      rw [chosen] at goes
      exact goes

end Routine

namespace Routine

variable {routine : Routine} {frame : Frame} {code rest : List Item} {ways : Exit → Option (Way ρ)}

theorem reaches_placed_branch (placed : Laid [.core .branch (.label target)] low high code) :
    routine.Reaches (runtime.machine routine.locals) 0 (.facing (code ++ rest) memory)
      (.resume (routine.enter? target) memory) := by
  obtain ⟨_, _, last, here⟩ := routine.reaches_laid (runtime.machine routine.locals) placed
  cases last
  exact ((here rest memory).trans reaches_branch).weaken (Nat.zero_le _)

theorem Follows.framed {inner : Names}
    (follows : routine.Follows runtime limit machine
      (routine.ways names.enter.scope inner.scope loop next) course)
    (extended : names.enter.Extends inner) :
    routine.Follows runtime limit machine (routine.ways names.scope names.scope loop next) course :=
  follows.narrow (Subset.refl names.scope.locals) extended.locals_sub

theorem Decides.follows {next : Bool × World ρ → Course ρ}
    (decides : routine.Decides runtime frame code rest ifTrue ifFalse truth)
    (yes : ∀ world, routine.Follows runtime limit (.resume (routine.enter? ifTrue) ⟨world, frame⟩)
      ways (next (true, world)))
    (no : ∀ world, routine.Follows runtime limit (.resume (routine.enter? ifFalse) ⟨world, frame⟩)
      ways (next (false, world))) :
    routine.Follows runtime limit (.facing (code ++ rest) ⟨world, frame⟩) ways
      (.after (truth world) next) := by
  apply (decides world).follows
  intro (decision, world)
  cases decision with
  | true => exact yes world
  | false => exact no world

end Routine

theorem SwitchTable.case_of_default (key : Int32) (cases : List SwitchCase) (label : Label) :
    SwitchTable.case? ⟨cases ++ [⟨[], label⟩]⟩ key = cases.find? fun entry =>
      entry.keys.contains key := by
  simp [case?]

namespace Routine

variable {routine : Routine} {frame : Frame} {scope : Scope} {loop : Option LoopTargets}

theorem follows_choice {cases : List SwitchCase} {table : SwitchTable}
    (chosen : match runArms linkage runtime limit key arms store with
      | some course => ∃ entry, (cases.find? fun entry => entry.keys.contains key) = some entry ∧
        routine.Follows runtime limit (.resume (routine.enter? entry.label) ⟨store.world, frame⟩)
          (routine.ways scope scope loop (.resume (routine.enter? done))) course
      | none => (cases.find? fun entry => entry.keys.contains key) = none)
    (held : table.case? key = cases.find? fun entry => entry.keys.contains key)
    (left : ∀ memory, routine.Reaches (runtime.machine routine.locals) 0
      (.resume (routine.enter? done) memory) (next memory))
    (otherwise : routine.Follows runtime limit onward (routine.ways scope scope loop next) other) :
    routine.Follows runtime limit (match table.case? key with
        | some entry => .resume (routine.enter? entry.label) ⟨store.world, frame⟩
        | none => onward)
      (routine.ways scope scope loop next)
      (match runArms linkage runtime limit key arms store with
        | some course => course
        | none => other) := by
  rw [held]
  cases ran : runArms linkage runtime limit key arms store with
  | some course =>
    rw [ran] at chosen
    obtain ⟨entry, found, followed⟩ := chosen
    rw [found]
    exact followed.redirect fun _ _ memory => left memory
  | none =>
    rw [ran] at chosen
    rw [chosen]
    exact otherwise

end Routine

/-! ### All statements -/

/-- The code of a statement follows its course. -/
def Phrase.Followed (linkage : Linkage) (runtime : Runtime ρ) (limit : Nat) (routine : Routine)
    (code rest : List Item) : Phrase → Prop
  | .stmt statement loop => ∀ ⦃returns inLoop names source after⦄,
    Stmt.Elaborates returns inLoop names source statement after → names.symbols = linkage.symbols →
    ∀ store frame, frame.Holds routine.locals names.scope store.bindings →
      routine.Follows runtime limit (.facing (code ++ rest) ⟨store.world, frame⟩)
        (routine.ways names.scope after.scope loop (.facing rest))
        (statement.run linkage runtime limit store)
  | .stmts body loop => ∀ ⦃returns inLoop names source after⦄,
    Stmt.ElaborateAll returns inLoop names source body after → names.symbols = linkage.symbols →
    ∀ store frame, frame.Holds routine.locals names.scope store.bindings →
      routine.Follows runtime limit (.facing (code ++ rest) ⟨store.world, frame⟩)
        (routine.ways names.scope after.scope loop (.facing rest))
        (Stmt.runAll linkage runtime limit body store)
  | .arms choices loop done cases => ∀ ⦃returns inLoop names source after⦄,
    (∃ prim, prim.stack? = some .int ∧
      Stmt.ElaborateArms returns prim inLoop names source choices after) →
    names.symbols = linkage.symbols → ∀ store frame,
      frame.Holds routine.locals names.scope store.bindings → ∀ key,
      match Stmt.runArms linkage runtime limit key choices store with
      | some course => ∃ entry, (cases.find? fun entry => entry.keys.contains key) = some entry ∧
        routine.Follows runtime limit (.resume (routine.enter? entry.label) ⟨store.world, frame⟩)
          (routine.ways names.scope names.scope loop (.resume (routine.enter? done))) course
      | none => (cases.find? fun entry => entry.keys.contains key) = none
  | .value _ | .values _ | .truth _ _ _ => True

theorem Coded.followed (runtime : Runtime ρ) (limit : Nat) {routine : Routine}
    (coded : Coded linkage routine.tables routine.locals phrase low high code)
    (distinct : routine.LabelsDistinct) (rest : List Item)
    (stands : code ++ rest <:+ routine.items) :
    phrase.Followed linkage runtime limit routine code rest := by
  induction coded generalizing rest with
    first | exact True.intro | intro _ _ _ _ _ elaborated same store frame holds
  | noStmts =>
    cases elaborated
    rw [runAll]
    exact ⟨_, frame, rfl, holds, .refl _⟩
  | someStmts _ _ ih ih' =>
    cases elaborated with
    | cons head others =>
      rw [append_assoc] at stands ⊢
      rw [runAll]
      have extended := Elaborates.extends _ head
      refine (ih _ stands head same store frame holds).andThen fun store frame _ holds => ?_
      have later := ih' rest ((suffix_append _ _).trans stands) others
        (extended.symbols_eq.trans same) store frame holds
      exact later.narrow extended.locals_sub (Subset.refl _)
  | block _ ih =>
    cases elaborated with
    | block part =>
      rw [Stmt.run]
      exact (ih rest stands part same store frame holds).framed (ElaborateAll.extends _ part)
  | ifThen test _ _ ih =>
    simp only [append_assoc, cons_append, nil_append] at stands ⊢
    have at_true := (suffix_append _ _).trans stands
    have at_body := (suffix_cons _ _).trans at_true
    have at_end := (suffix_append _ _).trans at_body
    cases elaborated with
    | ifThen condition _ part =>
      rw [Stmt.run]
      refine (test.evaluated runtime distinct _ stands (condition.kept holds)).follows ?_ ?_
      · intro world
        rw [routine.resume_label distinct at_true]
        have body := (ih _ at_body part same ⟨store.bindings, world⟩ frame holds).framed
          (Elaborates.extends _ part)
        exact body.redirect fun _ _ _ => reaches_mark.weaken (Nat.zero_le 1)
      · intro world
        rw [routine.resume_label distinct at_end]
        exact ⟨_, frame, rfl, holds, .refl _⟩
  | ifElse test coded _ _ ih ih' =>
    simp only [append_assoc, cons_append, nil_append] at stands ⊢
    have at_true := (suffix_append _ _).trans stands
    have at_body := (suffix_cons _ _).trans at_true
    have at_else := (suffix_append _ _).trans ((suffix_append _ _).trans at_body)
    have at_other := (suffix_cons _ _).trans at_else
    have at_end := (suffix_append _ _).trans at_other
    cases elaborated with
    | ifElse condition _ part alternative =>
      rw [Stmt.run]
      have extended := Elaborates.extends _ part
      refine (test.evaluated runtime distinct _ stands (condition.kept holds)).follows ?_ ?_
      · intro world
        rw [routine.resume_label distinct at_true]
        have body := (ih _ at_body part same ⟨store.bindings, world⟩ frame holds).framed extended
        have left := body.leaving fun ended final =>
          coded.closed runtime limit ended ⟨store.bindings, world⟩ final
        exact left.redirect fun _ _ memory => by
          rw [routine.resume_label distinct at_end]
          exact .refl _
      · intro world
        rw [routine.resume_label distinct at_else]
        have other := (ih' _ at_other alternative (extended.symbols_eq.trans same)
          ⟨store.bindings, world⟩ frame holds).framed (Elaborates.extends _ alternative)
        exact other.redirect fun _ _ _ => reaches_mark.weaken (Nat.zero_le 1)
  | @whileLoop _ low _ _ _ _ _ loop _ test coded _ ih =>
    simp only [append_assoc, cons_append, nil_append] at stands ⊢
    have at_test := (suffix_cons _ _).trans stands
    have at_round := (suffix_append _ _).trans at_test
    have at_body := (suffix_cons _ _).trans at_round
    have at_end := (suffix_append _ _).trans ((suffix_append _ _).trans at_body)
    cases elaborated with
    | whileLoop condition _ part =>
      rw [Stmt.run]
      have followed := follows_rounds loop ⟨⟨low, "while_start"⟩, ⟨low + 2, "while_end"⟩⟩
        (fun _ => routine.resume_label distinct stands)
        (fun store frame holds => by
          rw [routine.resume_label distinct stands]
          exact test.evaluated runtime distinct _ at_test (condition.kept holds) store.world)
        (fun store frame holds => by
          rw [routine.resume_label distinct at_round]
          have body := (ih _ at_body part same store frame holds).framed (Elaborates.extends _ part)
          exact body.leaving fun ended final => coded.closed runtime limit ended store final)
        limit (Nat.le_refl limit) store frame holds
      rw [routine.resume_label distinct stands] at followed
      exact reaches_mark.follows (followed.redirect fun _ _ memory => by
        rw [routine.resume_label distinct at_end]
        exact .refl _)
  | continueLoop placed | breakLoop placed =>
    rw [Stmt.run]
    exact ⟨_, frame, rfl, holds, reaches_placed_branch placed⟩
  | «return» parts placed =>
    rw [append_assoc] at stands ⊢
    cases elaborated with
    | «return» values =>
      rw [Stmt.run]
      apply (parts.evaluated runtime distinct _ stands (Expr.each_kept values holds)
        store.world).follows
      intro world
      obtain ⟨_, _, last, here⟩ := routine.reaches_laid (runtime.machine routine.locals) placed
      cases last
      refine ⟨_, frame, rfl, Frame.holds_empty, ?_⟩
      exact ((here rest _).trans (reaches_stop rfl)).weaken (Nat.zero_le _)
  | declare lives registered part placed =>
    cases elaborated with
    | declare _ init _ opened =>
      obtain ⟨slot, slotted⟩ := LocalMap.slot_of_registered lives registered
      rw [append_assoc] at stands
      have evaluated := part.evaluated runtime distinct _ stands (init.kept holds)
      simp only [Stmt.run, Store.declare, Option.bind_eq_bind, Option.bind_some, lives,
        Course.after_bind]
      exact Routine.follows_declare evaluated placed lives slotted opened holds
  | declareDefault lives registered starts placed =>
    cases elaborated with
    | declareDefault _ opened =>
      obtain ⟨slot, slotted⟩ := LocalMap.slot_of_registered lives registered
      obtain ⟨mid, head, tail, rfl, pushed, popped⟩ := Laid.split [_] placed
      have evaluated : routine.Evaluates runtime frame head (tail ++ rest) fun world =>
        world.pushDefaults _ :=
        evaluates_defaults (.cons starts .nil) pushed
      simp only [Stmt.run, Store.declare, Option.bind_eq_bind, Option.bind_some, lives,
        Course.after_bind]
      exact Routine.follows_declare evaluated popped lives slotted opened holds
  | declareArray part placed =>
    rw [append_assoc] at stands
    cases elaborated with
    | declareArray _ size =>
      rw [Stmt.run]
      exact ((part.evaluated runtime distinct _ stands (size.kept holds)).append
        (evaluates_laid placed (Runtime.performs_act fun _ => rfl))).follows holds
  | assignElement parts placed =>
    rw [append_assoc] at stands
    cases elaborated with
    | assign _ places values =>
      cases places with
      | cons place others =>
        cases others
        cases place with
        | arrayElement index =>
          have evaluated :=
            parts.evaluated runtime distinct _ stands (Expr.each_kept (.cons index values) holds)
          rw [Stmt.run, Routine.after_assign_element]
          exact (Evaluates.append evaluated
            (evaluates_laid placed (Runtime.performs_act fun _ => rfl))).follows holds
  | assign parts stores placed =>
    rw [append_assoc] at stands ⊢
    cases elaborated with
    | assign _ places values =>
      rw [Stmt.run, Routine.assign_of_stores stores, Course.after_bind]
      apply (parts.evaluated runtime distinct _ stands (Expr.each_kept values holds)
        store.world).follows
      intro world
      have elaborated := rel_reverse places
      exact follows_stores stores placed elaborated holds
  | discarded part lives placed =>
    rw [append_assoc] at stands
    cases elaborated with
    | expr value =>
      rw [Stmt.run]
      exact ((part.evaluated runtime distinct _ stands (value.kept holds)).append
        (evaluates_discards lives placed)).follows holds
  | switch part chooses skips _ table _ ih =>
    simp only [append_assoc, cons_append, nil_append] at stands ⊢
    have at_arms :=
      (suffix_append _ _).trans ((suffix_append _ _).trans ((suffix_append _ _).trans stands))
    have at_end := (suffix_append _ _).trans at_arms
    cases elaborated with
    | switch lives condition _ bodies =>
      rw [ElaborateArms.scope_eq _ bodies]
      simp only [Stmt.run, Option.bind_eq_bind, Course.after_bind]
      apply (part.evaluated runtime distinct _ stands (condition.kept holds) store.world).follows
      intro world
      apply (yields_select chooses table).follows
      intro chosen
      obtain ⟨key, world⟩ := chosen
      have chosen := ih _ at_arms ⟨_, lives, bodies⟩ same ⟨store.bindings, world⟩ frame holds key
      refine follows_choice chosen rfl ?_ ?_
      · intro memory
        rw [routine.resume_label distinct at_end]
        exact .refl _
      · apply (reaches_placed_branch skips).follows
        rw [routine.resume_label distinct at_end]
        exact ⟨_, frame, rfl, holds, .refl _⟩
  | switchDefault part chooses skips _ _ table _ ih ih' =>
    simp only [append_assoc, cons_append, nil_append] at stands ⊢
    have at_arms :=
      (suffix_append _ _).trans ((suffix_append _ _).trans ((suffix_append _ _).trans stands))
    have at_default := (suffix_append _ _).trans at_arms
    have at_body := (suffix_cons _ _).trans at_default
    have at_end := (suffix_append _ _).trans at_body
    cases elaborated with
    | switchDefault lives condition _ bodies fallback =>
      have around := ElaborateArms.scope_eq _ bodies
      have extended := ElaborateArms.extends _ bodies
      simp only [Stmt.run, Option.bind_eq_bind, Course.after_bind]
      apply (part.evaluated runtime distinct _ stands (condition.kept holds) store.world).follows
      intro world
      apply (yields_select chooses table).follows
      intro chosen
      obtain ⟨key, world⟩ := chosen
      have chosen := ih _ at_arms ⟨_, lives, bodies⟩ same ⟨store.bindings, world⟩ frame holds key
      rw [Names.leaveTo, around]
      refine follows_choice chosen (SwitchTable.case_of_default key _ _) ?_ ?_
      · intro memory
        rw [routine.resume_label distinct at_end]
        exact .refl _
      · apply (reaches_placed_branch skips).follows
        rw [routine.resume_label distinct at_default, runArm, ← around]
        rw [← around] at holds
        have followed := (ih' _ at_body fallback (extended.symbols_eq.trans same)
          ⟨store.bindings, world⟩ frame holds).framed (ElaborateAll.extends _ fallback)
        exact followed.redirect fun _ _ _ => reaches_mark.weaken (Nat.zero_le 1)
  | noArms =>
    simp only [runArms, find?_nil, implies_true]
  | @someArms body _ _ _ _ others _ _ _ _ _ _ keys values coded _ ih ih' =>
    obtain ⟨_, lives, elaborated⟩ := elaborated
    intro key
    simp only [append_assoc, cons_append] at stands ⊢
    have at_body := (suffix_cons _ _).trans stands
    have at_others := (suffix_append _ _).trans ((suffix_append _ _).trans at_body)
    cases elaborated with
    | cons known part later =>
      have extended := ElaborateAll.extends _ part
      rw [runArms, known.any_is_key lives same, find?_cons]
      cases held : values.contains key with
      | true =>
        simp only [if_true]
        refine ⟨_, rfl, ?_⟩
        rw [routine.resume_label distinct stands]
        have followed := (ih _ at_body part same store frame holds).framed extended
        exact followed.leaving fun ended final => coded.closed runtime limit ended store final
      | false =>
        simp only [Bool.false_eq_true, if_false]
        exact ih' rest at_others ⟨_, lives, later⟩ (extended.symbols_eq.trans same) store frame
          holds key

end TriggerScript
