import TriggerScript.Proofs.Generation.Endings
import TriggerScript.Proofs.Generation.Expressions

/-!
Courses of statements and runs of their code.

A machine follows the course of a statement: it gets to where control goes on, with the variables in
their slots; it faults where the statement does; and where a loop of the statement has used up its
rounds, it still runs after as many steps.
-/

namespace TriggerScript

open List Item

variable {ρ : Type} {linkage : Linkage} {runtime : Runtime ρ} {limit : Nat}

/-! ### Code whose end is not reached -/

theorem Laid.goes_on (laid : Laid instructions low high code) (before : List Item)
    (opened : endsFlow before = false)
    (onward : ∀ instruction ∈ instructions, instruction.endsFlow = false) :
    endsFlow (before ++ code) = false := by
  induction laid generalizing before with
  | nil => rwa [append_nil]
  | @here _ _ _ _ instruction _ ih =>
    have placed :=
      ih (before ++ [.op instruction]) ((ends_flow_append_op _ _).trans (onward _ mem_cons_self))
      fun other member => onward other (mem_cons_of_mem _ member)
    rwa [append_assoc] at placed
  | @apart _ low _ _ instruction _ ih =>
    have placed := ih (before ++ [.mark ⟨low, "unreachable"⟩] ++ [.op instruction])
      ((ends_flow_append_op _ _).trans (onward _ mem_cons_self))
      fun other member => onward other (mem_cons_of_mem _ member)
    rwa [append_assoc, append_assoc] at placed

theorem Laid.goes_on_of_one (laid : Laid [instruction] low high code)
    (opened : endsFlow before = false) (onward : instruction.endsFlow = false) :
    endsFlow (before ++ code) = false :=
  laid.goes_on before opened fun _ member => mem_singleton.mp member ▸ onward

/-- Code that ends the flow belongs to statements that control does not leave at their end. The flow
never ends behind an expression. -/
def Phrase.Closed (linkage : Linkage) (runtime : Runtime ρ) (limit : Nat) (code : List Item) :
    Phrase → Prop
  | .value _ | .values _ => Item.endsFlow code = false
  | .stmt statement _ => Item.endsFlow code = true →
    ∀ store final, statement.run linkage runtime limit store ≠ .ends .next final
  | .stmts body _ => Item.endsFlow code = true →
    ∀ store final, Stmt.runAll linkage runtime limit body store ≠ .ends .next final
  | .truth _ _ _ | .arms _ _ _ _ => True

theorem Course.after_returned_ne_next {α : Type} {result : Option α} {store : α → Store ρ}
    {final : Store ρ} :
    (Course.after result fun value => .ends .returned (store value)) ≠ .ends .next final := by
  cases result <;> exact fun same => nomatch same

theorem Coded.closed (runtime : Runtime ρ) (limit : Nat)
    (coded : Coded linkage tables locals phrase low high code) :
    phrase.Closed linkage runtime limit code := by
  induction coded with
  | apply applies _ placed ih => exact placed.goes_on_of_one ih applies.goes_on
  | calculation _ ih => exact ih
  | hook _ number _ placed ih =>
    refine placed.goes_on_of_one ?_ (Value.goes_on _)
    rw [ends_flow_append_eq]
    split
    · exact number.goes_on [] rfl fun _ member => mem_singleton.mp member ▸ Value.goes_on _
    · exact ih
  | decided => exact (ends_flow_append _ (by simp)).trans rfl
  | noValues => rfl
  | @someValues _ _ _ code _ _ tail _ _ ih ih' =>
    show endsFlow (code ++ tail) = false
    rw [ends_flow_append_eq]
    split
    · exact ih
    · exact ih'
  | tested | either | both | compared => trivial
  | noStmts => exact fun ends => nomatch ends
  | @someStmts stmt _ _ _ code rest _ tail _ _ ih ih' =>
    intro ends store final
    rw [ends_flow_append_eq] at ends
    rw [Stmt.runAll]
    cases course : stmt.run linkage runtime limit store with
    | ends exit middle =>
      cases exit with
      | next =>
        split at ends
        · exact absurd course (ih ends store middle)
        · exact ih' ends middle final
      | again | leave | returned => exact fun same => nomatch same
    | faults | exhausted => exact fun same => nomatch same
  | block _ ih =>
    intro ends store final
    rw [Stmt.run]
    exact ih ends store final
  | continueLoop | breakLoop =>
    intro _ store final
    rw [Stmt.run]
    exact fun same => nomatch same
  | «return» =>
    intro _ store final
    rw [Stmt.run]
    exact Course.after_returned_ne_next
  | declare _ _ _ placed ih =>
    exact fun ends => nomatch ends.symm.trans (placed.goes_on_of_one ih (Stack.store_goes_on _ _))
  | declareDefault _ _ _ placed =>
    have goes_on := placed.goes_on [] rfl fun instruction member => by
      rcases mem_cons.mp member with rfl | member
      · exact Value.goes_on _
      · rw [mem_singleton.mp member]
        exact Stack.store_goes_on _ _
    exact fun ends => nomatch ends.symm.trans goes_on
  | declareArray _ placed ih | assignElement _ placed ih =>
    exact fun ends => nomatch ends.symm.trans (placed.goes_on_of_one ih rfl)
  | assign _ stores placed ih =>
    exact fun ends => nomatch ends.symm.trans (placed.goes_on _ ih (Expr.stores_go_on stores))
  | discarded _ _ placed ih =>
    have goes_on := placed.goes_on _ ih fun instruction member => by
      obtain ⟨stack, -, rfl⟩ := mem_map.mp member
      cases stack <;> rfl
    exact fun ends => nomatch ends.symm.trans goes_on
  | ifThen | ifElse | whileLoop | switch | switchDefault =>
    intro ends
    simp [endsFlow, getLast?_cons] at ends
  | noArms | someArms => trivial

/-! ### Following a course -/

/-- Where control goes in one of the ways in which a statement is left, and which variables are
visible there. -/
structure Way (ρ : Type) where
  scope : Scope
  goal : Memory ρ → Machine (Memory ρ)

namespace Routine

variable (routine : Routine)

/-- The ways out of a statement between two scopes, with a place where control goes on. -/
def ways (before after : Scope) (loop : Option LoopTargets) (next : Memory ρ → Machine (Memory ρ)) :
    Exit → Option (Way ρ)
  | .next => some ⟨after, next⟩
  | .again => loop.map fun targets => ⟨before, .resume (routine.enter? targets.again)⟩
  | .leave => loop.map fun targets => ⟨before, .resume (routine.enter? targets.leave)⟩
  | .returned => some ⟨.empty, .stopped .returned⟩

/-- The machine follows the course of a statement. -/
def Follows (runtime : Runtime ρ) (limit : Nat) (machine : Machine (Memory ρ))
    (ways : Exit → Option (Way ρ)) : Course ρ → Prop
  | .ends exit store => ∃ way frame, ways exit = some way ∧
    frame.Holds routine.locals way.scope store.bindings ∧
      routine.Reaches (runtime.machine routine.locals) 0 machine (way.goal ⟨store.world, frame⟩)
  | .faults => ∃ final, routine.Reaches (runtime.machine routine.locals) 0 machine
      (.stopped .faulted final)
  | .exhausted => routine.Survives (runtime.machine routine.locals) limit machine

variable {routine} {machine middle : Machine (Memory ρ)} {ways : Exit → Option (Way ρ)}
  {course : Course ρ} {least more : Nat}

theorem Follows.weaken (follows : routine.Follows runtime limit machine ways course)
    (fewer : more ≤ limit) : routine.Follows runtime more machine ways course := by
  cases course with
  | ends exit store => exact follows
  | faults => exact follows
  | exhausted => exact Survives.of_le follows fewer

theorem Reaches.follows_counted
    (reaches : routine.Reaches (runtime.machine routine.locals) least machine middle)
    (follows : routine.Follows runtime limit middle ways course) :
    routine.Follows runtime (least + limit) machine ways course := by
  cases course with
  | ends exit store =>
    obtain ⟨way, frame, found, holds, arrives⟩ := follows
    exact ⟨way, frame, found, holds, (reaches.trans arrives).weaken (Nat.zero_le _)⟩
  | faults =>
    obtain ⟨final, faults⟩ := follows
    exact ⟨final, (reaches.trans faults).weaken (Nat.zero_le _)⟩
  | exhausted => exact Reaches.survives reaches follows

theorem Reaches.follows
    (reaches : routine.Reaches (runtime.machine routine.locals) least machine middle)
    (follows : routine.Follows runtime limit middle ways course) :
    routine.Follows runtime limit machine ways course :=
  (reaches.follows_counted follows).weaken (by omega)

variable {α : Type} {outcome : Option α} {aim : α → Machine (Memory ρ)} {results : α → Course ρ}

theorem Yields.follows_counted
    (yields : routine.Yields (runtime.machine routine.locals) least machine outcome aim)
    (follows : ∀ result, routine.Follows runtime limit (aim result) ways (results result)) :
    routine.Follows runtime (least + limit) machine ways (.after outcome results) := by
  cases outcome with
  | some result => exact Reaches.follows_counted yields (follows result)
  | none => exact yields

theorem Yields.follows
    (yields : routine.Yields (runtime.machine routine.locals) least machine outcome aim)
    (follows : ∀ result, routine.Follows runtime limit (aim result) ways (results result)) :
    routine.Follows runtime limit machine ways (.after outcome results) :=
  (yields.follows_counted follows).weaken (by omega)

variable {before after inner last : Scope} {loop : Option LoopTargets}
  {next : Memory ρ → Machine (Memory ρ)}

theorem Follows.andThen
    (follows : routine.Follows runtime limit machine (routine.ways before inner loop goal) course)
    (later : ∀ store frame, course = .ends .next store →
      frame.Holds routine.locals inner store.bindings →
      routine.Follows runtime limit (goal ⟨store.world, frame⟩)
        (routine.ways before after loop next) (others store)) :
    routine.Follows runtime limit machine (routine.ways before after loop next)
    (course.andThen others) := by
  cases course with
  | ends exit store =>
    obtain ⟨way, frame, found, holds, arrives⟩ := follows
    cases exit with
    | next =>
      obtain rfl := Option.some.inj found
      exact arrives.follows (later store frame rfl holds)
    | again | leave | returned => exact ⟨way, frame, found, holds, arrives⟩
  | faults => exact follows
  | exhausted => exact follows

theorem Follows.narrow
    (follows : routine.Follows runtime limit machine (routine.ways inner last loop next) course)
    (before_sub : before.locals ⊆ inner.locals) (after_sub : after.locals ⊆ last.locals) :
    routine.Follows runtime limit machine (routine.ways before after loop next) course := by
  cases course with
  | ends exit store =>
    obtain ⟨way, frame, found, holds, arrives⟩ := follows
    cases exit with
    | next =>
      obtain rfl := Option.some.inj found
      exact ⟨_, frame, rfl, holds.subset after_sub, arrives⟩
    | again | leave =>
      obtain ⟨targets, known, rfl⟩ := Option.map_eq_some_iff.mp found
      exact ⟨_, frame, Option.map_eq_some_iff.mpr ⟨targets, known, rfl⟩, holds.subset before_sub,
        arrives⟩
    | returned => exact ⟨way, frame, found, holds, arrives⟩
  | faults => exact follows
  | exhausted => exact follows

theorem Follows.redirect
    (follows : routine.Follows runtime limit machine (routine.ways before after loop next) course)
    (onward : ∀ store, course = .ends .next store →
      ∀ memory, routine.Reaches (runtime.machine routine.locals) 0 (next memory) (goal memory)) :
    routine.Follows runtime limit machine (routine.ways before after loop goal) course := by
  have unchanged : course.andThen (.ends .next) = course := by
    cases course with
    | ends exit => cases exit <;> rfl
    | faults | exhausted => rfl
  rw [← unchanged]
  exact follows.andThen fun store frame ends holds => ⟨_, frame, rfl, holds, onward store ends _⟩

theorem Follows.leaving
    (follows : routine.Follows runtime limit machine
      (routine.ways before after loop (.facing (leaving target code ++ rest))) course)
    (closed : endsFlow code = true → ∀ final, course ≠ .ends .next final) :
    routine.Follows runtime limit machine
      (routine.ways before after loop (.resume (routine.enter? target))) course := by
  apply follows.redirect
  intro store ends memory
  unfold TriggerScript.leaving
  split
  · rename_i ended
    exact absurd ends (closed ended store)
  · exact reaches_branch.weaken (Nat.zero_le 1)

theorem follows_rounds (loop : Option LoopTargets) (targets : LoopTargets)
    {condition : Store ρ → Option (Bool × World ρ)} {body : Store ρ → Course ρ} {round : Label}
    {start : List Item}
    (entered : ∀ memory : Memory ρ, Machine.resume (routine.enter? targets.again) memory =
      .facing start memory)
    (tests : ∀ store frame, frame.Holds routine.locals before store.bindings →
      routine.Yields (runtime.machine routine.locals) 1
        (.resume (routine.enter? targets.again) ⟨store.world, frame⟩)
          (condition store) fun (decision, world) =>
            .resume (routine.enter? (if decision then round else targets.leave)) ⟨world, frame⟩)
    (follows : ∀ store frame, frame.Holds routine.locals before store.bindings →
      routine.Follows runtime limit (.resume (routine.enter? round) ⟨store.world, frame⟩)
        (routine.ways before before (some targets) (.resume (routine.enter? targets.again)))
          (body store))
    (count : Nat) (fewer : count ≤ limit) (store : Store ρ) (frame : Frame)
    (holds : frame.Holds routine.locals before store.bindings) :
    routine.Follows runtime count (.resume (routine.enter? targets.again) ⟨store.world, frame⟩)
      (routine.ways before before loop (.resume (routine.enter? targets.leave)))
      (.rounds condition body count store) := by
  induction count generalizing store frame with
  | zero =>
    show routine.Survives _ 0 _
    rw [entered]
    trivial
  | succ count ih =>
    rw [Course.rounds, Nat.add_comm count 1]
    refine (tests store frame holds).follows_counted fun (decision, world) => ?_
    cases decision with
    | false => exact ⟨_, frame, rfl, holds, .refl _⟩
    | true =>
      have followed := follows ⟨store.bindings, world⟩ frame holds
      simp only [if_true]
      cases course : body ⟨store.bindings, world⟩ with
      | ends exit store' =>
        rw [course] at followed
        obtain ⟨way, frame', found, holds', arrives⟩ := followed
        cases exit with
        | next | again =>
          obtain rfl := Option.some.inj found
          exact arrives.follows (ih (by omega) store' frame' holds')
        | leave | returned =>
          obtain rfl := Option.some.inj found
          exact ⟨_, frame', rfl, holds', arrives⟩
      | faults =>
        rw [course] at followed
        exact followed
      | exhausted =>
        rw [course] at followed
        exact Survives.of_le followed (by omega)

end Routine

end TriggerScript
