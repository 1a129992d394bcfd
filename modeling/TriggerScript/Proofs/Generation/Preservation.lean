import TriggerScript.Proofs.Generation.Routines
import TriggerScript.Proofs.Generation.Statements

/-!
Generated code means what the script means.

A machine that is put before the routine of a checked script follows the course of the script. If
the script returns, so does the machine, in the same world. If the machine returns after so many
steps, the script does so within as many rounds of each loop: otherwise the machine would fault or
still run.
-/

namespace TriggerScript

variable {ρ : Type}

namespace Routine

def wayOut : Exit → Option (Way ρ)
  | .returned => some ⟨.empty, .stopped .returned⟩
  | .next | .again | .leave => none

variable {routine : Routine}

/-- Code behind a body turns the courses of the body into those of the script. -/
theorem Follows.closed {script : Script}
    (follows : routine.Follows runtime limit machine (routine.ways before scope none goal)
      (Stmt.runAll linkage runtime limit script.body ⟨script.bind arguments, world⟩))
    (closes : ∀ store, Stmt.runAll linkage runtime limit script.body ⟨script.bind arguments,
      world⟩ =
        .ends .next store → ∀ frame, routine.Follows runtime limit (goal ⟨store.world, frame⟩)
          wayOut
        (.after (store.world.pushDefaults script.returns.flatten) fun world =>
          .ends .returned { store with world })) :
    routine.Follows runtime limit machine wayOut
      (script.run linkage runtime limit arguments world) := by
  unfold Script.run
  cases ran : Stmt.runAll linkage runtime limit script.body ⟨script.bind arguments, world⟩ with
  | ends exit store =>
    rw [ran] at follows
    obtain ⟨way, frame, found, holds, arrives⟩ := follows
    cases exit with
    | next =>
      obtain rfl := Option.some.inj found
      exact arrives.follows (closes store ran frame)
    | again | leave => cases found
    | returned =>
      obtain rfl := Option.some.inj found
      exact ⟨_, frame, rfl, holds, arrives⟩
  | faults | exhausted =>
    rw [ran] at follows
    exact follows

theorem follows_defaults
    (starts : List.Forall₂ (fun prim value => prim.default? = some value) returns values)
    (placed : Laid (values.map Value.instruction ++ [.core .returnFlow (.int 0)]) low high tail)
    (store : Store ρ) (frame : Frame) :
    routine.Follows runtime limit (.facing tail ⟨store.world, frame⟩) wayOut
      (.after (store.world.pushDefaults returns) fun world =>
        .ends .returned { store with world }) := by
  obtain ⟨mid, head, last, rfl, pushed, stopped⟩ := Laid.split _ placed
  apply ((Routine.evaluates_defaults starts pushed) store.world).follows
  intro world
  obtain ⟨_, _, ends, here⟩ := routine.reaches_laid (runtime.machine routine.locals) stopped
  cases ends
  have stops := (here [] ⟨world, frame⟩).trans (Routine.reaches_stop rfl)
  rw [List.append_nil] at stops
  exact ⟨_, frame, rfl, Frame.holds_empty, stops.weaken (Nat.zero_le _)⟩

end Routine

theorem Script.Compiled.follows {script : Script}
    (compiled : script.Compiled ⟨symbols, triggers⟩ routine)
    (elaborates : Script.Elaborates symbols capacity source script) (runtime : Runtime ρ)
    (limit : Nat) (arguments : Frame) (world : World ρ) :
    routine.Follows runtime limit (.running routine.entry ⟨world, arguments⟩) Routine.wayOut
      (script.run ⟨symbols, triggers⟩ runtime limit arguments world) := by
  have distinct := compiled.labels_distinct
  obtain ⟨names, last, params, body⟩ := elaborates.bodied
  have holds := compiled.holds_arguments params rfl arguments
  obtain ⟨mid, high, code, tail, all, coded, closing⟩ := compiled.coded
  have stands : code ++ tail <:+ routine.items := by
    rw [all]
    exact List.suffix_cons _ _
  have followed := coded.followed runtime limit distinct tail stands body
    params.symbols_eq ⟨script.bind arguments, world⟩ arguments holds
  rw [Routine.entry_eq, all]
  apply Routine.reaches_mark.follows
  apply followed.closed
  intro store ends frame
  cases closing with
  | ended ended => exact absurd ends (coded.closed runtime limit ended _ _)
  | defaults starts placed => exact Routine.follows_defaults starts placed store frame

namespace Script

/-- The code of a checked script returns if and only if the script does, in the same world. -/
theorem generate_returns_alike {source script : Script} {symbols : SymbolTable} {capacity : Nat}
    {triggers : Triggers} {routine : Routine}
    (checked : source.check symbols capacity = (script, []))
    (generated : script.generate ⟨symbols, triggers⟩ = .ok routine) (runtime : Runtime ρ)
    (arguments : Frame) (world final : World ρ) :
    (∃ frame, routine.Stops (runtime.machine routine.locals) ⟨world, arguments⟩ .returned
      ⟨final, frame⟩) ↔
      script.Returns ⟨symbols, triggers⟩ runtime arguments world final := by
  have follows := (generate_compiled generated).follows (check_elaborates checked) runtime
  constructor
  · rintro ⟨frame, count, stopped⟩
    -- As many rounds as the machine takes steps are enough.
    have followed := follows count arguments world
    cases course : script.run ⟨symbols, triggers⟩ runtime count arguments world with
    | ends exit store =>
      rw [course] at followed
      obtain ⟨way, frame', found, -, steps, -, arrives⟩ := followed
      cases exit with
      | returned =>
        obtain rfl := Option.some.inj found
        obtain ⟨-, same⟩ := Routine.stopped_unique arrives stopped
        obtain ⟨rfl, -⟩ := Memory.mk.inj same
        exact ⟨count, store.bindings, course⟩
      | next | again | leave => cases found
    | faults =>
      rw [course] at followed
      obtain ⟨last, steps, -, faults⟩ := followed
      cases (Routine.stopped_unique faults stopped).1
    | exhausted =>
      rw [course] at followed
      have survives : (routine.run _ count _).IsRunning := followed
      rw [stopped] at survives
      exact survives.elim
  · rintro ⟨limit, bindings, returned⟩
    have followed := follows limit arguments world
    rw [returned] at followed
    obtain ⟨way, frame, found, -, steps, -, arrives⟩ := followed
    obtain rfl := Option.some.inj found
    exact ⟨frame, steps, arrives⟩

/-- Add up the numbers from one to the argument. -/
def sumScript : Script :=
  let here : Span := .empty
  let note : Note := .ofSpan here
  let var (name : String) : Expr := .localVar note ⟨name, here⟩ none
  let compute (operator : Operator) (left right : Expr) : Expr :=
    .calculation note (.binary note operator left right)
  { annotations := []
    trigger := ⟨"proc", here⟩
    name := ⟨"sum", here⟩
    params := [⟨.int, ⟨"count", here⟩, here, none⟩]
    returns := .single .int
    inner := here
    body := [
      .declare here .int ⟨"sum", here⟩ none none,
      .whileLoop here (.binary note .greaterThan (var "count") (.int note 0))
        (.block here here [
          .assign here [var "sum", var "count"]
            [compute .add (var "sum") (var "count"), compute .sub (var "count") (.int note 1)]]),
      .return here [var "sum"]]
    span := here }

/-- A runtime that offers nothing. -/
def bareRuntime : Runtime Unit where
  act _ _ := none
  isTrue value := value = 1

/-- A frame whose first number is given. -/
def oneArgument (value : Int32) : Frame
  | .int => fun _ => value
  | .string => fun _ => ""
  | .long => fun _ => 0

/-- The code of a loop that stores two values in each round returns what the loop adds up. -/
theorem generate_sum_returns : ∃ script routine, sumScript.check .empty 5 = (script, []) ∧
    script.generate ⟨.empty, ⟨[]⟩⟩ = .ok routine ∧ ∃ frame final,
      routine.Stops (bareRuntime.machine routine.locals) ⟨⟨fun _ => [], ()⟩, oneArgument 3⟩
        .returned ⟨final, frame⟩ ∧ final.operands .int = [6] := by
  have checked : sumScript.check .empty 5 = ((sumScript.check .empty 5).1, []) := rfl
  obtain ⟨routine, generated⟩ : ∃ routine,
      (sumScript.check .empty 5).1.generate ⟨.empty, ⟨[]⟩⟩ = .ok routine := ⟨_, rfl⟩
  obtain ⟨frame, stops⟩ := (generate_returns_alike checked generated bareRuntime (oneArgument 3)
    ⟨fun _ => [], ()⟩ _).mpr ⟨4, _, rfl⟩
  exact ⟨_, routine, checked, generated, frame, _, stops, rfl⟩

end Script

end TriggerScript
