import TriggerScript.Proofs.Generation.Bodies
import TriggerScript.Proofs.Generation.Labels
import TriggerScript.Proofs.Generation.Slots

/-!
The routine of a script.

A routine starts with its entry, goes on with the code of the body, and ends with a return of the
defaults unless the flow has ended. A frame of arguments holds the variables that the parameters
declare.
-/

namespace TriggerScript

open List Emit LocalMap

variable {linkage : Linkage} {script : Script} {routine : Routine} {params : List Param}
  {target : Local}
  {names : Names}

/-- The entry stands for the parameter. -/
def Param.Enlisted (param : Param) (entry : Stack × Local) : Prop :=
  param.target = some entry.2 ∧ entry.2.prim.stack? = some entry.1

/-- Add parameters to the map of the locals. -/
def Emission.enlist (emission : Emission) (entries : List (Stack × Local)) : Emission :=
  { emission with
    locals := { emission.locals with params := emission.locals.params ++ entries } }

/-- What stands behind the code of a body that gives values of some types. -/
inductive Closing (returns : List Prim) (code : List Item) : Nat → Nat → List Item → Prop where
  | ended {count : Nat} (ends : Item.endsFlow code = true) : Closing returns code count count []
  | defaults {tail : List Item}
      (starts : List.Forall₂ (fun prim value => prim.default? = some value) returns values)
      (placed : Laid (values.map Value.instruction ++ [.core .returnFlow (.int 0)]) low high tail) :
      Closing returns code low high tail

namespace Script

variable {before after : Emission}

/-- The routine consists of the code of the script. -/
structure Compiled (linkage : Linkage) (script : Script) (routine : Routine) : Prop where
  params : List.Forall₂ Param.Enlisted script.params routine.locals.params
  coded : ∃ mid high code tail, routine.items = .mark ⟨0, "entry"⟩ :: (code ++ tail) ∧
    Coded linkage routine.tables routine.locals (.stmts script.body none) 1 mid code ∧
    Closing script.returns.flatten code mid high tail
  tidy : Item.Tidy routine.items
  named : ∀ index < routine.tables.length, .op (.core .switch (.switch index)) ∈ routine.items

theorem run_emit_params (emitted : (emitParams params).run before = .ok ((), after)) :
    ∃ entries, Forall₂ Param.Enlisted params entries ∧ after = before.enlist entries := by
  induction params generalizing before with
  | nil =>
    obtain ⟨-, rfl⟩ := run_pure_eq_ok.mp emitted
    exact ⟨[], .nil, by simp [Emission.enlist]⟩
  | cons param rest ih =>
    simp only [emitParams, stackOf, run_bind_eq_ok, run_demand_eq_ok] at emitted
    obtain ⟨target, _, ⟨known, rfl⟩, stack, _, ⟨lives, rfl⟩, _, middle, added, emitted⟩ := emitted
    obtain ⟨-, rfl⟩ := Prod.mk.inj (Except.ok.inj added)
    obtain ⟨entries, enlisted, rfl⟩ := ih emitted
    refine ⟨(stack, target) :: entries, .cons ⟨known, lives⟩ enlisted, ?_⟩
    simp [Emission.enlist, LocalMap.addParam]

theorem run_defaults {prims : List Prim} {span : Span}
    (emitted : (prims.forM fun prim => pushDefault prim span).run before = .ok ((), after)) :
    ∃ values, Forall₂ (fun prim value => prim.default? = some value) prims values ∧
      Emission.Lays (values.map Value.instruction) before after := by
  induction prims generalizing before with
  | nil =>
    obtain ⟨-, rfl⟩ := run_pure_eq_ok.mp emitted
    exact ⟨[], .nil, [], .refl _, .nil⟩
  | cons prim rest ih =>
    simp only [forM_eq_forM, forM_cons, pushDefault, run_bind_eq_ok, run_demand_eq_ok,
      run_push_value_eq_ok] at emitted
    obtain ⟨_, _, ⟨value, _, ⟨starts, rfl⟩, rfl⟩, emitted⟩ := emitted
    obtain ⟨values, others, lays⟩ := ih emitted
    exact ⟨value :: values, .cons starts others, (Emission.lays_add _ _).append lays⟩

theorem run_closing {returns : List Prim} {span : Span}
    (emitted : (if !before.current.endsFlow then do
        returns.forM fun prim => pushDefault prim span
        core .returnFlow (.int 0)
      else pure () : Emit Unit).run before = .ok ((), after)) : ∃ tail, before.Grows tail after ∧
      ∀ code, before.current.endsFlow = Item.endsFlow code →
        Closing returns code before.nextLabel after.nextLabel tail := by
  cases ended : before.current.endsFlow with
  | true =>
    rw [ended] at emitted
    obtain ⟨-, rfl⟩ := run_pure_eq_ok.mp emitted
    exact ⟨[], .refl _, fun _ same => .ended same.symm⟩
  | false =>
    rw [ended] at emitted
    simp only [Bool.not_false, if_true, run_bind_eq_ok, run_core_eq_ok] at emitted
    obtain ⟨_, middle, pushed, rfl⟩ := emitted
    obtain ⟨values, starts, lays⟩ := run_defaults pushed
    obtain ⟨tail, grows, placed⟩ :=
      lays.append (Emission.lays_add middle (.core .returnFlow (.int 0)))
    exact ⟨tail, grows, fun _ _ => .defaults starts placed⟩

theorem generate_compiled (generated : script.generate linkage = .ok routine) :
    script.Compiled linkage routine := by
  obtain ⟨⟨_, final⟩, emitted, finished⟩ := bind_eq_ok.mp generated
  obtain rfl := Except.ok.inj finished
  simp only [emit, run_bind_eq_ok] at emitted
  obtain ⟨_, first, listed, _, second, body, state, third, got, emitted⟩ := emitted
  obtain ⟨rfl, rfl⟩ := Prod.mk.inj (Except.ok.inj got)
  obtain ⟨entries, enlisted, rfl⟩ := run_emit_params listed
  obtain ⟨code, grows, coded⟩ := Stmt.emitsAll _ _ _ _ body
  obtain ⟨tail, grows', closing⟩ := run_closing emitted
  have all := grows.trans grows'
  refine ⟨?_, ⟨second.nextLabel, final.nextLabel, code, tail, all.items_eq, ?_, closing code ?_⟩,
    ?_, ?_⟩
  · rw [all.params_eq]
    exact enlisted
  · exact coded _ _ ⟨fun index _ old => grows'.table_eq index old, grows'.declared_sub⟩
  · rw [Emission.ends_flow_eq, grows.items_eq, Item.ends_flow_append_eq]
    split
    · rename_i empty
      rw [empty]
      rfl
    · rfl
  · exact all.tidy (.singleton _)
  · intro index known
    have added :=
      mem_append_right (Emission.start.enlist entries).items
        (all.named index (Nat.zero_le index) known)
    rw [← all.items_eq] at added
    exact added

end Script

theorem Closing.numbers {tail : List Item} (closing : Closing returns code low high tail) :
    Item.Numbers low high tail := by
  cases closing with
  | ended => exact .nil _
  | defaults _ placed => exact placed.numbers

namespace Script.Compiled

variable (compiled : script.Compiled linkage routine)

include compiled

theorem labels_distinct : routine.LabelsDistinct := by
  obtain ⟨mid, high, code, tail, all, coded, closing⟩ := compiled.coded
  rw [Routine.labels_distinct_iff, all]
  exact ((coded.numbers.append closing.numbers).mark "entry").nodup

/-- The parameters that live on a stack are those that the routine has there. -/
theorem params_on (stack : Stack) :
    script.paramsOn stack = onStack stack routine.locals.params := by
  have enlisted := compiled.params
  unfold Script.paramsOn
  generalize script.params = params, routine.locals.params = entries at enlisted
  induction enlisted with
  | nil => rfl
  | @cons param entry _ _ enlisted _ ih =>
    obtain ⟨target, lives⟩ := enlisted
    rw [filterMap_cons_some target, filter_cons, ih]
    by_cases here : entry.1 = stack
    · simp [onStack, lives, here]
    · simp [onStack, lives, here]

theorem mem_params (member : target ∈ script.params.filterMap Param.target) :
    ∃ stack, target.prim.stack? = some stack ∧ (stack, target) ∈ routine.locals.params := by
  have enlisted := compiled.params
  generalize script.params = params, routine.locals.params = entries at enlisted member
  induction enlisted with
  | nil => cases member
  | @cons param entry _ _ enlisted _ ih =>
    obtain ⟨known, lives⟩ := enlisted
    rw [filterMap_cons_some known, mem_cons] at member
    rcases member with rfl | later
    · exact ⟨entry.1, lives, mem_cons_self⟩
    · obtain ⟨stack, lives, held⟩ := ih later
      exact ⟨stack, lives, mem_cons_of_mem _ held⟩

end Script.Compiled

theorem Param.Elaborate.mem_locals {after : Names}
    (elaborate : Param.Elaborate names params params' after)
    (member : target ∈ after.scope.locals) :
    target ∈ names.scope.locals ∨ target ∈ params'.filterMap Param.target := by
  induction elaborate with
  | nil => exact .inl member
  | cons opened _ ih =>
    simp only [filterMap_cons, mem_cons]
    rcases ih member with known | later
    · rcases (Scope.mem_declare opened).mp known with known | rfl
      · exact .inl known
      · exact .inr (.inl rfl)
    · exact .inr (.inr later)

theorem Script.Compiled.argument_slot (compiled : script.Compiled linkage routine) {after : Names}
    (elaborate : Param.Elaborate names params script.params after) (fresh : names.scope = .empty)
    (member : target ∈ after.scope.locals) :
    ∃ stack slot, target.prim.stack? = some stack ∧
      ((onStack stack routine.locals.params).findIdx? fun other => other.id = target.id) =
      some slot := by
  have declared : target ∈ script.params.filterMap Param.target := by
    rcases elaborate.mem_locals member with known | declared
    · rw [fresh] at known
      cases known
    · exact declared
  obtain ⟨stack, lives, held⟩ := compiled.mem_params declared
  have here : target ∈ onStack stack routine.locals.params := by
    simp only [onStack, mem_map, mem_filter, decide_eq_true_eq]
    exact ⟨(stack, target), ⟨held, rfl⟩, rfl⟩
  cases found : (onStack stack routine.locals.params).findIdx? fun other =>
    other.id = target.id with
  | none => simpa using findIdx?_eq_none_iff.mp found target here
  | some slot => exact ⟨stack, slot, lives, found⟩

theorem Script.Compiled.holds_arguments (compiled : script.Compiled linkage routine) {after : Names}
    (elaborate : Param.Elaborate names params script.params after) (fresh : names.scope = .empty)
    (arguments : Frame) : arguments.Holds routine.locals after.scope (script.bind arguments) := by
  intro target member
  obtain ⟨stack, slot, lives, found⟩ := compiled.argument_slot elaborate fresh member
  refine ⟨stack, slot, lives, ?_, ?_⟩
  · rw [slot_eq lives, found]
  · rw [Script.bind, compiled.params_on, found]
    rfl

end TriggerScript
