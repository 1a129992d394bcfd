import TriggerScript.Proofs.Generation.Emitted

/-!
The shape of the code emitted for statements.
-/

namespace TriggerScript

open Emission Emit

namespace Emits

variable {linkage : Linkage} {loop : Option LoopTargets}
  {before first second third fourth after : Emission}
  {span : Span} {condition : Expr} {body : Stmt} {prim : Prim} {cases : List SwitchCase}

theorem ifThen
    (test : Emits linkage (.truth condition ⟨before.nextLabel, "if_true"⟩ ⟨before.nextLabel + 1,
      "if_end"⟩) (before.skip 2) first)
    (part : Emits linkage (.stmt body loop) (first.bind ⟨before.nextLabel, "if_true"⟩) second) :
    Emits linkage (.stmt (.ifThen span condition body) loop) before
      (second.bind ⟨before.nextLabel + 1, "if_end"⟩) :=
  joins (before.grows_skip 2) test (fun _ => first.grows_bind _) part (fun _ => second.grows_bind _)
    fun truth body => by simpa using Coded.ifThen truth body

theorem ifElse {otherwise : Stmt}
    (test : Emits linkage (.truth condition ⟨before.nextLabel, "if_true"⟩ ⟨before.nextLabel + 1,
      "if_else"⟩) (before.skip 3) first)
    (part : Emits linkage (.stmt body loop) (first.bind ⟨before.nextLabel, "if_true"⟩) second)
    (alternative : Emits linkage (.stmt otherwise loop)
      ((second.leave ⟨before.nextLabel + 2, "if_end"⟩).bind ⟨before.nextLabel + 1, "if_else"⟩)
        third) :
    Emits linkage (.stmt (.ifElse span condition body otherwise) loop) before
      (third.bind ⟨before.nextLabel + 2, "if_end"⟩) := by
  obtain ⟨code, tested, coded⟩ := test
  obtain ⟨inner, filled, coded'⟩ := part
  obtain ⟨other, chosen, coded''⟩ := alternative
  have skipped := before.grows_skip 3
  have opened := first.grows_bind ⟨before.nextLabel, "if_true"⟩
  have left := grows_leave filled ⟨before.nextLabel + 2, "if_end"⟩
  have reopened := (second.leave ⟨before.nextLabel + 2, "if_end"⟩).grows_bind ⟨before.nextLabel + 1,
    "if_else"⟩
  have closed := third.grows_bind ⟨before.nextLabel + 2, "if_end"⟩
  have start := (skipped.trans tested).trans opened
  have middle := (start.trans filled).trans (left.trans reopened)
  refine ⟨_, (middle.trans chosen).trans closed, fun tables locals shown => ?_⟩
  have truth := coded tables locals (shown.between skipped
    ((((opened.trans filled).trans (left.trans reopened)).trans chosen).trans closed))
  have body :=
    coded' tables locals (shown.between start (((left.trans reopened).trans chosen).trans closed))
  have alternative := coded'' tables locals (shown.between middle closed)
  rw [bind_label, leave_label] at alternative
  simpa using Coded.ifElse truth body alternative

theorem whileLoop
    (test : Emits linkage (.truth condition ⟨before.nextLabel + 1, "while_body"⟩
      ⟨before.nextLabel + 2, "while_end"⟩)
        ((before.skip 3).bind ⟨before.nextLabel, "while_start"⟩) first)
    (part : Emits linkage
      (.stmt body (some ⟨⟨before.nextLabel, "while_start"⟩, ⟨before.nextLabel + 2, "while_end"⟩⟩))
        (first.bind ⟨before.nextLabel + 1, "while_body"⟩) second) :
    Emits linkage (.stmt (.whileLoop span condition body) loop) before
      ((second.leave ⟨before.nextLabel, "while_start"⟩).bind ⟨before.nextLabel + 2,
        "while_end"⟩) := by
  refine joins ((before.grows_skip 3).trans (grows_bind _ _)) test
    (fun _ => first.grows_bind _) part
    (fun filled => (grows_leave filled _).trans (grows_bind _ _)) fun truth body => ?_
  simpa using Coded.whileLoop truth body

theorem discards (emitted : (Stmt.emitDiscards span prims).run before = .ok ((), after)) :
    ∃ homes, List.Forall₂ (fun prim stack => prim.stack? = some stack) prims homes ∧
      Lays (homes.map fun stack => .core (.discard stack) (.int 0)) before after := by
  induction prims generalizing before with
  | nil =>
    obtain ⟨_, rfl⟩ := run_pure_eq_ok.mp emitted
    exact ⟨[], .nil, [], .refl after, .nil⟩
  | cons prim rest ih =>
    simp only [Stmt.emitDiscards, stackOf, run_bind_eq_ok, run_demand_eq_ok,
      run_core_eq_ok] at emitted
    obtain ⟨stack, start, ⟨lives, rfl⟩, _, _, rfl, emitted⟩ := emitted
    obtain ⟨homes, all, lays⟩ := ih emitted
    have head := lays_add start (.core (.discard stack) (.int 0))
    exact ⟨stack :: homes, .cons lives all, head.append lays⟩

theorem store (emitted : (Expr.emitStore linkage target).run before = .ok ((), after)) :
    ∃ instruction, target.Stores linkage instruction ∧ after = before.add instruction := by
  unfold Expr.emitStore at emitted
  split at emitted
  · simp only [stackOf, run_bind_eq_ok, run_demand_eq_ok, run_core_eq_ok] at emitted
    obtain ⟨target, _, ⟨rfl, rfl⟩, stack, _, ⟨lives, rfl⟩, rfl⟩ := emitted
    exact ⟨_, .localVar lives, rfl⟩
  · simp only [run_bind_eq_ok, run_demand_eq_ok, run_core_eq_ok] at emitted
    obtain ⟨info, _, ⟨found, rfl⟩, rfl⟩ := emitted
    exact ⟨_, .global found, rfl⟩
  · exact absurd emitted run_fail_ne_ok

theorem stores {targets : List Expr}
    (emitted : (targets.forM (Expr.emitStore linkage)).run before = .ok ((), after)) :
    ∃ instructions, List.Forall₂ (Expr.Stores linkage) targets instructions ∧
      Lays instructions before after := by
  induction targets generalizing before with
  | nil =>
    obtain ⟨_, rfl⟩ := run_pure_eq_ok.mp emitted
    exact ⟨[], .nil, [], .refl after, .nil⟩
  | cons target rest ih =>
    rw [List.forM_eq_forM, List.forM_cons, run_bind_eq_ok] at emitted
    obtain ⟨_, middle, head, emitted⟩ := emitted
    obtain ⟨instruction, stored, rfl⟩ := store head
    obtain ⟨instructions, all, lays⟩ := ih emitted
    exact ⟨instruction :: instructions, .cons stored all, (lays_add before instruction).append lays⟩

theorem assign {targets values : List Expr} :
    EmitsFor linkage (.stmt (.assign span targets values) loop)
    (Stmt.emitAssign linkage targets values) := by
  intro before after emitted
  unfold Stmt.emitAssign at emitted
  split at emitted
  · simp only [run_bind_eq_ok, run_demand_eq_ok, run_core_eq_ok] at emitted
    obtain ⟨slot, start, ⟨rfl, rfl⟩, _, first, indexed, _, second, valued, rfl⟩ := emitted
    have index := Expr.emits _ .value start first indexed
    have parts := index.someValues (Expr.emitsAll values first second valued)
    exact parts.ends (second.lays_add _) .assignElement
  · simp only [run_bind_eq_ok] at emitted
    obtain ⟨_, middle, valued, stored⟩ := emitted
    obtain ⟨instructions, all, lays⟩ := stores stored
    have parts := Expr.emitsAll values before middle valued
    exact parts.ends lays fun coded laid => .assign coded all laid

theorem registers {stack : Stack} {entry : Local} (emitted : (do
      addVariable stack entry
      core (.popLocal stack) (.localVar entry) : Emit Unit).run before = .ok ((), after)) :
    Lays [.core (.popLocal stack) (.localVar entry)] before after ∧
      (stack, entry) ∈ after.locals.declared := by
  simp only [run_bind_eq_ok, run_core_eq_ok] at emitted
  obtain ⟨_, registered, added, rfl⟩ := emitted
  obtain rfl : registered = before.register stack entry := by
    cases added
    rfl
  obtain ⟨tail, grows, laid⟩ :=
    (before.register stack entry).lays_add (.core (.popLocal stack) (.localVar entry))
  refine ⟨⟨tail, ?_, laid⟩, grows.declared_sub (before.mem_register stack entry)⟩
  exact (before.grows_register stack entry).trans grows

theorem declare {span' : Span} {name : Ident} {init : Option Expr} {target : Option Local} :
    EmitsFor linkage (.stmt (.declare span' prim name init target) loop)
      (Stmt.emitDeclare linkage span prim init target) := by
  intro before after emitted
  simp only [Stmt.emitDeclare, stackOf] at emitted
  rw [run_bind_eq_ok] at emitted
  obtain ⟨entry, _, demanded, emitted⟩ := emitted
  obtain ⟨rfl, rfl⟩ := run_demand_eq_ok.mp demanded
  rw [run_bind_eq_ok] at emitted
  obtain ⟨stack, start, demanded, emitted⟩ := emitted
  obtain ⟨lives, rfl⟩ := run_demand_eq_ok.mp demanded
  cases init with
  | some init =>
    obtain ⟨_, middle, valued, emitted⟩ := run_bind_eq_ok.mp emitted
    obtain ⟨⟨tail, behind, laid⟩, registered⟩ := registers emitted
    obtain ⟨code, grows, coded⟩ := Expr.emits init .value start middle valued
    refine ⟨code ++ tail, grows.trans behind, fun tables locals shown => ?_⟩
    exact .declare lives (shown.declared_sub registered)
      (coded tables locals (shown.left behind)) laid
  | none =>
    obtain ⟨_, middle, valued, emitted⟩ := run_bind_eq_ok.mp emitted
    obtain ⟨lays, registered⟩ := registers emitted
    simp only [pushDefault, run_bind_eq_ok, run_demand_eq_ok, run_push_value_eq_ok] at valued
    obtain ⟨value, start, ⟨starts, rfl⟩, rfl⟩ := valued
    obtain ⟨code, grows, laid⟩ := (start.lays_add value.instruction).append lays
    refine ⟨code, grows, fun tables locals shown => ?_⟩
    exact .declareDefault lives (shown.declared_sub registered) starts laid

theorem declareArray : EmitsFor linkage (.stmt (.declareArray span' prim name size slot) loop)
    (Stmt.emitDeclareArray linkage span prim size slot) := by
  intro before after emitted
  simp only [Stmt.emitDeclareArray, run_bind_eq_ok, run_demand_eq_ok, run_core_eq_ok] at emitted
  obtain ⟨number, start, ⟨rfl, rfl⟩, _, middle, sized, rfl⟩ := emitted
  exact (Expr.emits size .value start middle sized).ends (middle.lays_add _) .declareArray

/-- The choice among the arms of a switch, and the jump behind it. -/
theorem chooses (chosen : second = first.reserve.add (.core .switch (.switch first.tables.length)))
    (skipped : third = (second.skip count).add (.core .branch (.label target))) :
    ∃ choice skip, first.Grows (choice ++ skip) third ∧ first.tables.length < third.tables.length ∧
      Laid [.core .switch (.switch first.tables.length)] first.nextLabel second.nextLabel choice ∧
      Laid [.core .branch (.label target)] (second.nextLabel + count) third.nextLabel skip := by
  obtain ⟨choice, chooses, laid⟩ :=
    first.reserve.lays_add (.core .switch (.switch first.tables.length))
  obtain ⟨skip, skips, laid'⟩ := (second.skip count).lays_add (.core .branch (.label target))
  rw [← chosen] at chooses laid
  rw [← skipped] at skips laid'
  have names : .op (.core .switch (.switch first.tables.length)) ∈ choice :=
    (mem_of_laid laid).mpr (List.mem_singleton_self _)
  have behind := (second.grows_skip count).trans skips
  refine ⟨choice, skip, (chooses.reserve names).trans behind, ?_, laid, laid'⟩
  have more := (chooses.trans behind).length_le
  simp only [reserve, List.length_append, List.length_singleton] at more
  omega

theorem switch {arms : List Arm} (part : Emits linkage (.value condition) before first)
    (chosen : second = first.reserve.add (.core .switch (.switch first.tables.length)))
    (skipped : third = (second.skip 1).add
      (.core .branch (.label ⟨second.nextLabel, "switch_end"⟩)))
    (bodies : Emits linkage (.arms arms loop ⟨second.nextLabel, "switch_end"⟩ cases) third fourth) :
    Emits linkage (.stmt (.switch span prim condition arms none) loop) before
      ((fourth.bind ⟨second.nextLabel, "switch_end"⟩).fill first.tables.length ⟨cases⟩) := by
  obtain ⟨code, valued, coded⟩ := part
  obtain ⟨choice, skip, choosing, reserved, laid, laid'⟩ := chooses chosen skipped
  obtain ⟨inner, filled, coded'⟩ := bodies
  have closed := fourth.grows_bind ⟨second.nextLabel, "switch_end"⟩
  have ending := filled.trans closed
  refine ⟨_, ((valued.trans choosing).trans ending).fill valued.length_le ⟨cases⟩,
    fun tables locals shown => ?_⟩
  have value := coded tables locals (shown.before_fill (choosing.trans ending) le_rfl)
  have body :=
    coded' tables locals ((shown.behind_fill (valued.trans choosing) reserved).left closed)
  have table := shown.filled valued.length_le (Nat.lt_of_lt_of_le reserved ending.length_le)
  simpa using Coded.switch value laid laid' body table

theorem switchDefault {here within : Span} {arms : List Arm} {keys : List Expr}
    {values : List Int32} {body : List Stmt} {fifth : Emission}
    (part : Emits linkage (.value condition) before first)
    (chosen : second = first.reserve.add (.core .switch (.switch first.tables.length)))
    (skipped : third = (second.skip 2).add
      (.core .branch (.label ⟨second.nextLabel + 1, "switch_default"⟩)))
    (bodies : Emits linkage (.arms arms loop ⟨second.nextLabel, "switch_end"⟩ cases) third fourth)
    (fallback : Emits linkage (.stmts body loop)
      (fourth.bind ⟨second.nextLabel + 1, "switch_default"⟩) fifth) :
    Emits linkage
      (.stmt (.switch span prim condition arms (some (.mk here within keys values body))) loop)
        before
      ((fifth.bind ⟨second.nextLabel, "switch_end"⟩).fill first.tables.length
        ⟨cases ++ [⟨[], ⟨second.nextLabel + 1, "switch_default"⟩⟩]⟩) := by
  obtain ⟨code, valued, coded⟩ := part
  obtain ⟨choice, skip, choosing, reserved, laid, laid'⟩ := chooses chosen skipped
  obtain ⟨inner, filled, coded'⟩ := bodies
  obtain ⟨other, defaulted, coded''⟩ := fallback
  have opened := fourth.grows_bind ⟨second.nextLabel + 1, "switch_default"⟩
  have closed := fifth.grows_bind ⟨second.nextLabel, "switch_end"⟩
  have ending := (filled.trans opened).trans (defaulted.trans closed)
  refine ⟨_, ((valued.trans choosing).trans ending).fill valued.length_le _,
    fun tables locals shown => ?_⟩
  have value := coded tables locals (shown.before_fill (choosing.trans ending) le_rfl)
  have rest := shown.behind_fill (valued.trans choosing) reserved
  have body := coded' tables locals (rest.left (opened.trans (defaulted.trans closed)))
  have otherwise := coded'' tables locals (rest.between (filled.trans opened) closed)
  have table := shown.filled valued.length_le (Nat.lt_of_lt_of_le reserved ending.length_le)
  simpa using Coded.switchDefault value laid laid' body otherwise table

theorem someArms {here within : Span} {keys : List Expr} {values : List Int32} {body : List Stmt}
    {rest : List Arm} {done : Label} (part : Emits linkage (.stmts body loop)
      ((before.skip 1).bind ⟨before.nextLabel, "switch_case"⟩) first)
    (others : Emits linkage (.arms rest loop done cases) (first.leave done) after) :
    Emits linkage (.arms (.mk here within keys values body :: rest) loop done
      (⟨values, ⟨before.nextLabel, "switch_case"⟩⟩ :: cases)) before after := by
  refine joins ((before.grows_skip 1).trans (grows_bind _ _)) part
    (fun filled => grows_leave filled done)
    others (fun _ => .refl after) fun body others => ?_
  rw [leave_label] at others
  simpa using Coded.someArms body others

end Emits

namespace Stmt

variable {linkage : Linkage}

mutual

theorem emits :
    (stmt : Stmt) → (loop : Option LoopTargets) → EmitsFor linkage (.stmt stmt loop)
    (stmt.emit linkage loop)
  | .block span inner body, loop, before, after, emitted => by
    rw [emit] at emitted
    obtain ⟨code, grows, coded⟩ := emitsAll body loop before after emitted
    exact ⟨code, grows, fun tables locals shown => .block (coded tables locals shown)⟩
  | .ifThen span condition body, loop, before, after, emitted => by
    simp only [emit, run_bind_eq_ok, run_fresh_label_eq_ok, run_bind_label_eq_ok] at emitted
    obtain ⟨_, _, ⟨rfl, rfl⟩, _, _, ⟨rfl, rfl⟩, _, first, tested, _, _, rfl, _, second, filled,
      rfl⟩ :=
      emitted
    rw [skip_skip] at tested
    exact Emits.ifThen (Expr.emits condition _ _ first tested) (emits body loop _ second filled)
  | .ifElse span condition body otherwise, loop, before, after, emitted => by
    simp only [emit, run_bind_eq_ok, run_fresh_label_eq_ok, run_bind_label_eq_ok,
      run_jump_if_open_eq_ok] at emitted
    obtain ⟨_, _, ⟨rfl, rfl⟩, _, _, ⟨rfl, rfl⟩, _, _, ⟨rfl, rfl⟩, emitted⟩ := emitted
    obtain ⟨_, first, tested, _, _, rfl, _, second, filled, _, _, rfl, _, _, rfl, _, third, chosen,
      rfl⟩ := emitted
    simp only [skip_skip] at tested
    exact Emits.ifElse (Expr.emits condition _ _ first tested) (emits body loop _ second filled)
      (emits otherwise loop _ third chosen)
  | .whileLoop span condition body, loop, before, after, emitted => by
    simp only [emit, run_bind_eq_ok, run_fresh_label_eq_ok, run_bind_label_eq_ok,
      run_jump_if_open_eq_ok] at emitted
    obtain ⟨_, _, ⟨rfl, rfl⟩, _, _, ⟨rfl, rfl⟩, _, _, ⟨rfl, rfl⟩, emitted⟩ := emitted
    obtain ⟨_, _, rfl, _, first, tested, _, _, rfl, _, second, filled, _, _, rfl, rfl⟩ := emitted
    simp only [skip_skip] at tested
    exact Emits.whileLoop (Expr.emits condition _ _ first tested) (emits body _ _ second filled)
  | .continueLoop span, loop, before, after, emitted => by
    simp only [emit, run_bind_eq_ok, run_demand_eq_ok, run_jump_eq_ok] at emitted
    obtain ⟨targets, start, ⟨rfl, rfl⟩, rfl⟩ := emitted
    obtain ⟨code, grows, laid⟩ := start.lays_add (.core .branch (.label targets.again))
    exact ⟨code, grows, fun _ _ _ => .continueLoop laid⟩
  | .breakLoop span, loop, before, after, emitted => by
    simp only [emit, run_bind_eq_ok, run_demand_eq_ok, run_jump_eq_ok] at emitted
    obtain ⟨targets, start, ⟨rfl, rfl⟩, rfl⟩ := emitted
    obtain ⟨code, grows, laid⟩ := start.lays_add (.core .branch (.label targets.leave))
    exact ⟨code, grows, fun _ _ _ => .breakLoop laid⟩
  | .return span values, loop, before, after, emitted => by
    simp only [emit, run_bind_eq_ok, run_core_eq_ok] at emitted
    obtain ⟨_, middle, valued, rfl⟩ := emitted
    exact (Expr.emitsAll values before middle valued).ends (middle.lays_add _) .return
  | .declare span prim name init target, loop, before, after, emitted => by
    rw [emit] at emitted
    exact Emits.declare before after emitted
  | .declareArray span prim name size slot, loop, before, after, emitted => by
    rw [emit] at emitted
    exact Emits.declareArray before after emitted
  | .assign span targets values, loop, before, after, emitted => by
    rw [emit] at emitted
    exact Emits.assign before after emitted
  | .switch span prim condition arms none, loop, before, after, emitted => by
    simp only [emit, run_bind_eq_ok, run_reserve_table_eq_ok, run_core_eq_ok,
      run_fresh_label_eq_ok, run_jump_eq_ok, run_bind_label_eq_ok,
      run_set_table_eq_ok] at emitted
    obtain ⟨_, first, valued, _, _, ⟨rfl, rfl⟩, _, second, chosen, _, _, ⟨rfl, rfl⟩, _, third,
      skipped, cases, fourth, filled, _, _, rfl, rfl⟩ := emitted
    exact Emits.switch (Expr.emits condition .value before first valued) chosen skipped
      (emitsArms arms loop _ cases third fourth filled)
  | .switch span prim condition arms (some (.mk here within keys values body)), loop, before, after,
      emitted => by
    simp only [emit, emitArm, run_bind_eq_ok, run_reserve_table_eq_ok, run_core_eq_ok,
      run_fresh_label_eq_ok, run_jump_eq_ok, run_bind_label_eq_ok,
      run_set_table_eq_ok] at emitted
    obtain ⟨_, first, valued, _, _, ⟨rfl, rfl⟩, _, second, chosen, _, _, ⟨rfl, rfl⟩, _, _,
      ⟨rfl, rfl⟩, _, third, skipped, cases, fourth, filled, _, _, rfl, _, fifth, defaulted, _, _,
      rfl, rfl⟩ :=
      emitted
    simp only [skip_skip] at skipped
    exact Emits.switchDefault (Expr.emits condition .value before first valued) chosen skipped
      (emitsArms arms loop _ cases third fourth filled) (emitsAll body loop _ fifth defaulted)
  | .expr span value, loop, before, after, emitted => by
    simp only [emit, run_bind_eq_ok] at emitted
    obtain ⟨_, middle, valued, discarded⟩ := emitted
    obtain ⟨homes, lives, lays⟩ := Emits.discards discarded
    exact (Expr.emits value .value before middle valued).ends lays fun coded laid =>
      .discarded coded lives laid

theorem emitsAll : (body : List Stmt) → (loop : Option LoopTargets) →
    EmitsFor linkage (.stmts body loop) (emitAll linkage body loop)
  | [], loop, before, after, emitted => by
    rw [emitAll] at emitted
    obtain ⟨_, rfl⟩ := run_pure_eq_ok.mp emitted
    exact ⟨[], .refl after, fun _ _ _ => .noStmts⟩
  | stmt :: rest, loop, before, after, emitted => by
    simp only [emitAll, run_bind_eq_ok] at emitted
    obtain ⟨_, middle, here, later⟩ := emitted
    exact Emits.joins (.refl before) (emits stmt loop before middle here) (fun _ => .refl middle)
      (emitsAll rest loop middle after later) (fun _ => .refl after)
      fun head others => by simpa using Coded.someStmts head others

theorem emitsArms : (arms : List Arm) → (loop : Option LoopTargets) → (done : Label) →
    (cases : List SwitchCase) → (before after : Emission) →
    (emitArms linkage arms loop done).run before = .ok (cases, after) →
    Emits linkage (.arms arms loop done cases) before after
  | [], loop, done, cases, before, after, emitted => by
    rw [emitArms] at emitted
    obtain ⟨rfl, rfl⟩ := run_pure_eq_ok.mp emitted
    exact ⟨[], .refl after, fun _ _ _ => .noArms⟩
  | .mk here within keys values body :: rest, loop, done, cases, before, after, emitted => by
    simp only [emitArms, run_bind_eq_ok, run_fresh_label_eq_ok, run_bind_label_eq_ok,
      run_jump_if_open_eq_ok, run_pure_eq_ok] at emitted
    obtain ⟨_, _, ⟨rfl, rfl⟩, _, _, rfl, _, first, filled, _, _, rfl, cases, last, others, rfl,
      rfl⟩ :=
      emitted
    exact Emits.someArms (emitsAll body loop _ first filled)
      (emitsArms rest loop done cases _ _ others)

end

end Stmt

end TriggerScript
