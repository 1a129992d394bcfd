import TriggerScript.Proofs.Generation.Stages

/-!
Emitted code has the shape of generated code.

What is emitted for a phrase is said once, by the items added between two stages of the emission,
for every routine that keeps the tables and variables added on the way.
-/

namespace TriggerScript

open Emission Emit TriggerScript.Expr

/-- The code of a phrase was emitted between two stages. -/
def Emits (linkage : Linkage) (phrase : Phrase) (before after : Emission) : Prop :=
  ∃ code, before.Grows code after ∧ ∀ tables locals, before.Shows after tables locals →
    Coded linkage tables locals phrase before.nextLabel after.nextLabel code

/-- Whatever is emitted is the code of a phrase. -/
def EmitsFor (linkage : Linkage) (phrase : Phrase) (emit : Emit Unit) : Prop :=
  ∀ before after, emit.run before = .ok ((), after) → Emits linkage phrase before after

/-- The code behind the jumps of a decision whose value is wanted, with labels from a number on. -/
def Emission.materialized (emission : Emission) (low : Nat) : Emission :=
  (((((emission.bind ⟨low, "cond_true"⟩).add (Value.int 1).instruction).add
    (.core .branch (.label ⟨low + 2, "cond_end"⟩))).bind ⟨low + 1, "cond_false"⟩).add
      (Value.int 0).instruction).bind ⟨low + 2, "cond_end"⟩

theorem Emission.materialized_eq (emission : Emission) (low : Nat) : emission.materialized low =
      (((((emission.bind ⟨low, "cond_true"⟩).append (Value.int 1).instruction).append
        (.core .branch (.label ⟨low + 2, "cond_end"⟩))).bind ⟨low + 1, "cond_false"⟩).append
          (Value.int 0).instruction).bind ⟨low + 2, "cond_end"⟩ := by
  unfold materialized
  rw [add_of_open (ends_flow_bind _ _), add_of_open (ends_flow_bind emission _)]
  rw [add_of_open (ends_flow_append _ _)]

theorem Emission.grows_materialized (emission : Emission) (low : Nat) :
    emission.Grows [.mark ⟨low, "cond_true"⟩, .op (Value.int 1).instruction,
      .op (.core .branch (.label ⟨low + 2, "cond_end"⟩)), .mark ⟨low + 1, "cond_false"⟩,
      .op (Value.int 0).instruction, .mark ⟨low + 2, "cond_end"⟩] (emission.materialized low) := by
  rw [materialized_eq]
  have pushed := (emission.grows_bind ⟨low, "cond_true"⟩).trans
    (grows_append (ends_flow_bind _ _) (Value.int 1).instruction)
  have jumped :=
    pushed.trans (grows_append (ends_flow_append _ _)
      (.core .branch (.label ⟨low + 2, "cond_end"⟩)))
  have otherwise := (jumped.trans (grows_bind _ ⟨low + 1, "cond_false"⟩)).trans
    (grows_append (ends_flow_bind _ _) (Value.int 0).instruction)
  exact otherwise.trans (grows_bind _ ⟨low + 2, "cond_end"⟩)

theorem Emission.materialized_label (emission : Emission) (low : Nat) :
    (emission.materialized low).nextLabel = emission.nextLabel := by
  rw [materialized_eq]
  rfl

/-- The phrase of an expression for a purpose. -/
def Purpose.phrase (expr : Expr) : Purpose → Phrase
  | .value => .value expr
  | .control ifTrue ifFalse => .truth expr ifTrue ifFalse

namespace Emits

variable {linkage : Linkage} {before middle after : Emission} {expr left right : Expr}
  {args : List Expr}
  {instruction : Instruction} {push : Emit Unit} {note : Note} {ifTrue ifFalse : Label}
  {name : Ident}
  {span : Span}

theorem noValues (emission : Emission) : Emits linkage (.values []) emission emission :=
  ⟨[], .refl emission, fun _ _ _ => .noValues⟩

/-- Two parts were emitted, with items before, between and behind them. -/
theorem joins {start first second last : Emission} {gap back : List Item → List Item}
    (opened : before.Grows front start) (emitted : Emits linkage part start first)
    (between : ∀ {code}, start.Grows code first → first.Grows (gap code) second)
    (emitted' : Emits linkage other second last)
    (closed : ∀ {code}, second.Grows code last → last.Grows (back code) after)
    (shape : ∀ {tables locals code tail}, Coded linkage tables locals part start.nextLabel
      first.nextLabel code → Coded linkage tables locals other second.nextLabel last.nextLabel
        tail → Coded linkage tables locals whole before.nextLabel after.nextLabel
          (front ++ code ++ gap code ++ tail ++ back tail)) :
    Emits linkage whole before after := by
  obtain ⟨code, grows, coded⟩ := emitted
  obtain ⟨tail, grows', coded'⟩ := emitted'
  have middle := (opened.trans grows).trans (between grows)
  have behind := ((between grows).trans grows').trans (closed grows')
  refine ⟨_, (middle.trans grows').trans (closed grows'), fun tables locals shown => shape ?_ ?_⟩
  · exact coded tables locals (shown.between opened behind)
  · exact coded' tables locals (shown.between middle (closed grows'))

/-- Instructions were put behind what was emitted. -/
theorem ends (emitted : Emits linkage part before middle) (lays : Lays instructions middle after)
    (shape : ∀ {tables locals low mid high code tail}, Coded linkage tables locals part low mid
      code → Laid instructions mid high tail →
      Coded linkage tables locals phrase low high (code ++ tail)) :
    Emits linkage phrase before after := by
  obtain ⟨code, grows, coded⟩ := emitted
  obtain ⟨tail, behind, laid⟩ := lays
  refine ⟨code ++ tail, grows.trans behind, fun tables locals shown => ?_⟩
  exact shape (coded tables locals (shown.left behind)) laid

theorem someValues {rest : List Expr} (head : Emits linkage (.value expr) before middle)
    (others : Emits linkage (.values rest) middle after) :
    Emits linkage (.values (expr :: rest)) before after :=
  joins (.refl before) head (fun _ => .refl middle) others (fun _ => .refl after)
    fun head others => by simpa using Coded.someValues head others

theorem apply (applies : expr.Applies linkage args instruction)
    (parts : Emits linkage (.values args) before middle) :
    Emits linkage (.value expr) before (middle.add instruction) :=
  parts.ends (middle.lays_add instruction) (.apply applies)

theorem leaf (applies : expr.Applies linkage [] instruction) :
    Emits linkage (.value expr) before (before.add instruction) :=
  apply applies (noValues before)

theorem deliver (plain : expr.isDecision = false) (pushes : EmitsFor linkage (.value expr) push) :
    EmitsFor linkage (purpose.phrase expr) (deliver push purpose) := by
  intro before after emitted
  cases purpose with
  | value => exact pushes before after emitted
  | control ifTrue ifFalse =>
    simp only [Expr.deliver, Emit.run_bind_eq_ok, Emit.run_jump_eq_ok] at emitted
    obtain ⟨_, middle, pushed, _, _, rfl, rfl⟩ := emitted
    have jumps := (middle.lays_add (.core .branchIfTrue (.label ifTrue))).append
      (lays_add _ (.core .branch (.label ifFalse)))
    exact (pushes before middle pushed).ends jumps (.tested plain)

/-- A constant is pushed. -/
theorem deliverLeaf (plain : expr.isDecision = false)
    (applies : expr.Applies linkage [] (.core opcode operand)) :
    EmitsFor linkage (purpose.phrase expr) (Expr.deliver (core opcode operand) purpose) := by
  refine deliver plain fun _ _ pushed => ?_
  rw [run_core_eq_ok.mp pushed]
  exact leaf applies

/-- Where the value of a decision is wanted, one or zero is pushed behind its jumps. -/
theorem decideFor {jump : Label → Label → Emit Unit} (decides : expr.isDecision = true)
    (jumps : ∀ ifTrue ifFalse, EmitsFor linkage (.truth expr ifTrue ifFalse)
      (jump ifTrue ifFalse)) :
    EmitsFor linkage (purpose.phrase expr) (decideFor jump purpose) := by
  intro before after emitted
  cases purpose with
  | control ifTrue ifFalse => exact jumps ifTrue ifFalse before after emitted
  | value =>
    simp only [Expr.decideFor, Emit.run_bind_eq_ok, Emit.run_fresh_label_eq_ok, Emit.pushInt,
      run_core_eq_ok, run_jump_eq_ok, run_bind_label_eq_ok] at emitted
    obtain ⟨_, _, ⟨rfl, rfl⟩, _, _, ⟨rfl, rfl⟩, _, _, ⟨rfl, rfl⟩, _, middle, jumped, emitted⟩ :=
      emitted
    obtain ⟨_, _, rfl, _, _, rfl, _, _, rfl, _, _, rfl, _, _, rfl, finished⟩ := emitted
    obtain rfl : after = middle.materialized before.nextLabel := finished
    simp only [skip_skip, skip_label] at jumped
    obtain ⟨code, grows, coded⟩ := jumps _ _ _ middle jumped
    have labelled := (before.grows_skip 3).trans grows
    have behind := middle.grows_materialized before.nextLabel
    refine ⟨_, labelled.trans behind, fun tables locals shown => ?_⟩
    rw [materialized_label]
    exact .decided decides (coded tables locals ((shown.left behind).right (before.grows_skip 3)))

/-- Two parts were emitted with a new label between them. -/
theorem labelled {name : String} (first : Emits linkage part (before.skip 1) middle)
    (second : Emits linkage other (middle.bind ⟨before.nextLabel, name⟩) after)
    (shape : ∀ {tables locals mid code tail}, Coded linkage tables locals part
      (before.nextLabel + 1) mid code → Coded linkage tables locals other mid after.nextLabel tail →
      Coded linkage tables locals whole before.nextLabel after.nextLabel
        (code ++ .mark ⟨before.nextLabel, name⟩ :: tail)) :
    Emits linkage whole before after :=
  joins (before.grows_skip 1) first (fun _ => middle.grows_bind _) second (fun _ => .refl after)
    fun first second => by simpa using shape first second

theorem compared {operator : Operator}
    (compares : (operator.isEquality || operator.isRelational) = true)
    (parts : Emits linkage (.values [left, right]) before middle) :
    Emits linkage (.truth (.binary note operator left right) ifTrue ifFalse) before
      ((middle.add (.core (operator.branchOpcode left.isLong) (.label ifTrue))).add
        (.core .branch (.label ifFalse))) := by
  exact parts.ends ((middle.lays_add _).append (lays_add _ _)) (.compared compares)

/-! ### Expressions -/

theorem null : EmitsFor linkage (.value (.null note)) (emitNull note) := by
  intro before after emitted
  simp only [emitNull, stackOf, run_bind_eq_ok, run_demand_eq_ok] at emitted
  obtain ⟨prim, _, ⟨typed, rfl⟩, stack, start, ⟨lives, rfl⟩, emitted⟩ := emitted
  have pushed : after = start.add stack.null.instruction := by
    cases stack <;> exact run_core_eq_ok.mp emitted
  rw [pushed]
  exact leaf (.null typed lives)

theorem localVar {target : Option Local} :
    EmitsFor linkage (.value (.localVar note name target)) (emitLocal target span) := by
  intro before after emitted
  simp only [emitLocal, stackOf, run_bind_eq_ok, run_demand_eq_ok, run_core_eq_ok] at emitted
  obtain ⟨source, _, ⟨rfl, rfl⟩, stack, _, ⟨lives, rfl⟩, rfl⟩ := emitted
  exact leaf (.localVar lives)

theorem global : EmitsFor linkage (.value (.global note name)) (emitGlobal linkage name span) := by
  intro before after emitted
  simp only [emitGlobal, run_bind_eq_ok, run_demand_eq_ok, run_core_eq_ok] at emitted
  obtain ⟨info, _, ⟨found, rfl⟩, rfl⟩ := emitted
  exact leaf (.global found)

theorem constant :
    EmitsFor linkage (.value (.constant note name)) (emitConstant linkage name span) := by
  intro before after emitted
  simp only [emitConstant, run_bind_eq_ok, run_demand_eq_ok, run_push_value_eq_ok] at emitted
  obtain ⟨info, _, ⟨found, rfl⟩, rfl⟩ := emitted
  exact leaf (.constant found)

theorem command {alternative : Bool}
    (applies : ∀ info, linkage.symbols.command? name.text = some info →
      expr.Applies linkage args ⟨.command info.name info.opcode, .int (Value.ofBool alternative)⟩)
    (pushes : EmitsFor linkage (.values args) push) :
    EmitsFor linkage (.value expr) (emitCommand linkage name alternative push span) := by
  intro before after emitted
  simp only [emitCommand, run_bind_eq_ok, run_demand_eq_ok, run_instruction_eq_ok] at emitted
  obtain ⟨info, _, ⟨found, rfl⟩, _, middle, pushed, rfl⟩ := emitted
  exact apply (applies info found) (pushes _ middle pushed)

theorem call {trigger : String} (pushes : EmitsFor linkage (.values args) push) :
    EmitsFor linkage (.value (.call note trigger name args))
    (emitCall linkage trigger name push span) := by
  intro before after emitted
  simp only [emitCall, run_bind_eq_ok, run_demand_eq_ok, run_core_eq_ok] at emitted
  obtain ⟨info, _, ⟨found, rfl⟩, kind, _, ⟨callable, rfl⟩, _, middle, pushed, rfl⟩ := emitted
  exact apply (.call found callable) (pushes _ middle pushed)

theorem hook (pushes : EmitsFor linkage (.values args) push) :
    EmitsFor linkage (.value (.hook note name args))
    (emitHook linkage name push (hookSignature args) span) := by
  intro before after emitted
  simp only [emitHook, pushInt, run_bind_eq_ok, run_demand_eq_ok, run_core_eq_ok] at emitted
  obtain ⟨info, start, ⟨found, rfl⟩, _, _, rfl, _, middle, pushed, rfl⟩ := emitted
  obtain ⟨head, numbered, laid⟩ := lays_add start (Value.int (Int32.ofNat info.id)).instruction
  obtain ⟨code, grows, coded⟩ := pushes _ middle pushed
  obtain ⟨tail, signed, laid'⟩ := lays_add middle (Value.text (hookSignature args)).instruction
  refine ⟨head ++ code ++ tail, (numbered.trans grows).trans signed, fun tables locals shown => ?_⟩
  exact .hook found laid (coded tables locals ((shown.left signed).right numbered)) laid'

end Emits

namespace Expr

variable {linkage : Linkage}

mutual

theorem emits :
    (expr : Expr) → (purpose : Purpose) → EmitsFor linkage (purpose.phrase expr)
    (expr.emit linkage purpose)
  | .int .., _ | .coordgrid .., _ | .bool .., _ | .long .., _ | .text .., _
  | .bare _ _ (some _), _ | .emptyHook _, _ => by
    rw [emit]
    exact Emits.deliverLeaf rfl (by constructor)
  | .null note, purpose => by
    rw [emit]
    exact Emits.deliver rfl Emits.null
  | .localVar note name target, purpose => by
    rw [emit]
    exact Emits.deliver rfl Emits.localVar
  | .arrayElement note name index slot, purpose => by
    rw [emit]
    refine Emits.deliver rfl fun before after pushed => ?_
    simp only [run_bind_eq_ok, run_demand_eq_ok, run_core_eq_ok] at pushed
    obtain ⟨number, start, ⟨rfl, rfl⟩, _, middle, indexed, rfl⟩ := pushed
    have part := emits index .value start middle indexed
    exact Emits.apply .arrayElement (part.someValues (Emits.noValues middle))
  | .global note name, purpose => by
    rw [emit]
    exact Emits.deliver rfl Emits.global
  | .constant note name, purpose => by
    rw [emit]
    exact Emits.deliver rfl Emits.constant
  | .bare note name none, purpose => by
    rw [emit]
    refine Emits.deliver rfl (Emits.command (fun info found => .bare found)
      fun _ middle nothing => ?_)
    obtain ⟨_, rfl⟩ := run_pure_eq_ok.mp nothing
    exact Emits.noValues middle
  | .command note name alternative args, purpose => by
    rw [emit]
    exact Emits.deliver rfl (Emits.command (fun info found => .command found) (emitsAll args))
  | .call note trigger name args, purpose => by
    rw [emit]
    exact Emits.deliver rfl (Emits.call (emitsAll args))
  | .hook note name args, purpose => by
    rw [emit]
    exact Emits.deliver rfl (Emits.hook (emitsAll args))
  | .concat note parts, purpose => by
    rw [emit]
    refine Emits.deliver rfl fun start _ pushed => ?_
    simp only [run_bind_eq_ok, run_demand_eq_ok, run_core_eq_ok] at pushed
    obtain ⟨_, middle, listed, count, _, ⟨fits, rfl⟩, rfl⟩ := pushed
    exact Emits.apply (.concat fits) (emitsAll parts start _ listed)
  | .calculation note inner, purpose => by
    rw [emit]
    refine Emits.deliver rfl fun start last pushed => ?_
    obtain ⟨code, grows, coded⟩ := emits inner .value start last pushed
    exact ⟨code, grows, fun tables locals shown => .calculation (coded tables locals shown)⟩
  | .binary note operator left right, purpose => by
    have values : ∀ start middle last, (left.emit linkage .value).run start = .ok ((), middle) →
        (right.emit linkage .value).run middle = .ok ((), last) →
        Emits linkage (.values [left, right]) start last := by
      intro start middle last first second
      have tail := (emits right .value middle last second).someValues (Emits.noValues last)
      exact (emits left .value start middle first).someValues tail
    rw [emit]
    split
    · rename_i computes
      refine Emits.deliver (by simp [isDecision, computes]) fun start _ pushed => ?_
      simp only [run_bind_eq_ok, run_core_eq_ok] at pushed
      obtain ⟨_, middle, first, _, last, second, rfl⟩ := pushed
      exact Emits.apply (.arithmetic computes) (values start middle last first second)
    · rename_i decides
      refine Emits.decideFor (by simp [isDecision, decides]) fun ifTrue ifFalse start last jumped =>
        ?_
      split at jumped
      · simp only [run_bind_eq_ok, run_fresh_label_eq_ok, run_bind_label_eq_ok] at jumped
        obtain ⟨_, _, ⟨rfl, rfl⟩, _, middle, first, _, _, rfl, second⟩ := jumped
        exact .labelled (emits left _ _ middle first) (emits right _ _ last second) .either
      · simp only [run_bind_eq_ok, run_fresh_label_eq_ok, run_bind_label_eq_ok] at jumped
        obtain ⟨_, _, ⟨rfl, rfl⟩, _, middle, first, _, _, rfl, second⟩ := jumped
        exact .labelled (emits left _ _ middle first) (emits right _ _ last second) .both
      · rename_i not_or not_and
        have compares : (operator.isEquality || operator.isRelational) = true := by
          cases operator <;> simp_all [Operator.isArithmetic, Operator.isEquality,
            Operator.isRelational]
        simp only [run_bind_eq_ok, run_jump_eq_ok] at jumped
        obtain ⟨_, middle, first, _, final, second, _, _, rfl, rfl⟩ := jumped
        exact Emits.compared compares (values start middle final first second)
  | .error note, purpose => by
    rw [emit]
    exact fun _ _ emitted => absurd emitted run_fail_ne_ok

theorem emitsAll : (exprs : List Expr) → EmitsFor linkage (.values exprs) (emitAll linkage exprs)
  | [], before, after, emitted => by
    rw [emitAll] at emitted
    obtain ⟨_, rfl⟩ := run_pure_eq_ok.mp emitted
    exact Emits.noValues after
  | expr :: rest, before, after, emitted => by
    rw [emitAll] at emitted
    simp only [run_bind_eq_ok] at emitted
    obtain ⟨_, middle, head, others⟩ := emitted
    exact (emits expr .value before middle head).someValues (emitsAll rest middle after others)

end

end Expr

end TriggerScript
